import ScriptMachine.Proofs.Compiler.Shaping
import ScriptMachine.Proofs.Compiler.Expressions
import ScriptMachine.Compiler.Stmt
/-!
# Compiled calls are bracketed

When both calls and returns are listened to, the compiler writes each call of a function named
outside the machine's own `__` names between a call site and a return site. A program whose
every call is of such a name (`Syntax.Expr.callsObserved`) therefore compiles to code that
brackets its calls.

Every compile step here starts and ends outside every bracket (`StaysCalm`). A compiled
expression does so in each of its three uses (`Code.Shapes`), which `gen_shapes` proves for every
expression whose calls are observed.
-/

namespace ScriptMachine

namespace Syntax

mutual

/-- Whether every call in the expression names its function by a name the machine does not keep
for itself, one not starting with `__`, so that the call and its return are announced. -/
def Expr.callsObserved : Expr → Bool
  | .nil _ | .bool _ _ | .num _ _ | .str _ _ | .ident _ _ => true
  | .binary _ _ l r => l.callsObserved && r.callsObserved
  | .unary _ _ x => x.callsObserved
  | .logic _ _ xs => Expr.allObserved xs
  | .compare _ first _ rest => first.callsObserved && Expr.allObserved rest
  | .list _ xs | .tuple _ xs => Expr.allObserved xs
  | .dict _ entries => Expr.pairsObserved entries
  | .index _ c k => c.callsObserved && k.callsObserved
  | .call _ f args =>
    !Compiler.isInternalName f.nameOf && f.callsObserved && Expr.allObserved args

def Expr.allObserved : List Expr → Bool
  | [] => true
  | x :: xs => x.callsObserved && Expr.allObserved xs

/-- Whether every call in each key and value is observed. -/
def Expr.pairsObserved : List (Expr × Expr) → Bool
  | [] => true
  | (k, v) :: rest => k.callsObserved && v.callsObserved && Expr.pairsObserved rest

end

end Syntax

namespace Compiler

open Bytecode Chunk Syntax

/-! ## Steps that stay outside every bracket -/

/-- A compile step that keeps the functions being compiled shaped, starting and ending outside
every bracket, whatever functions enclose the innermost one. -/
def StaysCalm {α : Type} (o : Options) (act : GenM α) : Prop :=
  ∀ cs, Holds o (Shaping .calm cs) act fun _ => Shaping .calm cs

namespace StaysCalm

variable {α β : Type} {o : Options} {act : GenM α}

theorem bind {x : GenM α} {f : α → GenM β} (hx : StaysCalm o x) (hf : ∀ a, StaysCalm o (f a)) :
    StaysCalm o (x >>= f) :=
  fun cs => (hx cs).bind fun a => hf a cs

theorem pure (a : α) : StaysCalm o (Pure.pure a : GenM α) :=
  fun _ => Holds.pure fun _ h => h

theorem throw (e : Fault) : StaysCalm o (throw e : GenM α) :=
  fun _ => Holds.throw

theorem leaves {x : ResolveM α} (h : Resolver.Leaves x) : StaysCalm o (liftM x : GenM α) :=
  fun _ => Holds.leaves h

theorem inScope (h : StaysCalm o act) : StaysCalm o (inScope act) :=
  fun cs => Holds.inScope (h cs)

theorem ite {c : Prop} [Decidable c] {x y : GenM α} (hx : c → StaysCalm o x)
    (hy : ¬c → StaysCalm o y) : StaysCalm o (if c then x else y) :=
  fun cs => Holds.ite (fun h => hx h cs) (fun h => hy h cs)

theorem ite_bind {c : Prop} [Decidable c] {x y : GenM α} {f : α → GenM β}
    (hx : c → StaysCalm o x) (hy : ¬c → StaysCalm o y) (hf : ∀ a, StaysCalm o (f a)) :
    StaysCalm o (if c then x >>= f else y >>= f) :=
  ite (fun h => (hx h).bind hf) fun h => (hy h).bind hf

theorem ite_ite_bind {c d : Prop} [Decidable c] [Decidable d] {x y z : GenM α}
    {f : α → GenM β} (hx : StaysCalm o x) (hy : StaysCalm o y) (hz : StaysCalm o z)
    (hf : ∀ a, StaysCalm o (f a)) :
    StaysCalm o (if c then x >>= f else if d then y >>= f else z >>= f) :=
  ite (fun _ => hx.bind hf) fun _ => ite_bind (fun _ => hy) (fun _ => hz) hf

theorem when_bind {c : Prop} [Decidable c] {x : GenM PUnit} {f : PUnit → GenM β}
    (hx : c → StaysCalm o x) (hf : StaysCalm o (f ⟨⟩)) :
    StaysCalm o (if c then x >>= f else f ⟨⟩) :=
  ite (fun h => (hx h).bind fun _ => hf) fun _ => hf

theorem throw_bind (e : Fault) {f : α → GenM β} : StaysCalm o (MonadExcept.throw e >>= f) :=
  fun _ => (Holds.throw (Q := fun _ _ => False)).bind fun _ _ _ _ _ h => h.elim

theorem read {f : Options → GenM α} (h : StaysCalm o (f o)) :
    StaysCalm o (MonadReader.read >>= f) :=
  fun cs => (Holds.read (Q := fun o' r => o' = o ∧ Shaping .calm cs r)
    fun _ hs => ⟨rfl, hs⟩).bind fun o' => fun r a r' hrun ⟨ho, hs⟩ => by
      subst ho
      exact h cs r a r' hrun hs

theorem listening_bind {f : Bool → GenM β} (kind : Kind)
    (h : ∀ b, (b = true ↔ kind ∈ o.listened) → StaysCalm o (f b)) :
    StaysCalm o (listening kind >>= f) :=
  fun cs => Holds.listening_bind kind fun b hb => h b hb cs

theorem forM {γ : Type} {xs : List γ} {f : γ → GenM PUnit} (h : ∀ x ∈ xs, StaysCalm o (f x)) :
    StaysCalm o (xs.forM f) :=
  fun cs => Holds.forM fun x hx => h x hx cs

theorem foldlM {γ : Type} {xs : List γ} {f : β → γ → GenM β} {init : β}
    (h : ∀ acc, ∀ x ∈ xs, StaysCalm o (f acc x)) : StaysCalm o (xs.foldlM f init) :=
  fun cs => Holds.foldlM (I := fun _ => Shaping .calm cs) fun acc x hx => h acc x hx cs

theorem mapM {γ : Type} {xs : List γ} {f : γ → GenM β} (h : ∀ x ∈ xs, StaysCalm o (f x)) :
    StaysCalm o (xs.mapM f) :=
  fun cs => Holds.mapM fun x hx => h x hx cs

theorem emitABC_plain {op : Op} {a b c : Nat} (s : Span)
    (hp : op.plain = true ∨ op = .loadBool ∧ c = 0) : StaysCalm o (emitABC op a b c s) :=
  fun _ => Holds.emitABC_plain (.inl rfl) s hp

theorem emitABx_plain {op : Op} {a bx : Nat} (s : Span) (hp : op.plain = true) :
    StaysCalm o (emitABx op a bx s) :=
  fun _ => Holds.emitABx_plain (.inl rfl) s hp

theorem jump (s : Span) : StaysCalm o (jump s) :=
  fun _ => Holds.jump (.inl rfl) s

theorem patchHere (pcs : List Nat) : StaysCalm o (patchHere pcs) :=
  fun _ => Holds.patchHere (.inl rfl) pcs

theorem notify_other {n : Notification} (hfc : n.kind ≠ Kind.funcCalled.code)
    (hfr : n.kind ≠ Kind.funcReturned.code) : StaysCalm o (notify n) :=
  fun _ => Holds.notify_other hfc hfr

theorem notify_kind {n : Notification} {k : Kind} (hk : n.kind = k.code)
    (hc : k.code ≠ Kind.funcCalled.code) (hr : k.code ≠ Kind.funcReturned.code) :
    StaysCalm o (notify n) :=
  notify_other (hk ▸ hc) (hk ▸ hr)

theorem skip_jump {op : Op} {a b c : Nat} (s s' : Span)
    (hk : op.isTest = true ∨ op = .loadBool ∧ c = 1) {f : Nat → GenM β}
    (hf : ∀ j, StaysCalm o (f j)) :
    StaysCalm o (do emitABC op a b c s; let j ← Compiler.jump s'; f j) :=
  fun cs => (Holds.emitABC_skip s hk).bind fun _ =>
    (Holds.jump (.inr rfl) s').bind fun j => hf j cs

/-! ## Steps of the emitter -/

theorem temp : StaysCalm o temp := leaves Resolver.WritesNothing.alloc.leaves

theorem temps (n : Nat) : StaysCalm o (liftM (Resolver.temps n) : GenM Nat) :=
  leaves (Resolver.WritesNothing.temps n).leaves

theorem errorAt (s : Span) (m : Message) (args : List Text.Arg) :
    StaysCalm o (errorAt s m args) :=
  leaves (Resolver.WritesNothing.report _).leaves

theorem loadK (dst id : Nat) (s : Span) : StaysCalm o (loadK dst id s) := by
  unfold Compiler.loadK
  refine ite (fun _ => ?_) (fun _ => emitABx_plain s (by decide))
  exact (leaves Resolver.WritesNothing.chunk.leaves).bind fun _ =>
    (errorAt _ _ _).bind fun _ => emitABx_plain s (by decide)

theorem rk (id : Nat) (s : Span) : StaysCalm o (rk id s) := by
  unfold Compiler.rk
  exact ite (fun _ => pure id) fun _ =>
    temp.bind fun t => (loadK t id s).bind fun _ => pure t

theorem inRegister (src : Nat) (s : Span) : StaysCalm o (inRegister src s) := by
  unfold Compiler.inRegister
  exact ite (fun _ => pure src) fun _ =>
    temp.bind fun t => (loadK t src s).bind fun _ => pure t

theorem notifyAssign (s : Span) (name : String) (storage : Int) (value : Nat) :
    StaysCalm o (notifyAssign s name storage value) := by
  unfold Compiler.notifyAssign
  exact listening_bind .assignment fun _ _ =>
    ite (fun _ => notify_kind (k := .assignment) rfl (by decide) (by decide)) fun _ => pure ()

theorem step (s : Span) : StaysCalm o (step s) := by
  unfold Compiler.step
  refine listening_bind .singleStep fun _ _ => ite (fun _ => ?_) fun _ => pure ()
  refine (leaves Resolver.WritesNothing.frame.leaves).bind fun _ => ite (fun _ => ?_) fun _ => pure ()
  exact (leaves (Resolver.Leaves.modifyFrame (fun f => { f with lastLine := s.start.line })
    fun _ => ⟨rfl, rfl, rfl⟩)).bind fun _ =>
      notify_kind (k := .singleStep) rfl (by decide) (by decide)

theorem targetOf (name : String) (s : Span) : StaysCalm o (targetOf name s) := by
  unfold Compiler.targetOf
  refine (leaves Resolver.WritesNothing.inFunction.leaves).bind fun _ =>
    ite (fun _ => leaves (Resolver.WritesNothing.define name).leaves) fun _ => ?_
  exact (leaves (Resolver.WritesNothing.find name).leaves).bind fun _ =>
    ite (fun _ => throw _) fun _ => pure _

theorem storageOf (name : String) : StaysCalm o (storageOf name) :=
  (leaves (Resolver.WritesNothing.find name).leaves).bind fun _ => pure _

end StaysCalm

/-! ## Compiled expressions -/

/-- The three uses of a compiled expression each stay outside every bracket. -/
structure Code.Shapes (o : Options) (c : Code) : Prop where
  into : ∀ dst, StaysCalm o (c.into dst)
  operand : StaysCalm o c.operand
  branch : ∀ sense, StaysCalm o (c.branch sense)

section Builders

variable {o : Options}

theorem Op.plain_of_isArith {op : Op} (h : op.isArith = true) : op.plain = true := by
  revert h
  cases op <;> decide

theorem freshWith_calm {into : Nat → GenM Unit} (h : ∀ dst, StaysCalm o (into dst)) :
    StaysCalm o (freshWith into) := by
  unfold freshWith
  exact StaysCalm.temp.bind fun t => (h t).bind fun _ => StaysCalm.pure t

theorem registerOf_calm (s : Span) {operand : GenM Nat} (h : StaysCalm o operand) :
    StaysCalm o (registerOf s operand) := by
  unfold registerOf
  exact h.bind fun x => StaysCalm.inRegister x s

theorem testBranch_calm (s : Span) {operand : GenM Nat} (h : StaysCalm o operand)
    (sense : Bool) : StaysCalm o (testBranch s operand sense) := by
  unfold testBranch
  exact StaysCalm.inScope ((registerOf_calm s h).bind fun _ =>
    StaysCalm.skip_jump s s (.inl (by decide)) fun j => StaysCalm.pure [j])

theorem Code.ofInto_shapes (s : Span) {into : Nat → GenM Unit}
    (h : ∀ dst, StaysCalm o (into dst)) : (Code.ofInto s into).Shapes o :=
  ⟨h, freshWith_calm h, testBranch_calm s (freshWith_calm h)⟩

theorem constantCode_shapes (s : Span) {id : GenM Nat} (h : StaysCalm o id) :
    (constantCode s id).Shapes o :=
  ⟨fun dst => h.bind fun x => StaysCalm.loadK dst x s, h.bind fun x => StaysCalm.rk x s,
    testBranch_calm s (h.bind fun x => StaysCalm.rk x s)⟩

theorem nilCode_shapes (s : Span) : (nilCode s).Shapes o :=
  Code.ofInto_shapes s fun _ => StaysCalm.emitABC_plain s (.inl (by decide))

theorem boolCode_shapes (s : Span) (b : Bool) : (boolCode s b).Shapes o := by
  have hinto : ∀ dst, StaysCalm o (emitABC .loadBool dst (if b then 1 else 0) 0 s) :=
    fun _ => StaysCalm.emitABC_plain s (.inr ⟨rfl, rfl⟩)
  refine ⟨hinto, (Code.ofInto_shapes s hinto).operand, fun sense => ?_⟩
  -- branching on a constant is one jump, or none
  exact StaysCalm.ite (fun _ => (StaysCalm.jump s).bind fun j => StaysCalm.pure [j])
    fun _ => StaysCalm.pure []

theorem readInto_calm (s : Span) (name : String) (dst : Nat) :
    StaysCalm o (readInto s name dst) := by
  unfold readInto
  refine (StaysCalm.leaves (Resolver.WritesNothing.find name).leaves).bind fun v => ?_
  split
  · exact StaysCalm.ite (fun _ => StaysCalm.emitABC_plain s (.inl (by decide)))
      fun _ => StaysCalm.pure ()
  · exact StaysCalm.emitABC_plain s (.inl (by decide))
  · exact StaysCalm.emitABx_plain s (by decide)

theorem identCode_shapes (s : Span) (name : String) : (identCode s name).Shapes o := by
  have hop : StaysCalm o (identCode s name).operand :=
    (StaysCalm.leaves (Resolver.WritesNothing.find name).leaves).bind fun _ =>
      StaysCalm.ite (fun _ => StaysCalm.pure _) fun _ => freshWith_calm (readInto_calm s name)
  exact ⟨readInto_calm s name, hop, testBranch_calm s hop⟩

theorem binaryCode_shapes (s : Span) (op : Int) (leftName rightName : String) {left right : Code}
    (hl : left.Shapes o) (hr : right.Shapes o) :
    (binaryCode s op leftName rightName left right).Shapes o := by
  refine Code.ofInto_shapes s fun dst => ?_
  split
  · exact StaysCalm.throw _
  · rename_i opc hopc
    have hplain := Op.plain_of_isArith (arithOpcode?_isArith hopc)
    refine StaysCalm.inScope (hl.operand.bind fun l => hr.operand.bind fun r => ?_)
    refine StaysCalm.listening_bind .binary fun _ _ => StaysCalm.ite
      (fun _ => StaysCalm.emitABC_plain s (.inl hplain)) fun _ => ?_
    -- an observed operation writes a fresh register when the destination is an operand
    dsimp only
    refine StaysCalm.ite_bind (fun _ => StaysCalm.temp) (fun _ => StaysCalm.pure dst) fun out => ?_
    exact (StaysCalm.emitABC_plain s (.inl hplain)).bind fun _ =>
      (StaysCalm.notify_kind (k := .binary) rfl (by decide) (by decide)).bind fun _ =>
        StaysCalm.ite (fun _ => StaysCalm.emitABC_plain s (.inl (by decide)))
          fun _ => StaysCalm.pure ()

theorem observed_move_calm {b : Bool} {n : Notification} {k : Kind} (hk : n.kind = k.code)
    (hc : k.code ≠ Kind.funcCalled.code) (hr : k.code ≠ Kind.funcReturned.code)
    (out dst : Nat) (s : Span) :
    StaysCalm o (if b = true then (do notify n; (if (out != dst) = true then
        emitABC .move dst out 0 s else pure ()))
      else if (out != dst) = true then emitABC .move dst out 0 s else pure ()) := by
  have hmove : StaysCalm o (if (out != dst) = true then emitABC .move dst out 0 s else pure ()) :=
    StaysCalm.ite (fun _ => StaysCalm.emitABC_plain s (.inl (by decide))) fun _ => StaysCalm.pure ()
  exact StaysCalm.ite (fun _ => (StaysCalm.notify_kind hk hc hr).bind fun _ => hmove) fun _ => hmove

theorem unaryInto_calm (s : Span) (op : Int) (operandName : String) {operand : Code}
    (h : operand.Shapes o) (dst : Nat) : StaysCalm o (unaryInto s op operandName operand dst) := by
  unfold unaryInto
  refine StaysCalm.inScope (h.operand.bind fun x => StaysCalm.listening_bind .unary fun b _ => ?_)
  dsimp only
  refine StaysCalm.ite_bind (fun _ => StaysCalm.temp) (fun _ => StaysCalm.pure dst) fun out => ?_
  -- one instruction for each operator, after the constant zero for unary plus
  split
  · exact (StaysCalm.leaves (Resolver.WritesNothing.numberId 0).leaves).bind fun z => (StaysCalm.rk z s).bind
      fun _ => (StaysCalm.emitABC_plain s (.inl (by decide))).bind fun _ =>
        observed_move_calm (k := .unary) rfl (by decide) (by decide) out dst s
  · exact (StaysCalm.emitABC_plain s (.inl (by decide))).bind fun _ =>
      observed_move_calm (k := .unary) rfl (by decide) (by decide) out dst s
  · exact (StaysCalm.emitABC_plain s (.inl (by decide))).bind fun _ =>
      observed_move_calm (k := .unary) rfl (by decide) (by decide) out dst s
  · exact (StaysCalm.throw _).bind fun _ =>
      observed_move_calm (k := .unary) rfl (by decide) (by decide) out dst s

theorem unaryCode_shapes (s : Span) (op : Int) (operandName : String) {operand : Code}
    (h : operand.Shapes o) : (unaryCode s op operandName operand).Shapes o := by
  have hbase := Code.ofInto_shapes s (unaryInto_calm s op operandName h)
  refine ⟨hbase.into, hbase.operand, fun sense => ?_⟩
  -- negation branches on its operand with the sense flipped
  exact StaysCalm.listening_bind .unary fun _ _ =>
    StaysCalm.ite (fun _ => h.branch !sense) fun _ => hbase.branch sense

theorem Code.Shapes.register {c : Code} (h : c.Shapes o) : StaysCalm o c.register :=
  registerOf_calm c.span h.operand

theorem indexCode_shapes (s : Span) {container key : Code} (hc : container.Shapes o)
    (hk : key.Shapes o) : (indexCode s container key).Shapes o :=
  Code.ofInto_shapes s fun _ => StaysCalm.inScope (hc.register.bind fun _ => hk.operand.bind
    fun _ => StaysCalm.emitABC_plain s (.inl (by decide)))

theorem logicInto_calm (s : Span) (op : Int) {operands : List Code}
    (h : ∀ x ∈ operands, x.Shapes o) (dst : Nat) : StaysCalm o (logicInto s op operands dst) := by
  unfold logicInto
  refine StaysCalm.ite_ite_bind (StaysCalm.pure _) (StaysCalm.pure _) (StaysCalm.throw _)
    fun sense => ?_
  dsimp only
  refine StaysCalm.when_bind (fun _ => StaysCalm.throw _)
    (StaysCalm.inScope (StaysCalm.temp.bind fun t => ?_))
  -- every operand but the last is tested in the shared register and may jump out
  refine (StaysCalm.foldlM fun done p hp => ?_).bind fun done => (StaysCalm.patchHere done).bind
    fun _ => StaysCalm.ite (fun _ => StaysCalm.emitABC_plain s (.inl (by decide)))
      fun _ => StaysCalm.pure ()
  obtain ⟨x, i⟩ := p
  exact (StaysCalm.inScope ((h x (List.fst_mem_of_mem_zipIdx hp)).into t)).bind fun _ =>
    StaysCalm.ite (fun _ => StaysCalm.skip_jump x.span x.span (.inl (by decide))
      fun _ => StaysCalm.pure _) fun _ => StaysCalm.pure _

theorem logicBranch_calm (s : Span) (op : Int) {operands : List Code}
    (h : ∀ x ∈ operands, x.Shapes o) (sense : Bool) :
    StaysCalm o (logicBranch s op operands sense) := by
  unfold logicBranch
  refine StaysCalm.when_bind (fun _ => StaysCalm.throw _) (StaysCalm.ite_ite_bind
    (StaysCalm.pure _) (StaysCalm.pure _) (StaysCalm.throw _) fun decides => ?_)
  refine StaysCalm.ite (fun _ => StaysCalm.foldlM fun _ x hx =>
    ((h x hx).branch sense).bind fun _ => StaysCalm.pure _) fun _ => ?_
  refine (StaysCalm.foldlM fun acc p hp => ?_).bind fun p => ?_
  · obtain ⟨x, i⟩ := p
    have hx := h x (List.fst_mem_of_mem_zipIdx hp)
    exact StaysCalm.ite (fun _ => (hx.branch _).bind fun _ => StaysCalm.pure _)
      fun _ => (hx.branch _).bind fun _ => StaysCalm.pure _
  · obtain ⟨fall, out⟩ := p
    exact (StaysCalm.patchHere fall).bind fun _ => StaysCalm.pure out

theorem logicCode_shapes (s : Span) (op : Int) {operands : List Code}
    (h : ∀ x ∈ operands, x.Shapes o) : (logicCode s op operands).Shapes o :=
  have hbase := Code.ofInto_shapes s (logicInto_calm s op h)
  ⟨hbase.into, hbase.operand, logicBranch_calm s op h⟩

theorem Op.isTest_of_compareOpcode? {op : Int} {opc : Op} {check : Bool}
    (h : compareOpcode? op = some (opc, check)) : opc.isTest = true := by
  rcases compareOpcode?_isTest h with rfl | rfl | rfl | rfl <;> rfl

theorem compareBranch_calm (s : Span) {first : Code} (firstName : String) (ops : List Int)
    {rest : List (Code × String)} (hfirst : first.Shapes o) (hrest : ∀ p ∈ rest, p.1.Shapes o)
    (sense : Bool) : StaysCalm o (compareBranch s first firstName ops rest sense) := by
  unfold compareBranch
  refine StaysCalm.when_bind (fun _ => StaysCalm.throw _)
    (StaysCalm.inScope (hfirst.operand.bind fun x => ?_))
  refine (StaysCalm.foldlM fun st p hp => ?_).bind fun st =>
    (StaysCalm.patchHere st.fall).bind fun _ => StaysCalm.pure st.out
  obtain ⟨⟨op, right, rightName⟩, i⟩ := p
  have hright : right.Shapes o :=
    hrest (right, rightName) (List.of_mem_zip (List.fst_mem_of_mem_zipIdx hp)).2
  unfold compareLink
  dsimp only
  split
  · rename_i q hq
    obtain ⟨opc, check⟩ := q
    have htest := Op.isTest_of_compareOpcode? hq
    -- each link tests its pair and jumps, after its event site when observed
    simp only [pure_bind]
    refine hright.operand.bind fun r => StaysCalm.listening_bind .comparison fun _ _ => ?_
    exact StaysCalm.when_bind (fun _ => StaysCalm.notify_kind (k := .comparison) rfl
      (by decide) (by decide)) (StaysCalm.ite
        (fun _ => StaysCalm.skip_jump s s (.inl htest) fun _ => StaysCalm.pure _)
        fun _ => StaysCalm.skip_jump s s (.inl htest) fun _ => StaysCalm.pure _)
  · exact StaysCalm.throw_bind _

theorem compareCode_shapes (s : Span) {first : Code} (firstName : String) (ops : List Int)
    {rest : List (Code × String)} (hfirst : first.Shapes o) (hrest : ∀ p ∈ rest, p.1.Shapes o) :
    (compareCode s first firstName ops rest).Shapes o := by
  have hbranch := compareBranch_calm s firstName ops hfirst hrest
  have hinto : ∀ dst, StaysCalm o (do
      let isFalse ← compareBranch s first firstName ops rest false
      emitABC .loadBool dst 1 1 s
      patchHere isFalse
      emitABC .loadBool dst 0 0 s) := fun dst cs =>
    (hbranch false cs).bind fun isFalse => (Holds.emitABC_skip s (.inr ⟨rfl, rfl⟩)).bind fun _ =>
      (Holds.patchHere (.inr rfl) isFalse).bind fun _ =>
        Holds.emitABC_plain (.inr rfl) s (.inr ⟨rfl, rfl⟩)
  have hbase := Code.ofInto_shapes s hinto
  exact ⟨hbase.into, hbase.operand, hbranch⟩

theorem sequenceInto_calm {op : Op} (hop : op.plain = true) {items : List Code}
    (h : ∀ x ∈ items, x.Shapes o) (dst : Nat) (s : Span) :
    StaysCalm o (sequenceInto op items dst s) := by
  unfold sequenceInto
  refine StaysCalm.ite (fun _ => StaysCalm.errorAt _ _ _) fun _ => StaysCalm.inScope
    ((StaysCalm.temps _).bind fun base => (StaysCalm.forM fun p hp => ?_).bind fun _ =>
      StaysCalm.emitABC_plain s (.inl hop))
  obtain ⟨x, i⟩ := p
  exact StaysCalm.inScope ((h x (List.fst_mem_of_mem_zipIdx hp)).into _)

theorem dictInto_calm (s : Span) {entries : List (Code × Code)}
    (h : ∀ p ∈ entries, p.1.Shapes o ∧ p.2.Shapes o) (dst : Nat) :
    StaysCalm o (dictInto s entries dst) := by
  unfold dictInto
  refine StaysCalm.ite (fun _ => StaysCalm.errorAt _ _ _) fun _ => StaysCalm.inScope
    ((StaysCalm.temps _).bind fun base => (StaysCalm.forM fun p hp => ?_).bind fun _ =>
      StaysCalm.emitABC_plain s (.inl (by decide)))
  obtain ⟨⟨k, v⟩, i⟩ := p
  obtain ⟨hk, hv⟩ := h (k, v) (List.fst_mem_of_mem_zipIdx hp)
  exact (StaysCalm.inScope (hk.into _)).bind fun _ => StaysCalm.inScope (hv.into _)

theorem callInto_calm (s : Span) {name : String} (hname : isInternalName name = false)
    (hcall : Kind.funcCalled ∈ o.listened) (hret : Kind.funcReturned ∈ o.listened)
    {callee : Code} {args : List Code} (hf : callee.Shapes o) (ha : ∀ x ∈ args, x.Shapes o)
    (dst : Nat) : StaysCalm o (callInto s name callee args dst) := by
  unfold callInto
  refine StaysCalm.inScope (StaysCalm.temp.bind fun base => (hf.into base).bind fun _ =>
    (StaysCalm.forM fun x hx => StaysCalm.temp.bind fun r =>
      StaysCalm.inScope ((ha x hx).into r)).bind fun _ => ?_)
  dsimp only
  refine StaysCalm.ite_bind (fun _ => (StaysCalm.errorAt _ _ _).bind fun _ => StaysCalm.pure _)
    (fun _ => StaysCalm.pure _) fun argc => ?_
  refine StaysCalm.listening_bind .funcCalled fun b hb => ?_
  rw [if_pos (by simp [hname, hb.2 hcall])]
  intro cs
  refine (Holds.notify_callSite rfl).bind fun _ => (Holds.emitABC_call s).bind fun _ =>
    Holds.listening_bind .funcReturned fun b' hb' => ?_
  rw [if_pos (by simp [hname, hb'.2 hret])]
  exact (Holds.notify_returnSite rfl).bind fun _ => StaysCalm.ite
    (fun _ => StaysCalm.emitABC_plain s (.inl (by decide))) (fun _ => StaysCalm.pure ()) cs

end Builders

/-! ## Every expression whose calls are observed -/

section Expressions

variable {o : Options}

mutual

/-- When calls and returns are listened to, an expression whose calls are all observed compiles
to code that stays outside every bracket in each of its uses. -/
theorem gen_shapes (hcall : Kind.funcCalled ∈ o.listened) (hret : Kind.funcReturned ∈ o.listened) :
    ∀ e : Expr, e.callsObserved = true → (gen e).Shapes o
  | .nil s, _ => nilCode_shapes s
  | .bool s b, _ => boolCode_shapes s b
  | .num s x, _ => constantCode_shapes s (StaysCalm.leaves (Resolver.WritesNothing.numberId x).leaves)
  | .str s t, _ => constantCode_shapes s (StaysCalm.leaves (Resolver.WritesNothing.textId t).leaves)
  | .ident s name, _ => identCode_shapes s name
  | .binary s op l r, h => by
    simp only [Expr.callsObserved, Bool.and_eq_true] at h
    exact binaryCode_shapes s op _ _ (gen_shapes hcall hret l h.1) (gen_shapes hcall hret r h.2)
  | .unary s op x, h => unaryCode_shapes s op _ (gen_shapes hcall hret x h)
  | .logic s op xs, h => logicCode_shapes s op (genAll_shapes hcall hret xs h)
  | .compare s first ops rest, h => by
    simp only [Expr.callsObserved, Bool.and_eq_true] at h
    exact compareCode_shapes s _ ops (gen_shapes hcall hret first h.1)
      fun p hp => genAll_shapes hcall hret rest h.2 p.1 (List.of_mem_zip hp).1
  | .list s xs, h => Code.ofInto_shapes s fun dst =>
    sequenceInto_calm (by decide) (genAll_shapes hcall hret xs h) dst s
  | .tuple s xs, h => Code.ofInto_shapes s fun dst =>
    sequenceInto_calm (by decide) (genAll_shapes hcall hret xs h) dst s
  | .dict s entries, h =>
    Code.ofInto_shapes s (dictInto_calm s (genPairs_shapes hcall hret entries h))
  | .index s c k, h => by
    simp only [Expr.callsObserved, Bool.and_eq_true] at h
    exact indexCode_shapes s (gen_shapes hcall hret c h.1) (gen_shapes hcall hret k h.2)
  | .call s f args, h => by
    simp only [Expr.callsObserved, Bool.and_eq_true, Bool.not_eq_true'] at h
    exact Code.ofInto_shapes s (callInto_calm s h.1.1 hcall hret (gen_shapes hcall hret f h.1.2)
      (genAll_shapes hcall hret args h.2))

theorem genAll_shapes (hcall : Kind.funcCalled ∈ o.listened)
    (hret : Kind.funcReturned ∈ o.listened) :
    ∀ xs : List Expr, Expr.allObserved xs = true → ∀ c ∈ genAll xs, c.Shapes o
  | [], _, _, hc => absurd hc List.not_mem_nil
  | x :: xs, h, c, hc => by
    simp only [Expr.allObserved, Bool.and_eq_true] at h
    rw [genAll, List.mem_cons] at hc
    rcases hc with rfl | hc
    · exact gen_shapes hcall hret x h.1
    · exact genAll_shapes hcall hret xs h.2 c hc

theorem genPairs_shapes (hcall : Kind.funcCalled ∈ o.listened)
    (hret : Kind.funcReturned ∈ o.listened) :
    ∀ ps : List (Expr × Expr), Expr.pairsObserved ps = true →
      ∀ p ∈ genPairs ps, p.1.Shapes o ∧ p.2.Shapes o
  | [], _, _, hp => absurd hp List.not_mem_nil
  | (k, v) :: rest, h, p, hp => by
    simp only [Expr.pairsObserved, Bool.and_eq_true] at h
    rw [genPairs, List.mem_cons] at hp
    rcases hp with rfl | hp
    · exact ⟨gen_shapes hcall hret k h.1.1, gen_shapes hcall hret v h.1.2⟩
    · exact genPairs_shapes hcall hret rest h.2 p hp

end

end Expressions

end Compiler

end ScriptMachine
