import ScriptMachine.Compiler.Stmt
/-!
# Properties every compiled expression has

A property of compile steps is `Closed` when sequencing keeps it and every primitive step the
builders use has it: appending code, adding an event site other than a single step, patching
jumps, reading the listeners, and the steps of name resolution. Every use of every compiled
expression then has it (`gen_uses`), and so have the pieces of statements built from expressions
alone. Single-step sites, function boundaries and the reading of the mode are left to each
property.
-/

namespace ScriptMachine

namespace Bytecode

def Notification.isStep (n : Notification) : Bool := n.kind == Kind.singleStep.code

theorem Notification.isStep_of_kind {n : Notification} {k : Kind} (hk : n.kind = k.code)
    (hne : k ≠ .singleStep) : n.isStep = false := by
  rw [isStep, hk, beq_eq_false_iff_ne]
  -- kinds have distinct numbers
  cases k <;> first | exact absurd rfl hne | decide

end Bytecode

namespace Compiler

open Bytecode Syntax

/-- A property of compile steps that sequencing keeps and that every primitive step of the
builders has. -/
structure Closed (P : ∀ {α : Type}, GenM α → Prop) : Prop where
  bind {α β : Type} {x : GenM α} {f : α → GenM β} : P x → (∀ a, P (f a)) → P (x >>= f)
  pure {α : Type} (a : α) : P (Pure.pure a : GenM α)
  throw {α : Type} (e : Fault) : P (MonadExcept.throw e : GenM α)
  listening (k : Kind) : P (listening k)
  emit (i : Instruction) (s : Span) : P (emit i s)
  openJump (op : Op) (a : Nat) (s : Span) : P (openJump op a s)
  patch (pcs : List Nat) (t : Nat) : P (patch pcs t)
  notify {n : Notification} : n.isStep = false → P (notify n)
  chunk : P (liftM Resolver.chunk : GenM Chunk)
  inFunction : P (liftM Resolver.inFunction : GenM Bool)
  find (name : String) : P (liftM (Resolver.find name) : GenM Variable)
  define (name : String) : P (liftM (Resolver.define name) : GenM Variable)
  alloc : P (liftM Resolver.alloc : GenM Nat)
  temps (n : Nat) : P (liftM (Resolver.temps n) : GenM Nat)
  numberId (x : Float) : P (liftM (Resolver.numberId x) : GenM Nat)
  textId (t : String) : P (liftM (Resolver.textId t) : GenM Nat)
  report (d : Diagnostic) : P (liftM (Resolver.report d) : GenM Unit)
  beginScope : P (liftM Resolver.beginScope : GenM Unit)
  endScope : P (liftM Resolver.endScope : GenM Unit)

namespace Closed

variable {P : ∀ {α : Type}, GenM α → Prop} {α β : Type}

/-! ## Sequencing -/

theorem ite (_ : Closed P) {c : Prop} [Decidable c] {x y : GenM α} (hx : c → P x)
    (hy : ¬c → P y) : P (if c then x else y) := by
  by_cases hc : c
  · rw [if_pos hc]
    exact hx hc
  · rw [if_neg hc]
    exact hy hc

variable (h : Closed P)
include h

theorem ite_bind {c : Prop} [Decidable c] {x y : GenM α} {f : α → GenM β} (hx : P x)
    (hy : P y) (hf : ∀ a, P (f a)) : P (if c then x >>= f else y >>= f) :=
  h.ite (fun _ => h.bind hx hf) fun _ => h.bind hy hf

theorem when_bind {c : Prop} [Decidable c] {x : GenM PUnit} {f : PUnit → GenM β}
    (hx : P x) (hf : P (f ⟨⟩)) : P (if c then x >>= f else f ⟨⟩) :=
  h.ite (fun _ => h.bind hx fun _ => hf) fun _ => hf

theorem throw_bind (e : Fault) {f : α → GenM β} : P (MonadExcept.throw e >>= f) :=
  h.throw e

theorem listening_bind {f : Bool → GenM β} (kind : Kind) (hf : ∀ b, P (f b)) :
    P (Compiler.listening kind >>= f) :=
  h.bind (h.listening kind) hf

theorem forM {γ : Type} {xs : List γ} {f : γ → GenM PUnit} (hf : ∀ x ∈ xs, P (f x)) :
    P (xs.forM f) := by
  induction xs with
  | nil => exact h.pure _
  | cons x rest ih =>
    exact h.bind (hf x (List.mem_cons_self ..)) fun _ =>
      ih fun y hy => hf y (List.mem_cons_of_mem _ hy)

theorem foldlM {γ : Type} {xs : List γ} {f : β → γ → GenM β} {init : β}
    (hf : ∀ acc, ∀ x ∈ xs, P (f acc x)) : P (xs.foldlM f init) := by
  induction xs generalizing init with
  | nil => exact h.pure _
  | cons x rest ih =>
    exact h.bind (hf init x (List.mem_cons_self ..)) fun acc =>
      ih fun acc' y hy => hf acc' y (List.mem_cons_of_mem _ hy)

theorem mapM {γ : Type} {xs : List γ} {f : γ → GenM β} (hf : ∀ x ∈ xs, P (f x)) :
    P (xs.mapM f) := by
  induction xs with
  | nil => exact h.pure _
  | cons x rest ih =>
    rw [List.mapM_cons]
    exact h.bind (hf x (List.mem_cons_self ..)) fun _ =>
      h.bind (ih fun y hy => hf y (List.mem_cons_of_mem _ hy)) fun _ => h.pure _

theorem inScope {act : GenM α} (ha : P act) : P (Compiler.inScope act) :=
  h.bind h.beginScope fun _ => h.bind ha fun _ => h.bind h.endScope fun _ => h.pure _

/-! ## Steps of the emitter -/

theorem emitABC (op : Op) (a b c : Nat) (s : Span) : P (Compiler.emitABC op a b c s) :=
  h.bind (h.emit _ s) fun _ => h.pure _

theorem emitABx (op : Op) (a bx : Nat) (s : Span) : P (Compiler.emitABx op a bx s) :=
  h.bind (h.emit _ s) fun _ => h.pure _

theorem here : P Compiler.here := h.bind h.chunk fun _ => h.pure _

theorem jump (s : Span) : P (Compiler.jump s) := h.openJump .jmp 0 s

theorem patchHere (pcs : List Nat) : P (Compiler.patchHere pcs) :=
  h.bind h.here fun t => h.patch pcs t

theorem notify_kind {n : Notification} {k : Kind} (hk : n.kind = k.code)
    (hne : k ≠ .singleStep) : P (Compiler.notify n) :=
  h.notify (Notification.isStep_of_kind hk hne)

theorem temp : P Compiler.temp := h.alloc

theorem errorAt (s : Span) (m : Message) (args : List Text.Arg) : P (Compiler.errorAt s m args) :=
  h.report _

theorem loadK (dst id : Nat) (s : Span) : P (Compiler.loadK dst id s) := by
  unfold Compiler.loadK
  refine h.ite (fun _ => ?_) fun _ => h.emitABx _ _ _ s
  exact h.bind h.chunk fun _ => h.bind (h.errorAt _ _ _) fun _ => h.emitABx _ _ _ s

theorem rk (id : Nat) (s : Span) : P (Compiler.rk id s) := by
  unfold Compiler.rk
  exact h.ite (fun _ => h.pure id) fun _ =>
    h.bind h.temp fun t => h.bind (h.loadK t id s) fun _ => h.pure t

theorem inRegister (src : Nat) (s : Span) : P (Compiler.inRegister src s) := by
  unfold Compiler.inRegister
  exact h.ite (fun _ => h.pure src) fun _ =>
    h.bind h.temp fun t => h.bind (h.loadK t src s) fun _ => h.pure t

theorem notifyAssign (s : Span) (name : String) (storage : Int) (value : Nat) :
    P (Compiler.notifyAssign s name storage value) := by
  unfold Compiler.notifyAssign
  exact h.listening_bind .assignment fun _ =>
    h.ite (fun _ => h.notify_kind (k := .assignment) rfl (by decide)) fun _ => h.pure ()

theorem targetOf (name : String) (s : Span) : P (Compiler.targetOf name s) := by
  unfold Compiler.targetOf
  refine h.bind h.inFunction fun _ => h.ite (fun _ => h.define name) fun _ => ?_
  exact h.bind (h.find name) fun _ => h.ite (fun _ => h.throw _) fun _ => h.pure _

theorem storageOf (name : String) : P (Compiler.storageOf name) :=
  h.bind (h.find name) fun _ => h.pure _

end Closed

/-! ## Compiled expressions -/

/-- The three uses of a compiled expression each have the property `P`. -/
structure Code.Uses (P : ∀ {α : Type}, GenM α → Prop) (c : Code) : Prop where
  into : ∀ dst, P (c.into dst)
  operand : P c.operand
  branch : ∀ sense, P (c.branch sense)

namespace Closed

variable {P : ∀ {α : Type}, GenM α → Prop} (h : Closed P)
include h

theorem freshWith {into : Nat → GenM Unit} (hi : ∀ dst, P (into dst)) :
    P (Compiler.freshWith into) :=
  h.bind h.temp fun t => h.bind (hi t) fun _ => h.pure t

theorem registerOf (s : Span) {operand : GenM Nat} (ho : P operand) :
    P (Compiler.registerOf s operand) :=
  h.bind ho fun x => h.inRegister x s

theorem testBranch (s : Span) {operand : GenM Nat} (ho : P operand) (sense : Bool) :
    P (Compiler.testBranch s operand sense) :=
  h.inScope (h.bind (h.registerOf s ho) fun _ => h.bind (h.emitABC _ _ _ _ s) fun _ =>
    h.bind (h.jump s) fun j => h.pure [j])

theorem ofInto (s : Span) {into : Nat → GenM Unit} (hi : ∀ dst, P (into dst)) :
    (Code.ofInto s into).Uses P :=
  ⟨hi, h.freshWith hi, h.testBranch s (h.freshWith hi)⟩

theorem register {c : Code} (hc : c.Uses P) : P c.register :=
  h.registerOf c.span hc.operand

theorem constantCode (s : Span) {id : GenM Nat} (hid : P id) :
    (Compiler.constantCode s id).Uses P :=
  ⟨fun dst => h.bind hid fun x => h.loadK dst x s, h.bind hid fun x => h.rk x s,
    h.testBranch s (h.bind hid fun x => h.rk x s)⟩

theorem boolCode (s : Span) (b : Bool) : (Compiler.boolCode s b).Uses P := by
  have hbase := h.ofInto s fun dst => h.emitABC .loadBool dst (if b then 1 else 0) 0 s
  refine ⟨hbase.into, hbase.operand, fun sense => ?_⟩
  exact h.ite (fun _ => h.bind (h.jump s) fun j => h.pure [j]) fun _ => h.pure []

theorem readInto (s : Span) (name : String) (dst : Nat) : P (Compiler.readInto s name dst) := by
  unfold Compiler.readInto
  refine h.bind (h.find name) fun v => ?_
  split
  · exact h.ite (fun _ => h.emitABC _ _ _ _ s) fun _ => h.pure ()
  · exact h.emitABC _ _ _ _ s
  · exact h.emitABx _ _ _ s

theorem identCode (s : Span) (name : String) : (Compiler.identCode s name).Uses P := by
  have hop : P (Compiler.identCode s name).operand :=
    h.bind (h.find name) fun _ =>
      h.ite (fun _ => h.pure _) fun _ => h.freshWith (h.readInto s name)
  exact ⟨h.readInto s name, hop, h.testBranch s hop⟩

theorem observedMove {b : Bool} {n : Notification} {k : Kind} (hk : n.kind = k.code)
    (hne : k ≠ .singleStep) (out dst : Nat) (s : Span) :
    P (if b = true then (do Compiler.notify n; (if (out != dst) = true then
        Compiler.emitABC .move dst out 0 s else Pure.pure ()))
      else if (out != dst) = true then Compiler.emitABC .move dst out 0 s else Pure.pure ()) := by
  have hmove : P (if (out != dst) = true then Compiler.emitABC .move dst out 0 s
      else Pure.pure ()) :=
    h.ite (fun _ => h.emitABC _ _ _ _ s) fun _ => h.pure ()
  exact h.ite (fun _ => h.bind (h.notify_kind hk hne) fun _ => hmove) fun _ => hmove

theorem binaryCode (s : Span) (op : Int) (leftName rightName : String) {left right : Code}
    (hl : left.Uses P) (hr : right.Uses P) :
    (Compiler.binaryCode s op leftName rightName left right).Uses P := by
  refine h.ofInto s fun dst => ?_
  split
  · exact h.throw _
  · refine h.inScope (h.bind hl.operand fun l => h.bind hr.operand fun r => ?_)
    refine h.listening_bind .binary fun _ => h.ite (fun _ => h.emitABC _ _ _ _ s) fun _ => ?_
    dsimp only
    refine h.ite_bind h.temp (h.pure dst) fun out => ?_
    exact h.bind (h.emitABC _ _ _ _ s) fun _ =>
      h.bind (h.notify_kind (k := .binary) rfl (by decide)) fun _ =>
        h.ite (fun _ => h.emitABC _ _ _ _ s) fun _ => h.pure ()

theorem unaryInto (s : Span) (op : Int) (operandName : String) {operand : Code}
    (ho : operand.Uses P) (dst : Nat) : P (Compiler.unaryInto s op operandName operand dst) := by
  unfold Compiler.unaryInto
  refine h.inScope (h.bind ho.operand fun x => h.listening_bind .unary fun b => ?_)
  dsimp only
  refine h.ite_bind h.temp (h.pure dst) fun out => ?_
  -- one instruction for each operator, after the constant zero for unary plus
  split
  · exact h.bind (h.numberId 0) fun z => h.bind (h.rk z s) fun _ =>
      h.bind (h.emitABC _ _ _ _ s) fun _ => h.observedMove (k := .unary) rfl (by decide) out dst s
  · exact h.bind (h.emitABC _ _ _ _ s) fun _ =>
      h.observedMove (k := .unary) rfl (by decide) out dst s
  · exact h.bind (h.emitABC _ _ _ _ s) fun _ =>
      h.observedMove (k := .unary) rfl (by decide) out dst s
  · exact h.throw_bind _

theorem unaryCode (s : Span) (op : Int) (operandName : String) {operand : Code}
    (ho : operand.Uses P) : (Compiler.unaryCode s op operandName operand).Uses P := by
  have hbase := h.ofInto s (h.unaryInto s op operandName ho)
  refine ⟨hbase.into, hbase.operand, fun sense => ?_⟩
  exact h.listening_bind .unary fun _ =>
    h.ite (fun _ => ho.branch !sense) fun _ => hbase.branch sense

theorem indexCode (s : Span) {container key : Code} (hc : container.Uses P) (hk : key.Uses P) :
    (Compiler.indexCode s container key).Uses P :=
  h.ofInto s fun _ => h.inScope (h.bind (h.register hc) fun _ => h.bind hk.operand
    fun _ => h.emitABC _ _ _ _ s)

theorem logicInto (s : Span) (op : Int) {operands : List Code} (ho : ∀ x ∈ operands, x.Uses P)
    (dst : Nat) : P (Compiler.logicInto s op operands dst) := by
  unfold Compiler.logicInto
  refine h.ite (fun _ => h.bind (h.pure _) fun sense => ?_) fun _ =>
    h.ite_bind (h.pure _) (h.throw _) fun sense => ?_
  all_goals
    dsimp only
    refine h.when_bind (h.throw _) (h.inScope (h.bind h.temp fun t => ?_))
    -- every operand is evaluated into the shared register; all but the last may jump out
    refine h.bind (h.foldlM fun done p hp => ?_) fun done => h.bind (h.patchHere done)
      fun _ => h.ite (fun _ => h.emitABC _ _ _ _ s) fun _ => h.pure ()
    obtain ⟨x, i⟩ := p
    exact h.bind (h.inScope ((ho x (List.fst_mem_of_mem_zipIdx hp)).into t)) fun _ =>
      h.ite (fun _ => h.bind (h.emitABC _ _ _ _ _) fun _ => h.bind (h.jump _)
        fun _ => h.pure _) fun _ => h.pure _

theorem logicBranch (s : Span) (op : Int) {operands : List Code}
    (ho : ∀ x ∈ operands, x.Uses P) (sense : Bool) :
    P (Compiler.logicBranch s op operands sense) := by
  unfold Compiler.logicBranch
  refine h.when_bind (h.throw _) (h.ite (fun _ => h.bind (h.pure _)
    fun decides => ?_) fun _ => h.ite_bind (h.pure _) (h.throw _) fun decides => ?_)
  all_goals
    refine h.ite (fun _ => h.foldlM fun _ x hx =>
      h.bind ((ho x hx).branch sense) fun _ => h.pure _) fun _ => ?_
    refine h.bind (h.foldlM fun acc p hp => ?_) fun p => ?_
    · obtain ⟨x, i⟩ := p
      have hx := ho x (List.fst_mem_of_mem_zipIdx hp)
      exact h.ite (fun _ => h.bind (hx.branch _) fun _ => h.pure _)
        fun _ => h.bind (hx.branch _) fun _ => h.pure _
    · obtain ⟨fall, out⟩ := p
      exact h.bind (h.patchHere fall) fun _ => h.pure out

theorem logicCode (s : Span) (op : Int) {operands : List Code}
    (ho : ∀ x ∈ operands, x.Uses P) : (Compiler.logicCode s op operands).Uses P :=
  have hbase := h.ofInto s (h.logicInto s op ho)
  ⟨hbase.into, hbase.operand, h.logicBranch s op ho⟩

theorem compareBranch (s : Span) {first : Code} (firstName : String) (ops : List Int)
    {rest : List (Code × String)} (hfirst : first.Uses P) (hrest : ∀ p ∈ rest, p.1.Uses P)
    (sense : Bool) : P (Compiler.compareBranch s first firstName ops rest sense) := by
  unfold Compiler.compareBranch
  refine h.when_bind (h.throw _) (h.inScope (h.bind hfirst.operand fun x => ?_))
  refine h.bind (h.foldlM fun st p hp => ?_) fun st =>
    h.bind (h.patchHere st.fall) fun _ => h.pure st.out
  obtain ⟨⟨op, right, rightName⟩, i⟩ := p
  have hright : right.Uses P :=
    hrest (right, rightName) (List.of_mem_zip (List.fst_mem_of_mem_zipIdx hp)).2
  unfold compareLink
  dsimp only
  split
  · simp only [pure_bind]
    -- each link tests its pair and jumps, after its event site when observed
    refine h.bind hright.operand fun r => h.listening_bind .comparison fun _ => ?_
    exact h.when_bind (h.notify_kind (k := .comparison) rfl (by decide)) (h.ite
      (fun _ => h.bind (h.emitABC _ _ _ _ s) fun _ => h.bind (h.jump s) fun _ => h.pure _)
      fun _ => h.bind (h.emitABC _ _ _ _ s) fun _ => h.bind (h.jump s) fun _ => h.pure _)
  · exact h.throw_bind _

theorem compareCode (s : Span) {first : Code} (firstName : String) (ops : List Int)
    {rest : List (Code × String)} (hfirst : first.Uses P) (hrest : ∀ p ∈ rest, p.1.Uses P) :
    (Compiler.compareCode s first firstName ops rest).Uses P := by
  have hbranch := h.compareBranch s firstName ops hfirst hrest
  have hbase := h.ofInto s fun dst => h.bind (hbranch false) fun isFalse =>
    h.bind (h.emitABC .loadBool dst 1 1 s) fun _ => h.bind (h.patchHere isFalse) fun _ =>
      h.emitABC .loadBool dst 0 0 s
  exact ⟨hbase.into, hbase.operand, hbranch⟩

theorem sequenceInto (op : Op) {items : List Code} (hi : ∀ x ∈ items, x.Uses P) (dst : Nat)
    (s : Span) : P (Compiler.sequenceInto op items dst s) := by
  unfold Compiler.sequenceInto
  refine h.ite (fun _ => h.errorAt _ _ _) fun _ => h.inScope
    (h.bind (h.temps _) fun base => h.bind (h.forM fun p hp => ?_) fun _ => h.emitABC _ _ _ _ s)
  obtain ⟨x, i⟩ := p
  exact h.inScope ((hi x (List.fst_mem_of_mem_zipIdx hp)).into _)

theorem dictInto (s : Span) {entries : List (Code × Code)}
    (he : ∀ p ∈ entries, p.1.Uses P ∧ p.2.Uses P) (dst : Nat) :
    P (Compiler.dictInto s entries dst) := by
  unfold Compiler.dictInto
  refine h.ite (fun _ => h.errorAt _ _ _) fun _ => h.inScope
    (h.bind (h.temps _) fun base => h.bind (h.forM fun p hp => ?_) fun _ => h.emitABC _ _ _ _ s)
  obtain ⟨⟨k, v⟩, i⟩ := p
  obtain ⟨hk, hv⟩ := he (k, v) (List.fst_mem_of_mem_zipIdx hp)
  exact h.bind (h.inScope (hk.into _)) fun _ => h.inScope (hv.into _)

theorem callInto (s : Span) (name : String) {callee : Code} {args : List Code}
    (hf : callee.Uses P) (ha : ∀ x ∈ args, x.Uses P) (dst : Nat) :
    P (Compiler.callInto s name callee args dst) := by
  unfold Compiler.callInto
  refine h.inScope (h.bind h.temp fun base => h.bind (hf.into base) fun _ =>
    h.bind (h.forM fun x hx => h.bind h.temp fun r => h.inScope ((ha x hx).into r)) fun _ => ?_)
  dsimp only
  refine h.ite_bind (h.bind (h.errorAt _ _ _) fun _ => h.pure _) (h.pure _) fun argc => ?_
  -- the call site, the call and the return site
  refine h.listening_bind .funcCalled fun _ => h.when_bind
    (h.notify_kind (k := .funcCalled) rfl (by decide)) ?_
  refine h.bind (h.emitABC _ _ _ _ s) fun _ => h.listening_bind .funcReturned fun _ =>
    h.when_bind (h.notify_kind (k := .funcReturned) rfl (by decide)) ?_
  exact h.ite (fun _ => h.emitABC _ _ _ _ s) fun _ => h.pure ()

omit h in
mutual

/-- Every use of every compiled expression has a closed property. The induction follows the
expression, with the lists of operands and of dict entries alongside. -/
theorem gen_uses (h : Closed P) : ∀ e : Expr, (gen e).Uses P
  | .nil s => h.ofInto s fun _ => h.emitABC _ _ _ _ s
  | .bool s b => h.boolCode s b
  | .num s x => h.constantCode s (h.numberId x)
  | .str s t => h.constantCode s (h.textId t)
  | .ident s name => h.identCode s name
  | .binary s op l r => h.binaryCode s op _ _ (gen_uses h l) (gen_uses h r)
  | .unary s op x => h.unaryCode s op _ (gen_uses h x)
  | .logic s op xs => h.logicCode s op (genAll_uses h xs)
  | .compare s first ops rest => h.compareCode s _ ops (gen_uses h first)
      fun p hp => genAll_uses h rest p.1 (List.of_mem_zip hp).1
  | .list s xs => h.ofInto s fun dst => h.sequenceInto _ (genAll_uses h xs) dst s
  | .tuple s xs => h.ofInto s fun dst => h.sequenceInto _ (genAll_uses h xs) dst s
  | .dict s entries => h.ofInto s (h.dictInto s (genPairs_uses h entries))
  | .index s c k => h.indexCode s (gen_uses h c) (gen_uses h k)
  | .call s f args => h.ofInto s (h.callInto s _ (gen_uses h f) (genAll_uses h args))

theorem genAll_uses (h : Closed P) : ∀ xs : List Expr, ∀ c ∈ genAll xs, c.Uses P
  | [], _, hc => absurd hc List.not_mem_nil
  | x :: xs, c, hc => by
    rw [genAll, List.mem_cons] at hc
    rcases hc with rfl | hc
    · exact gen_uses h x
    · exact genAll_uses h xs c hc

theorem genPairs_uses (h : Closed P) :
    ∀ ps : List (Expr × Expr), ∀ p ∈ genPairs ps, p.1.Uses P ∧ p.2.Uses P
  | [], _, hp => absurd hp List.not_mem_nil
  | (k, v) :: rest, p, hp => by
    rw [genPairs, List.mem_cons] at hp
    rcases hp with rfl | hp
    · exact ⟨gen_uses h k, gen_uses h v⟩
    · exact genPairs_uses h rest p hp

end

/-! ## Pieces of statements -/

theorem store (target : Expr) (src : Nat) (s : Span) : P (Compiler.store target src s) := by
  unfold Compiler.store
  split
  · refine h.bind (h.targetOf _ s) fun v => h.ite (fun _ => ?_) fun _ => ?_
    · dsimp only
      exact h.ite (fun _ => h.bind (h.loadK _ _ s) fun _ => h.notifyAssign s _ _ _)
        fun _ => h.when_bind (h.emitABC _ _ _ _ s) (h.notifyAssign s _ _ _)
    · exact h.bind (h.inRegister src s) fun _ =>
        h.bind (h.emitABx _ _ _ s) fun _ => h.notifyAssign s _ _ _
  · rename_i container key
    refine h.inScope (h.bind (h.register (h.gen_uses container)) fun _ =>
      h.bind (h.gen_uses key).operand fun _ => h.bind (h.emitABC _ _ _ _ s) fun _ => ?_)
    exact h.listening_bind .subscriptAssignment fun _ => h.ite
      (fun _ => h.bind (h.storageOf _) fun _ =>
        h.notify_kind (k := .subscriptAssignment) rfl (by decide))
      fun _ => h.pure ()
  · exact h.errorAt _ _ _

theorem assignSingle (target value : Expr) (s : Span) :
    P (Compiler.assignSingle target value s) := by
  unfold Compiler.assignSingle
  split
  · exact h.bind (h.targetOf _ s) fun _ => h.ite
      (fun _ => h.bind ((h.gen_uses value).into _) fun _ => h.notifyAssign s _ _ _)
      fun _ => h.bind (h.gen_uses value).operand fun x => h.store _ x s
  · exact h.bind (h.gen_uses value).operand fun x => h.store _ x s
  · exact h.errorAt _ _ _

theorem assign (s : Span) (targets values : List Expr) : P (Compiler.assign s targets values) := by
  unfold Compiler.assign
  refine h.inScope ?_
  split
  · exact h.assignSingle _ _ s
  refine h.ite (fun _ => ?_) fun _ => h.ite (fun _ => ?_) fun _ =>
    h.ite (fun _ => ?_) fun _ => h.errorAt _ _ _
  · -- several values packed into one tuple
    exact h.bind h.temp fun t => h.bind (h.sequenceInto _ (h.genAll_uses values) t s) fun _ =>
      h.store _ t s
  · -- one value read element by element
    refine h.bind h.temp fun src => h.bind ((h.gen_uses _).into src) fun _ =>
      h.forM fun p _ => ?_
    exact h.inScope (h.bind h.temp fun elem => h.bind (h.numberId _) fun z =>
      h.bind (h.rk z s) fun _ => h.bind (h.emitABC _ _ _ _ s) fun _ => h.store _ elem s)
  · -- pairwise, all values first
    exact h.bind (h.temps _) fun base =>
      h.bind (h.forM fun p _ => h.inScope ((h.gen_uses _).into _)) fun _ =>
        h.forM fun q _ => h.store _ _ s

theorem returnStmt (s : Span) (values : List Expr) : P (Compiler.returnStmt s values) := by
  unfold Compiler.returnStmt
  refine h.bind h.inFunction fun _ =>
    h.ite (fun _ => h.errorAt _ _ _) fun _ => h.inScope ?_
  split
  · exact h.emitABC _ _ _ _ s
  · exact h.bind (h.register (h.gen_uses _)) fun _ => h.emitABC _ _ _ _ s
  · exact h.bind h.temp fun t => h.bind (h.sequenceInto _ (h.genAll_uses values) t s)
      fun _ => h.emitABC _ _ _ _ s

theorem tagExit (s : Span) (tags : List Tag) : P (Compiler.tagExit s tags) := by
  unfold Compiler.tagExit
  refine h.listening_bind .vtagExited fun _ =>
    h.ite (fun _ => h.inScope ?_) fun _ => h.pure ()
  exact h.bind (h.mapM fun a _ => h.bind h.temp fun r =>
    h.bind (h.inScope ((h.gen_uses _).into r)) fun _ => h.pure r) fun _ =>
      h.notify_kind (k := .vtagExited) rfl (by decide)

theorem declareLocals (params : List String) (body : Stmt) :
    P (Compiler.declareLocals params body) := by
  unfold Compiler.declareLocals
  exact h.bind (h.forM fun p _ => h.bind (h.define p) fun _ => h.pure _) fun _ =>
    h.forM fun name _ => h.ite (fun _ => h.bind (h.define name) fun _ => h.pure _)
      fun _ => h.pure _

theorem bindFunction (s : Span) (name : String) (idx : Nat) :
    P (Compiler.bindFunction s name idx) := by
  unfold Compiler.bindFunction
  exact h.inScope (h.bind (h.targetOf name s) fun _ =>
    h.ite (fun _ => h.emitABx _ _ _ s) fun _ =>
      h.bind h.temp fun _ => h.bind (h.emitABx _ _ _ s) fun _ => h.emitABx _ _ _ s)

/-! ## Closed properties together -/

omit h in
theorem and {Q : ∀ {α : Type}, GenM α → Prop} (hP : Closed P) (hQ : Closed Q) :
    Closed (fun act => P act ∧ Q act) where
  bind hx hf := ⟨hP.bind hx.1 fun a => (hf a).1, hQ.bind hx.2 fun a => (hf a).2⟩
  pure a := ⟨hP.pure a, hQ.pure a⟩
  throw e := ⟨hP.throw e, hQ.throw e⟩
  listening k := ⟨hP.listening k, hQ.listening k⟩
  emit i s := ⟨hP.emit i s, hQ.emit i s⟩
  openJump op a s := ⟨hP.openJump op a s, hQ.openJump op a s⟩
  patch pcs t := ⟨hP.patch pcs t, hQ.patch pcs t⟩
  notify hn := ⟨hP.notify hn, hQ.notify hn⟩
  chunk := ⟨hP.chunk, hQ.chunk⟩
  inFunction := ⟨hP.inFunction, hQ.inFunction⟩
  find name := ⟨hP.find name, hQ.find name⟩
  define name := ⟨hP.define name, hQ.define name⟩
  alloc := ⟨hP.alloc, hQ.alloc⟩
  temps n := ⟨hP.temps n, hQ.temps n⟩
  numberId x := ⟨hP.numberId x, hQ.numberId x⟩
  textId t := ⟨hP.textId t, hQ.textId t⟩
  report d := ⟨hP.report d, hQ.report d⟩
  beginScope := ⟨hP.beginScope, hQ.beginScope⟩
  endScope := ⟨hP.endScope, hQ.endScope⟩

omit h in
theorem all {ι : Type} {Q : ι → ∀ {α : Type}, GenM α → Prop} (hQ : ∀ i, Closed (Q i)) :
    Closed (fun act => ∀ i, Q i act) where
  bind hx hf := fun i => (hQ i).bind (hx i) fun a => hf a i
  pure a := fun i => (hQ i).pure a
  throw e := fun i => (hQ i).throw e
  listening k := fun i => (hQ i).listening k
  emit is s := fun i => (hQ i).emit is s
  openJump op a s := fun i => (hQ i).openJump op a s
  patch pcs t := fun i => (hQ i).patch pcs t
  notify hn := fun i => (hQ i).notify hn
  chunk := fun i => (hQ i).chunk
  inFunction := fun i => (hQ i).inFunction
  find name := fun i => (hQ i).find name
  define name := fun i => (hQ i).define name
  alloc := fun i => (hQ i).alloc
  temps n := fun i => (hQ i).temps n
  numberId x := fun i => (hQ i).numberId x
  textId t := fun i => (hQ i).textId t
  report d := fun i => (hQ i).report d
  beginScope := fun i => (hQ i).beginScope
  endScope := fun i => (hQ i).endScope

end Closed

end Compiler

end ScriptMachine
