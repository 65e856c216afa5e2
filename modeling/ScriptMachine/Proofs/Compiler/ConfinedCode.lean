import ScriptMachine.Proofs.Compiler.Confinement
import ScriptMachine.Proofs.Compiler.Expressions
/-!
# Compiled expressions stay in their region

Every use of a compiled expression keeps to the contract of `Confinement`: compiled into a
register outside a set `R`, as an operand, or as a branch, the code it appends to a region
writes no register of `R` (the destination apart, when it lies outside `R`), keeps a run of the
frame inside the region, and leaves waiting only the jumps it returns. The registers it takes
for intermediate values are the free ones, above the next free register it started from.

The contract of each builder is assembled from those of its parts, and `gen_confined` follows
by induction on expressions.
-/

namespace ScriptMachine.Compiler

open Bytecode

/-- The three uses of a compiled expression each stay in their region and spare `R`: its value
compiled into a register outside `R`, as an operand, and as a branch, whose jumps are left
waiting. -/
structure Code.Confined (o : Options) (c : Code) : Prop where
  into : ∀ {R lo K n} dst, Confines o R lo K (fun f => n ≤ f.next ∧ ¬R dst ∧ dst < 256)
    (c.into dst) (fun _ => K) fun _ f => n ≤ f.next
  operand : ∀ {R lo K n}, Confines o R lo K (fun f => n ≤ f.next) c.operand (fun _ => K)
    fun _ f => n ≤ f.next
  branch : ∀ {R lo K n} sense, Confines o R lo K (fun f => n ≤ f.next) (c.branch sense)
    (fun js => K ++ js) fun _ f => n ≤ f.next

namespace Confines

open Syntax

variable {o : Options} {R : Nat → Prop} {lo : Nat} {K : List Nat} {n : Nat}

theorem spares_dst {op : Op} (hne : op ≠ .loadNil ∧ op ≠ .forPrep ∧ op ≠ .forLoop)
    {dst : Nat}
    (hd : ¬R dst) (hdl : dst < 256) (b c : Nat) : (Instruction.abc op.code dst b c).Spares R :=
  Instruction.spares_abc op hdl b c hne fun _ => hd

theorem emitDst {op : Op} (hne : op ≠ .loadNil ∧ op ≠ .forPrep ∧ op ≠ .forLoop)
    (htest : op.isTest = false) (hjump : op.isJump = false) (hbool : op ≠ .loadBool)
    (dst b c : Nat) (s : Span) :
    Confines o R lo K (fun f => n ≤ f.next ∧ ¬R dst ∧ dst < 256)
      (Compiler.emitABC op dst b c s)
      (fun _ => K) fun _ f => n ≤ f.next :=
  pre (fun _ ⟨hn, hd, hdl⟩ => ⟨hn, spares_dst hne hd hdl b c⟩)
    (emitABC (Instruction.plain_abc htest hjump hbool _ _ _) s)

theorem tempInto {β : Type} {g : Nat → GenM β}
    (h : ∀ {n} t, Confines o R lo K (fun f => n ≤ f.next ∧ ¬R t ∧ t < 256) (g t)
      (fun _ => K) fun _ f => n ≤ f.next) :
    Confines o R lo K (fun f => n ≤ f.next) (Compiler.temp >>= g) (fun _ => K)
      fun _ f => n ≤ f.next := by
  refine temp.bind fun t => (h (n := n) t).pre fun f hf => ?_
  obtain ⟨ht, hn, hfree, hlt⟩ := hf
  refine ⟨by omega, hfree t (Nat.le_refl _), ?_⟩
  simp only [registerLimit] at hlt
  omega

theorem freshWith {into : Nat → GenM Unit}
    (h : ∀ {n} dst, Confines o R lo K (fun f => n ≤ f.next ∧ ¬R dst ∧ dst < 256) (into dst)
      (fun _ => K) fun _ f => n ≤ f.next) :
    Confines o R lo K (fun f => n ≤ f.next) (Compiler.freshWith into) (fun _ => K)
      fun _ f => n ≤ f.next := by
  exact tempInto fun t => (h t).bind fun _ => pure rfl fun _ h => h

theorem registerOf (s : Span) {operand : GenM Nat}
    (h : ∀ {n}, Confines o R lo K (fun f => n ≤ f.next) operand (fun _ => K)
      fun _ f => n ≤ f.next) :
    Confines o R lo K (fun f => n ≤ f.next) (Compiler.registerOf s operand) (fun _ => K)
      fun x f => n ≤ f.next ∧ x < registerLimit :=
  h.bind fun x => inRegister x s

theorem testBranch (s : Span) {operand : GenM Nat}
    (h : ∀ {n}, Confines o R lo K (fun f => n ≤ f.next) operand (fun _ => K)
      fun _ f => n ≤ f.next) (sense : Bool) :
    Confines o R lo K (fun f => n ≤ f.next) (Compiler.testBranch s operand sense)
      (fun js => K ++ js) fun _ f => n ≤ f.next := by
  refine inScope_of ((registerOf s h).bind fun r => ?_)
  exact pre (fun _ hr => ⟨hr.1, Instruction.spares_nostore (Instruction.op?_abc .test r _ 0)
    (by decide) rfl⟩) (testJump_bind rfl s s fun j => pure rfl fun _ _ => trivial)

theorem readInto (s : Span) (name : String) (dst : Nat) :
    Confines o R lo K (fun f => n ≤ f.next ∧ ¬R dst ∧ dst < 256)
      (Compiler.readInto s name dst)
      (fun _ => K) fun _ f => n ≤ f.next := by
  unfold Compiler.readInto
  refine (and_pure (find name)).bind fun v => ?_
  split
  · refine ite (fun _ => ?_) fun _ => pure rfl fun _ h => h.1.1
    exact pre (fun _ ⟨⟨hn, _⟩, hd⟩ => ⟨hn, hd⟩)
      (emitDst (by decide) rfl rfl (by decide) _ _ _ s)
  · exact pre (fun _ ⟨⟨hn, _⟩, hd⟩ => ⟨hn, hd⟩)
      (emitDst (by decide) rfl rfl (by decide) _ _ _ s)
  · exact pre (fun _ ⟨⟨hn, _⟩, hd, hdl⟩ => ⟨hn, Instruction.spares_abx .getGlobal hdl _
      (by decide) fun _ => hd⟩)
      (emitABx (Instruction.plain_of_op (Instruction.op?_abx .getGlobal dst _) rfl rfl nofun) s)

theorem arith_plain {op : Int} {opc : Op} (h : arithOpcode? op = some opc) :
    (opc ≠ .loadNil ∧ opc ≠ .forPrep ∧ opc ≠ .forLoop) ∧ opc.isTest = false ∧
      opc.isJump = false ∧ opc ≠ .loadBool := by
  unfold arithOpcode? at h
  split at h <;> cases h <;> decide

theorem compare_nostore {op : Int} {opc : Op} {check : Bool}
    (h : compareOpcode? op = some (opc, check)) :
    (opc ≠ .loadNil ∧ opc ≠ .forPrep ∧ opc ≠ .forLoop) ∧ opc.storesA = false ∧
      opc.isJump = false := by
  unfold compareOpcode? at h
  split at h <;> cases h <;> decide

theorem moveInto (out dst : Nat) (s : Span) :
    Confines o R lo K (fun f => n ≤ f.next ∧ ¬R dst ∧ dst < 256)
      (if (out != dst) = true then Compiler.emitABC .move dst out 0 s else Pure.pure ())
      (fun _ => K) fun _ f => n ≤ f.next :=
  ite (fun _ => emitDst (by decide) rfl rfl (by decide) dst out 0 s) fun _ =>
    pure rfl fun _ h => h.1

theorem resultTemp (dst : Nat) :
    Confines o R lo K (fun f => n ≤ f.next ∧ ¬R dst ∧ dst < 256) Compiler.temp (fun _ => K)
      fun out f => n ≤ f.next ∧ (¬R out ∧ out < 256) ∧ ¬R dst ∧ dst < 256 := by
  refine (and_pure (c := ¬R dst ∧ dst < 256) temp).post ?_
  intro t f ⟨⟨ht, hn, hfree, hlt⟩, hd⟩
  refine ⟨by omega, ⟨hfree t (Nat.le_refl _), ?_⟩, hd⟩
  simp only [registerLimit] at hlt
  omega

theorem resultDst (dst : Nat) :
    Confines o R lo K (fun f => n ≤ f.next ∧ ¬R dst ∧ dst < 256) (Pure.pure dst) (fun _ => K)
      fun out f => n ≤ f.next ∧ (¬R out ∧ out < 256) ∧ ¬R dst ∧ dst < 256 :=
  pure rfl fun _ ⟨hn, hd⟩ => ⟨hn, hd, hd⟩

theorem emitResult {op : Op} (hne : op ≠ .loadNil ∧ op ≠ .forPrep ∧ op ≠ .forLoop)
    (htest : op.isTest = false) (hjump : op.isJump = false) (hbool : op ≠ .loadBool)
    (out dst b c : Nat) (s : Span) :
    Confines o R lo K (fun f => n ≤ f.next ∧ (¬R out ∧ out < 256) ∧ ¬R dst ∧ dst < 256)
      (Compiler.emitABC op out b c s) (fun _ => K)
      fun _ f => n ≤ f.next ∧ ¬R dst ∧ dst < 256 :=
  (and_pure (emitDst hne htest hjump hbool out b c s)).pre
    fun _ ⟨hn, ho, hd⟩ => ⟨⟨hn, ho⟩, hd⟩

theorem binaryInto (s : Span) (op : Int) (leftName rightName : String) {left right : Code}
    (hl : left.Confined o) (hr : right.Confined o) (dst : Nat) :
    Confines o R lo K (fun f => n ≤ f.next ∧ ¬R dst ∧ dst < 256)
      ((binaryCode s op leftName rightName left right).into dst) (fun _ => K)
      fun _ f => n ≤ f.next := by
  dsimp only [binaryCode, Code.ofInto]
  split
  · exact throw
  · rename_i opc hopc
    obtain ⟨hne, htest, hjump, hbool⟩ := arith_plain hopc
    refine (inScope_and ((and_pure hl.operand).bind fun l => (and_pure hr.operand).bind fun r =>
      listening_bind .binary fun _ => ite (fun _ => ?_) fun _ => ?_)).post fun _ _ h => h.1
    · exact (emitDst hne htest hjump hbool dst l r s).post fun _ _ _ => trivial
    · -- the result goes through a register distinct from both operands
      refine ite_bind (fun _ => resultTemp dst) (fun _ => resultDst dst) fun out => ?_
      refine (emitResult hne htest hjump hbool out dst l r s).bind fun _ =>
        (and_pure (notify _)).bind fun _ => ?_
      exact (moveInto out dst s).post fun _ _ _ => trivial

theorem observedMove (b : Bool) (nt : Notification) (out dst : Nat) (s : Span) :
    Confines o R lo K (fun f => n ≤ f.next ∧ ¬R dst ∧ dst < 256)
      (if b = true then (do Compiler.notify nt; (if (out != dst) = true then
        Compiler.emitABC .move dst out 0 s else Pure.pure ()))
      else if (out != dst) = true then Compiler.emitABC .move dst out 0 s else Pure.pure ())
      (fun _ => K) fun _ _ => True :=
  when_bind (fun _ => and_pure (notify nt)) ((moveInto out dst s).post fun _ _ _ => trivial)

theorem unaryInto (s : Span) (op : Int) (operandName : String) {operand : Code}
    (h : operand.Confined o) (dst : Nat) :
    Confines o R lo K (fun f => n ≤ f.next ∧ ¬R dst ∧ dst < 256)
      (Compiler.unaryInto s op operandName operand dst) (fun _ => K) fun _ f => n ≤ f.next := by
  unfold Compiler.unaryInto
  refine (inScope_and ((and_pure h.operand).bind fun x => listening_bind .unary fun b => ?_)).post
    fun _ _ h => h.1
  dsimp only
  refine ite_bind (fun _ => resultTemp dst) (fun _ => resultDst dst) fun out => ?_
  split
  · refine (and_pure (numberId 0)).bind fun z => (and_pure (rk z s)).bind fun zid => ?_
    exact (emitResult (by decide) rfl rfl (by decide) out dst zid x s).bind fun _ =>
      observedMove b _ out dst s
  · exact (emitResult (by decide) rfl rfl (by decide) out dst x 0 s).bind fun _ =>
      observedMove b _ out dst s
  · exact (emitResult (by decide) rfl rfl (by decide) out dst x 0 s).bind fun _ =>
      observedMove b _ out dst s
  · exact throw_bind

theorem indexInto (s : Span) {container key : Code} (hc : container.Confined o)
    (hk : key.Confined o) (dst : Nat) :
    Confines o R lo K (fun f => n ≤ f.next ∧ ¬R dst ∧ dst < 256)
      ((indexCode s container key).into dst) (fun _ => K) fun _ f => n ≤ f.next := by
  refine (inScope_and ((and_pure (registerOf container.span hc.operand)).bind fun c => ?_)).post
    fun _ _ h => h.1
  refine (pre (fun _ ⟨⟨hn, _⟩, hd⟩ => ⟨hn, hd⟩) (and_pure hk.operand)).bind fun k => ?_
  exact (emitDst (by decide) rfl rfl (by decide) dst c k s).post fun _ _ _ => trivial

theorem choose_bind {β : Type} {c d : Prop} [Decidable c] [Decidable d] {a b : α} {e : Fault}
    {g : α → GenM β} {J : β → List Nat} {Q : β → Frame → Prop}
    (hg : ∀ x, Confines o R lo K P (g x) J Q) :
    Confines o R lo K P (if c then Pure.pure a >>= g else if d then Pure.pure b >>= g
      else (MonadExcept.throw e : GenM α) >>= g) J Q :=
  ite (fun _ => (pure (J := fun _ => K) (Q := fun _ => P) rfl fun _ h => h).bind hg) fun _ =>
    ite_bind (fun _ => pure (J := fun _ => K) (Q := fun _ => P) rfl fun _ h => h)
      (fun _ => throw) hg

theorem logicInto (s : Span) (op : Int) {operands : List Code}
    (h : ∀ x ∈ operands, x.Confined o) (dst : Nat) :
    Confines o R lo K (fun f => n ≤ f.next ∧ ¬R dst ∧ dst < 256)
      (Compiler.logicInto s op operands dst) (fun _ => K) fun _ f => n ≤ f.next := by
  unfold Compiler.logicInto
  refine choose_bind fun sense => ?_
  dsimp only
  refine when_bind (fun _ => throw)
    ((inScope_and ((resultTemp dst).bind fun t => ?_)).post fun _ _ h => h.1)
  -- every operand goes into `t`; the jumps of all but the last wait until the end
  refine (from_eq (by simp) (foldlM (W := fun done => K ++ done)
    (I := fun _ f => n ≤ f.next ∧ (¬R t ∧ t < 256) ∧ ¬R dst ∧ dst < 256)
    fun done p hp => ?_)).bind fun done => ?_
  · obtain ⟨x, i⟩ := p
    have hx := h x (List.fst_mem_of_mem_zipIdx hp)
    refine (inScope_and ((hx.into t).pre (fun _ h => ⟨h.1, h.2.1⟩) |>.post
      fun _ _ _ => trivial)).bind fun _ => ite (fun _ => ?_) fun _ => pure rfl fun _ h => h
    refine (and_pure (testJump_bind (Q := fun _ f => n ≤ f.next) rfl x.span x.span
      fun j => pure (by simp) fun _ h => h.1)).pre fun _ h => ⟨⟨h.1, ?_⟩, h.2⟩
    exact Instruction.spares_nostore (Instruction.op?_abc .test t _ 0) (by decide) rfl
  · refine (and_pure (patchHere (fun pc hpc => List.mem_append_right _ hpc)
      (fun j hj => List.mem_append_left _ hj) fun j hj hnot => ?_)).bind fun _ => ?_
    · rcases List.mem_append.1 hj with hj | hj
      · exact hj
      · exact absurd hj hnot
    · exact (moveInto t dst s).pre (fun _ h => ⟨h.1, h.2.2⟩) |>.post fun _ _ _ => trivial

theorem patchPast (fall out : List Nat) :
    Confines o R lo (K ++ fall ++ out) (fun f => n ≤ f.next) (Compiler.patchHere fall)
      (fun _ => K ++ out) fun _ f => n ≤ f.next := by
  have hout : ∀ j ∈ K ++ out, j ∈ K ++ fall ++ out := fun j hj => by
    simp only [List.mem_append] at hj ⊢
    tauto
  refine patchHere (fun pc hpc => by simp [hpc]) hout fun j hj hnot => ?_
  simp only [List.mem_append] at hj ⊢
  tauto

theorem logicBranch (s : Span) (op : Int) {operands : List Code}
    (h : ∀ x ∈ operands, x.Confined o) (sense : Bool) :
    Confines o R lo K (fun f => n ≤ f.next) (Compiler.logicBranch s op operands sense)
      (fun js => K ++ js) fun _ f => n ≤ f.next := by
  unfold Compiler.logicBranch
  refine when_bind (fun _ => throw) (choose_bind fun decides => ?_)
  refine ite (fun _ => from_eq (by simp) (foldlM (W := fun out => K ++ out)
    (I := fun _ f => n ≤ f.next) fun out x hx => ?_)) fun _ => ?_
  · exact ((h x hx).branch sense).bind fun js => pure (by simp) fun _ h => h
  · -- the jumps past the chain, then those out of it
    refine (from_eq (by simp) (foldlM (W := fun acc : List Nat × List Nat => K ++ acc.1 ++ acc.2)
      (I := fun _ f => n ≤ f.next) fun acc p hp => ?_)).bind fun p => ?_
    · obtain ⟨x, i⟩ := p
      have hx := h x (List.fst_mem_of_mem_zipIdx hp)
      refine ite (fun _ => (hx.branch _).bind fun js => pure_perm (fun j => ?_) fun _ h => h)
        fun _ => (hx.branch _).bind fun js => pure (by simp) fun _ h => h
      simp only [List.mem_append]
      tauto
    · exact (patchPast p.1 p.2).bind fun _ => pure rfl fun _ h => h

theorem compareLink (s : Span) (sense : Bool) (last : Nat) (st : ChainState)
    {link : (Int × (Code × String)) × Nat} (h : link.1.2.1.Confined o) :
    Confines o R lo (K ++ st.fall ++ st.out) (fun f => n ≤ f.next)
      (Compiler.compareLink s sense last st link) (fun st' => K ++ st'.fall ++ st'.out)
      fun _ f => n ≤ f.next := by
  obtain ⟨⟨op, right, rightName⟩, i⟩ := link
  unfold Compiler.compareLink
  dsimp only
  split
  · rename_i p hop
    obtain ⟨opc, check⟩ := p
    obtain ⟨hne, hs, hjump⟩ := compare_nostore hop
    simp only [pure_bind]
    refine h.operand.bind fun r => listening_bind .comparison fun _ =>
      when_bind (fun _ => notify _) (ite (fun _ => ?_) fun _ => ?_)
    all_goals
      refine (testJump_bind hjump s s fun j => ?_).pre fun _ hn =>
        ⟨hn, Instruction.spares_nostore (Instruction.op?_abc opc _ _ _) hne hs⟩
    · exact pure (by simp) fun _ h => h.1
    · refine pure_perm (fun j' => ?_) fun _ h => h.1
      cases sense <;> simp only [Bool.false_eq_true, if_false, if_true, List.mem_append] <;> tauto
  · exact throw_bind

theorem compareBranch (s : Span) {first : Code} (firstName : String) (ops : List Int)
    {rest : List (Code × String)} (hf : first.Confined o) (hr : ∀ x ∈ rest, x.1.Confined o)
    (sense : Bool) :
    Confines o R lo K (fun f => n ≤ f.next)
      (Compiler.compareBranch s first firstName ops rest sense) (fun js => K ++ js)
      fun _ f => n ≤ f.next := by
  unfold Compiler.compareBranch
  refine when_bind (fun _ => throw) (inScope_of (hf.operand.bind fun l => ?_))
  refine (from_eq (by simp) (foldlM (W := fun st : ChainState => K ++ st.fall ++ st.out)
    (I := fun _ f => n ≤ f.next) fun st link hlink => ?_)).bind fun st => ?_
  · have hmem := List.of_mem_zip (List.fst_mem_of_mem_zipIdx hlink)
    exact compareLink s sense _ st (hr _ hmem.2)
  · exact (patchPast st.fall st.out).bind fun _ => pure rfl fun _ _ => trivial

theorem block (k : Nat) :
    Confines o R lo K (fun f => n ≤ f.next) (liftM (Resolver.temps k) : GenM Nat) (fun _ => K)
      fun base f => n ≤ f.next ∧ ∀ i < k, ¬R (base + i) ∧ base + i < 256 := by
  refine (zone_post (temps k)).post fun base f hf => ?_
  obtain ⟨⟨hn, hb⟩, hz⟩ := hf
  refine ⟨hn, fun i hi => ?_⟩
  obtain ⟨-, hnext, hfree⟩ := hb (by omega)
  have hle := hz.next_le
  simp only [registerLimit] at hle
  exact ⟨hfree _ (Nat.le_add_right _ _), by omega⟩

theorem intoSlot {x : Code} (hx : x.Confined o) {k i : Nat} (base : Nat) (hi : i < k) (c : Prop) :
    Confines o R lo K
      (fun f => (n ≤ f.next ∧ ∀ i < k, ¬R (base + i) ∧ base + i < 256) ∧ c)
      (Compiler.inScope (x.into (base + i))) (fun _ => K)
      fun _ f => (n ≤ f.next ∧ ∀ i < k, ¬R (base + i) ∧ base + i < 256) ∧ c := by
  refine (and_pure (c := c)
    (inScope_and (c := ∀ i < k, ¬R (base + i) ∧ base + i < 256) ?_)).pre
    fun _ hf => ⟨hf.1, hf.2⟩
  exact (hx.into (base + i)).pre (fun _ hf => ⟨hf.1, hf.2 i hi⟩) |>.post fun _ _ _ => trivial

theorem sequenceInto {op : Op} (hne : op ≠ .loadNil ∧ op ≠ .forPrep ∧ op ≠ .forLoop)
    (htest : op.isTest = false) (hjump : op.isJump = false) (hbool : op ≠ .loadBool)
    {items : List Code} (h : ∀ x ∈ items, x.Confined o) (dst : Nat) (s : Span) :
    Confines o R lo K (fun f => n ≤ f.next ∧ ¬R dst ∧ dst < 256)
      (Compiler.sequenceInto op items dst s) (fun _ => K) fun _ f => n ≤ f.next := by
  unfold Compiler.sequenceInto
  refine ite (fun _ => errorAt s _ _) fun _ => ?_
  refine (inScope_and ((and_pure (block items.length)).bind fun base => ?_)).post
    fun _ _ h => h.1
  refine (forM (I := fun f => (n ≤ f.next ∧ ∀ i < items.length, ¬R (base + i) ∧
    base + i < 256) ∧ ¬R dst ∧ dst < 256) fun p hp => ?_).bind fun _ => ?_
  · obtain ⟨x, i⟩ := p
    have hi : i < items.length := by simpa using List.snd_lt_of_mem_zipIdx hp
    exact intoSlot (h x (List.fst_mem_of_mem_zipIdx hp)) base hi _
  · exact (emitDst hne htest hjump hbool dst base items.length s).pre
      (fun _ hf => ⟨hf.1.1, hf.2⟩) |>.post fun _ _ _ => trivial

theorem dictInto (s : Span) {entries : List (Code × Code)}
    (h : ∀ e ∈ entries, e.1.Confined o ∧ e.2.Confined o) (dst : Nat) :
    Confines o R lo K (fun f => n ≤ f.next ∧ ¬R dst ∧ dst < 256)
      (Compiler.dictInto s entries dst) (fun _ => K) fun _ f => n ≤ f.next := by
  unfold Compiler.dictInto
  refine ite (fun _ => errorAt s _ _) fun _ => ?_
  refine (inScope_and ((and_pure (block (2 * entries.length))).bind fun base => ?_)).post
    fun _ _ h => h.1
  refine (forM (I := fun f => (n ≤ f.next ∧ ∀ i < 2 * entries.length, ¬R (base + i) ∧
    base + i < 256) ∧ ¬R dst ∧ dst < 256) fun p hp => ?_).bind fun _ => ?_
  · obtain ⟨⟨key, value⟩, i⟩ := p
    have hi : i < entries.length := by simpa using List.snd_lt_of_mem_zipIdx hp
    obtain ⟨hk, hv⟩ := h _ (List.fst_mem_of_mem_zipIdx hp)
    dsimp only
    rw [Nat.add_assoc]
    exact (intoSlot hk base (by omega) _).bind fun _ => intoSlot hv base (by omega) _
  · exact (emitDst (by decide) rfl rfl (by decide) dst base entries.length s).pre
      (fun _ hf => ⟨hf.1.1, hf.2⟩) |>.post fun _ _ _ => trivial

theorem capped_bind {β : Type} {c : Prop} [Decidable c] {g : α → GenM β} {J : β → List Nat}
    {Q : β → Frame → Prop} {s : Span} {m : Message} {args : List Text.Arg} {a b : α}
    (hg : ∀ x, Confines o R lo K P (g x) J Q) :
    Confines o R lo K P (if c then Compiler.errorAt s m args >>= fun _ => Pure.pure a >>= g
      else Pure.pure b >>= g) J Q :=
  ite (fun _ => errorAt_bind s m args ((pure (J := fun _ => K) (Q := fun _ => P) rfl
    fun _ h => h).bind hg)) fun _ => (pure (J := fun _ => K) (Q := fun _ => P) rfl
      fun _ h => h).bind hg

theorem callInto (s : Span) (name : String) {callee : Code} {args : List Code}
    (hc : callee.Confined o) (h : ∀ x ∈ args, x.Confined o) (dst : Nat) :
    Confines o R lo K (fun f => n ≤ f.next ∧ ¬R dst ∧ dst < 256)
      (Compiler.callInto s name callee args dst) (fun _ => K) fun _ f => n ≤ f.next := by
  unfold Compiler.callInto
  refine (inScope_and ((resultTemp dst).bind fun base => ?_)).post fun _ _ h => h.1
  -- `base` holds the function and then the result: it stays free and below the limit
  refine ((and_pure (c := (¬R base ∧ base < 256) ∧ ¬R dst ∧ dst < 256) (hc.into base)).pre
    fun _ hf => ⟨⟨hf.1, hf.2.1⟩, hf.2⟩).bind fun _ => ?_
  refine (forM fun arg harg => ?_).bind fun _ => ?_
  · refine ((and_pure (c := ¬R base ∧ base < 256) (resultTemp (n := n) dst)).pre
      fun _ hf => ⟨⟨hf.1, hf.2.2⟩, hf.2.1⟩).bind fun r => ?_
    exact (inScope_and
      (c := (¬R r ∧ r < 256) ∧ (¬R base ∧ base < 256) ∧ ¬R dst ∧ dst < 256)
      (((h arg harg).into r).pre (fun _ hf => ⟨hf.1, hf.2.1⟩)
        |>.post fun _ _ _ => trivial)).mono
      (fun _ hf => ⟨hf.1.1, hf.1.2.1, hf.2, hf.1.2.2⟩) fun _ _ hf => ⟨hf.1, hf.2.2⟩
  dsimp only
  refine capped_bind fun argc => ?_
  refine listening_bind .funcCalled fun _ => when_bind (fun _ => and_pure (notify _)) ?_
  refine ((and_pure (c := ¬R dst ∧ dst < 256) (emitDst (by decide) rfl rfl (by decide) base
    argc 0 s)).pre fun _ hf => ⟨⟨hf.1, hf.2.1⟩, hf.2.2⟩).bind fun _ => ?_
  refine listening_bind .funcReturned fun _ => when_bind (fun _ => and_pure (notify _)) ?_
  exact (moveInto base dst s).post fun _ _ _ => trivial

end Confines

section Builders

open Syntax

variable {o : Options}

theorem Code.ofInto_confined (s : Span) {into : Nat → GenM Unit}
    (h : ∀ {R lo K n} dst, Confines o R lo K (fun f => n ≤ f.next ∧ ¬R dst ∧ dst < 256)
      (into dst) (fun _ => K) fun _ f => n ≤ f.next) :
    (Code.ofInto s into).Confined o :=
  ⟨h, Confines.freshWith h, Confines.testBranch s (Confines.freshWith h)⟩

theorem Code.Confined.register {c : Code} (h : c.Confined o) {R : Nat → Prop} {lo : Nat}
    {K : List Nat} {n : Nat} :
    Confines o R lo K (fun f => n ≤ f.next) c.register (fun _ => K)
      fun x f => n ≤ f.next ∧ x < registerLimit :=
  Confines.registerOf c.span h.operand

theorem constantCode_confined (s : Span) {id : GenM Nat}
    (h : ∀ {R lo K n}, Confines o R lo K (fun f => n ≤ f.next) id (fun _ => K)
      fun _ f => n ≤ f.next) :
    (constantCode s id).Confined o := by
  have hop : ∀ {R lo K n}, Confines o R lo K (fun f => n ≤ f.next) (constantCode s id).operand
      (fun _ => K) fun _ f => n ≤ f.next := h.bind fun x => Confines.rk x s
  exact ⟨fun dst => (Confines.and_pure h).bind fun x => Confines.loadK dst x s,
    hop, Confines.testBranch s hop⟩

theorem nilCode_confined (s : Span) : (nilCode s).Confined o :=
  Code.ofInto_confined s fun dst => Confines.pre (fun _ ⟨hn, hd, hdl⟩ => ⟨hn,
    Instruction.spares_loadNil (Instruction.op?_abc .loadNil dst 1 0)
      (Instruction.b_abc_of_lt (by decide) _ _ _) (by rwa [Instruction.a_abc_of_lt hdl])⟩)
    (Confines.emitABC (Instruction.plain_abc rfl rfl (by decide) _ _ _) s)

theorem boolCode_confined (s : Span) (b : Bool) : (boolCode s b).Confined o := by
  have hbase :
      (Code.ofInto s fun dst => emitABC .loadBool dst (if b then 1 else 0) 0 s).Confined o :=
    Code.ofInto_confined s fun dst => Confines.pre (fun _ ⟨hn, hd, hdl⟩ =>
      ⟨hn, Confines.spares_dst (by decide) hd hdl _ _⟩)
      (Confines.emitABC (Instruction.plain_of_op (Instruction.op?_abc _ _ _ _) rfl rfl
        fun _ => Instruction.c_abc_of_lt (by decide) _ _ _) s)
  refine ⟨hbase.into, hbase.operand, fun sense => Confines.ite (fun _ => ?_) fun _ =>
    Confines.pure (by simp) fun _ hn => hn⟩
  exact (Confines.jump s).bind fun j => Confines.pure rfl fun _ h => h.1

theorem identCode_confined (s : Span) (name : String) : (identCode s name).Confined o := by
  have hop : ∀ {R lo K n}, Confines o R lo K (fun f => n ≤ f.next) (identCode s name).operand
      (fun _ => K) fun _ f => n ≤ f.next :=
    (Confines.find name).bind fun _ => Confines.ite (fun _ => Confines.pure rfl fun _ h => h.1)
      fun _ => Confines.pre (fun _ h => h.1) (Confines.freshWith (Confines.readInto s name))
  exact ⟨Confines.readInto s name, hop, Confines.testBranch s hop⟩

theorem logicCode_confined (s : Span) (op : Int) {operands : List Code}
    (h : ∀ x ∈ operands, x.Confined o) : (logicCode s op operands).Confined o := by
  have hbase := Code.ofInto_confined s (o := o) fun dst => Confines.logicInto s op h dst
  exact ⟨hbase.into, hbase.operand, Confines.logicBranch s op h⟩

theorem compareCode_confined (s : Span) {first : Code} (firstName : String) (ops : List Int)
    {rest : List (Code × String)} (hf : first.Confined o) (hr : ∀ x ∈ rest, x.1.Confined o) :
    (compareCode s first firstName ops rest).Confined o := by
  have hbase := Code.ofInto_confined s (o := o) fun dst =>
    (Confines.and_pure (Confines.compareBranch s firstName ops hf hr false)).bind
      fun _ => Confines.boolBySkip dst s
  exact ⟨hbase.into, hbase.operand, Confines.compareBranch s firstName ops hf hr⟩

theorem binaryCode_confined (s : Span) (op : Int) (leftName rightName : String)
    {left right : Code} (hl : left.Confined o) (hr : right.Confined o) :
    (binaryCode s op leftName rightName left right).Confined o :=
  Code.ofInto_confined s fun dst => Confines.binaryInto s op leftName rightName hl hr dst

theorem unaryCode_confined (s : Span) (op : Int) (operandName : String) {operand : Code}
    (h : operand.Confined o) : (unaryCode s op operandName operand).Confined o := by
  have hbase := Code.ofInto_confined s (o := o) fun dst => Confines.unaryInto s op operandName h dst
  refine ⟨hbase.into, hbase.operand, fun sense => ?_⟩
  exact Confines.listening_bind .unary fun _ =>
    Confines.ite (fun _ => h.branch _) fun _ => hbase.branch sense

theorem indexCode_confined (s : Span) {container key : Code} (hc : container.Confined o)
    (hk : key.Confined o) : (indexCode s container key).Confined o :=
  Code.ofInto_confined s fun dst => Confines.indexInto s hc hk dst

mutual

/-- The code of every expression is confined: compiled into a register, as an operand or as a
branch, it writes no register of the set it is given and its jumps stay in its region. The
induction follows the expression, with the lists of operands and of dict entries alongside. -/
theorem gen_confined : ∀ e : Expr, (gen e).Confined o
  | .nil s => nilCode_confined s
  | .bool s b => boolCode_confined s b
  | .num s x => constantCode_confined s (Confines.numberId x)
  | .str s t => constantCode_confined s (Confines.textId t)
  | .ident s name => identCode_confined s name
  | .binary s op l r => binaryCode_confined s op _ _ (gen_confined l) (gen_confined r)
  | .unary s op x => unaryCode_confined s op _ (gen_confined x)
  | .logic s op xs => logicCode_confined s op (genAll_confined xs)
  | .compare s first ops rest => compareCode_confined s _ ops (gen_confined first)
      fun p hp => genAll_confined rest p.1 (List.of_mem_zip hp).1
  | .list s xs => Code.ofInto_confined s fun dst =>
      Confines.sequenceInto (by decide) rfl rfl (by decide) (genAll_confined xs) dst s
  | .tuple s xs => Code.ofInto_confined s fun dst =>
      Confines.sequenceInto (by decide) rfl rfl (by decide) (genAll_confined xs) dst s
  | .dict s entries => Code.ofInto_confined s fun dst =>
      Confines.dictInto s (genPairs_confined entries) dst
  | .index s c k => indexCode_confined s (gen_confined c) (gen_confined k)
  | .call s f args => Code.ofInto_confined s fun dst =>
      Confines.callInto s _ (gen_confined f) (genAll_confined args) dst

theorem genAll_confined : ∀ xs : List Expr, ∀ x ∈ genAll xs, x.Confined o
  | [], _, hx => by simp [genAll] at hx
  | e :: es, x, hx => by
    simp only [genAll, List.mem_cons] at hx
    rcases hx with rfl | hx
    · exact gen_confined e
    · exact genAll_confined es x hx

theorem genPairs_confined :
    ∀ ps : List (Expr × Expr), ∀ e ∈ genPairs ps, e.1.Confined o ∧ e.2.Confined o
  | [], _, hx => by simp [genPairs] at hx
  | (k, v) :: rest, e, hx => by
    simp only [genPairs, List.mem_cons] at hx
    rcases hx with rfl | hx
    · exact ⟨gen_confined k, gen_confined v⟩
    · exact genPairs_confined rest e hx

end

end Builders

namespace Confines

variable {o : Options} {R : Nat → Prop} {lo : Nat} {K : List Nat} {n : Nat}

theorem evalStmt (e : Syntax.Expr) :
    Confines o R lo K (fun f => n ≤ f.next) (Compiler.evalStmt e) (fun _ => K)
      fun _ f => n ≤ f.next := by
  unfold Compiler.evalStmt
  refine inScope_of (read ((inFunction.post fun _ _ h => h.1).bind fun _ =>
    ite (fun _ => ?_) fun _ => ?_))
  · refine (tempInto fun t => callInto _ _ (gen_confined _) (fun x hx => ?_) t).post
      fun _ _ _ => trivial
    rw [List.mem_singleton.1 hx]
    exact gen_confined e
  · exact (tempInto fun t => (gen_confined e).into t).post fun _ _ _ => trivial

theorem emitRet (a b : Nat) (s : Span) :
    Confines o R lo K (fun f => n ≤ f.next) (Compiler.emitABC .ret a b 0 s) (fun _ => K)
      fun _ f => n ≤ f.next :=
  (emitABC (Instruction.plain_abc rfl rfl (by decide) _ _ _) s).pre fun _ hn =>
    ⟨hn, Instruction.spares_nostore (Instruction.op?_abc .ret _ _ _) (by decide) rfl⟩

theorem returnStmt (s : Span) (values : List Syntax.Expr) :
    Confines o R lo K (fun f => n ≤ f.next) (Compiler.returnStmt s values) (fun _ => K)
      fun _ f => n ≤ f.next := by
  unfold Compiler.returnStmt
  refine (inFunction.post fun _ _ h => h.1).bind fun _ =>
    ite (fun _ => errorAt s _ _) fun _ => inScope_of ?_
  split
  · exact (emitRet 0 0 s).post fun _ _ _ => trivial
  · exact (gen_confined _).register.bind fun r =>
      ((emitRet r 1 s).pre fun _ h => h.1).post fun _ _ _ => trivial
  · refine (tempInto fun t => ?_).post fun _ _ _ => trivial
    exact (sequenceInto (by decide) rfl rfl (by decide) (genAll_confined _) t s).bind
      fun _ => emitRet t 1 s

theorem store (target : Syntax.Expr) (src : Nat) (s : Span) :
    Confines o R lo K (fun f => n ≤ f.next ∧ f.NamesSpare R) (Compiler.store target src s)
      (fun _ => K) fun _ f => n ≤ f.next ∧ f.NamesSpare R := by
  unfold Compiler.store
  split
  · rename_i name
    refine (targetOf name s).bind fun v => ?_
    refine (names (P := fun f => n ≤ f.next ∧
      (v.place = .register → ¬R v.index ∧ v.index < registerLimit))
      (Q := fun _ f => n ≤ f.next) ?_).pre fun f hf => ⟨⟨hf.1, hf.2.2⟩, hf.2.1⟩
    dsimp only
    split
    · -- the variable's own register, from a constant, a move or in place
      rename_i hreg
      have hv : v.place = .register := by simpa using hreg
      have hdst : ∀ f : Frame, (n ≤ f.next ∧
          (v.place = .register → ¬R v.index ∧ v.index < registerLimit)) →
          n ≤ f.next ∧ ¬R v.index ∧ v.index < 256 := fun f hf => by
        obtain ⟨hn, hr, hlt⟩ := And.intro hf.1 (hf.2 hv)
        simp only [registerLimit] at hlt
        exact ⟨hn, hr, by omega⟩
      refine ite (fun _ => ?_) fun _ => ite (fun _ => ?_) fun _ => ?_
      · exact ((loadK _ _ s).pre hdst).bind fun _ => notifyAssign s name 1 v.index
      · exact ((emitDst (by decide) rfl rfl (by decide) _ _ _ s).pre hdst).bind
          fun _ => notifyAssign s name 1 v.index
      · exact (notifyAssign s name 1 v.index).pre fun _ hf => hf.1
    · -- a global slot, from a register
      refine ((inRegister src s).pre fun _ hf => hf.1).bind fun r => ?_
      refine ((emitABx (Instruction.plain_of_op (Instruction.op?_abx .setGlobal r _) rfl rfl
        fun h => by cases h) s).pre fun _ hf => ⟨hf.1, ?_⟩).bind
        fun _ => notifyAssign s name 0 r
      have hlt := hf.2
      simp only [registerLimit] at hlt
      exact Instruction.spares_abx .setGlobal (by omega) _ (by decide) fun h => by cases h
  · -- an element: the container in a register, the key as an operand
    refine names (inScope_of ?_)
    dsimp only
    refine (gen_confined _).register.bind fun c =>
      ((gen_confined _).operand.pre fun _ hf => hf.1).bind fun k => ?_
    refine ((emitABC (Instruction.plain_abc rfl rfl (by decide) _ _ _) s).pre fun _ hf =>
      ⟨hf, Instruction.spares_nostore (Instruction.op?_abc .setElem _ _ _) (by decide) rfl⟩)
      |>.bind fun _ => listening_bind .subscriptAssignment fun _ => ite (fun _ => ?_) fun _ => ?_
    · exact (storageOf _).bind fun _ => (notify _).post fun _ _ _ => trivial
    · exact pure rfl fun _ _ => trivial
  · exact errorAt _ _ _

end Confines

/-- The register discipline of an expression compiled into a destination below the next free
register `n`: the compiler's mark comes back to where it was, and the code appended writes no
register other than the destination and registers from `n` on, keeps a run inside the code it
appends and leaves no jump waiting. -/
theorem exprInto_register_discipline (o : Options) (e : Syntax.Expr) {dst n : Nat}
    (hdst : dst < n) (hn : n ≤ registerLimit) :
    (∀ g (m : Mark) ms, Triple o (fun r => m.IsReg dst ∧ At g (m :: ms) r 0)
        ((gen e).into dst) (fun _ r => At g (m :: ms) r 0)) ∧
    ∀ lo K, Confines o (fun reg => reg < n ∧ reg ≠ dst) lo K (fun f => f.next = n)
        ((gen e).into dst) (fun _ => K) fun _ f => n ≤ f.next := by
  refine ⟨fun g m ms => (gen_sound e).into g m ms dst, fun lo K => ?_⟩
  have hfits : dst < 256 := by
    simp only [registerLimit] at hn
    omega
  exact ((gen_confined e).into dst).pre fun f hf => ⟨Nat.le_of_eq hf.symm, fun h => h.2 rfl, hfits⟩

/-- A call whose arguments are a variable and a sum, compiled into register 2 under a mark of 5. -/
theorem exprInto_register_discipline_call :
    let e : Syntax.Expr := .call Span.empty (.ident Span.empty "f")
      [.ident Span.empty "x", .binary Span.empty 0 (.ident Span.empty "y") (.num Span.empty 1)]
    2 < 5 ∧ 5 ≤ registerLimit ∧
    (∀ g (m : Mark) ms, Triple {} (fun r => m.IsReg 2 ∧ At g (m :: ms) r 0)
        ((gen e).into 2) (fun _ r => At g (m :: ms) r 0)) ∧
    ∀ lo K, Confines {} (fun reg => reg < 5 ∧ reg ≠ 2) lo K (fun f => f.next = 5)
        ((gen e).into 2) (fun _ => K) fun _ f => 5 ≤ f.next :=
  ⟨by decide, by decide, exprInto_register_discipline {} _ (by decide) (by decide)⟩

end ScriptMachine.Compiler
