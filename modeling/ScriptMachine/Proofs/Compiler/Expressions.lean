import ScriptMachine.Proofs.Compiler.Codes
/-!
# Every compiled expression keeps the invariant

The contracts of `Code.Sound` for the builders that walk lists of operands: boolean chains,
comparison chains, list, tuple and dict displays and calls. Each walk keeps an invariant of its
own: the register every operand of a boolean chain is evaluated into, the left operand of the
next link of a comparison chain, the consecutive registers a display or a call fills.

`gen_sound` puts them together by structural recursion on the expression: every expression
compiles to a sound code.
-/

namespace ScriptMachine.Compiler

open Bytecode Instruction

variable {o : Options}

/-! ## Boolean chains -/

section Logic

variable {g : Nat} {m : Mark} {ms : List Mark}

theorem logicInto_sound (s : Span) (op : Int) {operands : List Code}
    (hops : ∀ x ∈ operands, x.Sound o) : IntoSound o (logicInto s op operands) := by
  intro g m ms dst
  refine Triple.ite (fun _ => ?_) (fun _ => Triple.ite (fun _ => ?_) (fun _ => Triple.throw_bind))
  all_goals
    refine Triple.bind (Triple.pure (Q := fun _ r => m.IsReg dst ∧ At g (m :: ms) r 0)
      fun _ h => h) fun sense => ?_
    refine Triple.ite (fun _ => Triple.throw_bind) (fun _ => Triple.inScope_and ?_)
    -- every operand is evaluated into the register `t`, tested, and jumps out when it decides
    refine (Triple.pure_and Triple.temp).bind fun t => ?_
    let m₁ := m.enter.alloc
    refine Triple.pre (fun r ⟨hd, ht, hat⟩ => ⟨⟨ht ▸ m.enter.isReg_alloc,
        hd.enter.mono m.enter.le_alloc⟩, hat⟩)
      ((Triple.foldlM (I := fun _ r => (m₁.IsReg t ∧ m₁.IsReg dst) ∧ At g (m₁ :: ms) r 0)
        fun done p hp => ?_).bind fun done => ?_)
    · obtain ⟨x, i⟩ := p
      have hx := hops x (List.fst_mem_of_mem_zipIdx hp)
      have hinto := Triple.inScope_and (c := m₁.IsReg t) (Triple.pre (fun r ⟨ht, hat⟩ =>
        ⟨ht.enter, hat⟩) ((hx.into g m₁.enter ms t).post fun _ r hat => ⟨m₁.enter,
          Mark.Le.refl _, hat⟩))
      refine Triple.pre (fun r ⟨hc, hat⟩ => ⟨hc, hc.1, hat⟩)
        ((Triple.pure_and hinto).bind fun _ => Triple.ite (fun _ => ?_) (fun _ => ?_))
      · exact Triple.pre (fun r ⟨hc, hat⟩ => ⟨hc, hat, Mark.emitsTest_test hc.1 sense⟩)
          (Triple.pure_and (Triple.testJump_bind (Nat.zero_le _) _ _ _ _ _ _ fun j =>
            Triple.pure (a := done ++ [j]) fun _ h => h))
      · exact Triple.pure fun _ h => h
    refine (Triple.pure_and (Triple.patchHere done)).bind fun _ => Triple.ite (fun _ => ?_)
      (fun _ => Triple.pure fun r ⟨_, hat⟩ => ⟨m₁, m.enter.le_alloc, hat⟩)
    exact Triple.pre (fun r ⟨⟨ht, hd⟩, hat⟩ => ⟨hat, Mark.emits_move hd ht⟩)
      ((Triple.emitABC (Nat.le_succ 0) _ _ _ _ _).post fun _ r hat => ⟨m₁, m.enter.le_alloc, hat⟩)

theorem logicBranch_sound (s : Span) (op : Int) {operands : List Code}
    (hops : ∀ x ∈ operands, x.Sound o) : BranchSound o (logicBranch s op operands) := by
  intro g m ms sense
  refine Triple.ite (fun _ => Triple.throw_bind) (fun _ => ?_)
  refine Triple.ite (fun _ => ?_) (fun _ => Triple.ite (fun _ => ?_) (fun _ => Triple.throw_bind))
  all_goals
    refine Triple.bind (Triple.pure (Q := fun _ r => At g (m :: ms) r 0) fun _ h => h)
      fun decides => Triple.ite (fun _ => ?_) (fun _ => ?_)
    · -- every operand can decide the branch on its own
      refine Triple.foldlM (I := fun _ r => At g (m :: ms) r 0) fun out x hx => ?_
      exact ((hops x hx).branch g m ms sense).bind fun _ => Triple.pure fun _ h => h
    · -- all but the last skip past the chain when they decide the opposite
      refine (Triple.foldlM (I := fun _ r => At g (m :: ms) r 0) fun acc p hp => ?_).bind
        fun p => ?_
      · obtain ⟨x, i⟩ := p
        have hx := hops x (List.fst_mem_of_mem_zipIdx hp)
        refine Triple.ite (fun _ => ?_) (fun _ => ?_)
        · exact (hx.branch g m ms _).bind fun _ => Triple.pure fun _ h => h
        · exact (hx.branch g m ms _).bind fun _ => Triple.pure fun _ h => h
      · obtain ⟨fall, out⟩ := p
        exact (Triple.patchHere fall).bind fun _ => Triple.pure fun _ h => h

theorem logicCode_sound (s : Span) (op : Int) {operands : List Code}
    (hops : ∀ x ∈ operands, x.Sound o) : (logicCode s op operands).Sound o :=
  have base := Code.ofInto_sound s (logicInto_sound s op hops)
  ⟨base.into, base.operand, logicBranch_sound s op hops⟩

end Logic

/-! ## Comparison chains -/

section Compare

variable {g : Nat} {m : Mark} {ms : List Mark}

theorem compareOpcode?_isTest {op : Int} {opc : Op} {check : Bool}
    (h : compareOpcode? op = some (opc, check)) :
    opc = .eq ∨ opc = .lt ∨ opc = .le ∨ opc = .isIn := by
  unfold compareOpcode? at h
  split at h <;> cases h <;> simp

theorem compareBranch_sound (s : Span) {first : Code} (firstName : String) (ops : List Int)
    {rest : List (Code × String)} (hfirst : first.Sound o) (hrest : ∀ p ∈ rest, p.1.Sound o) :
    BranchSound o (compareBranch s first firstName ops rest) := by
  intro g m ms sense
  refine Triple.ite (fun _ => Triple.throw_bind) (fun _ => Triple.inScope ?_)
  refine Triple.pre (fun _ hat => ⟨trivial, hat⟩) (hfirst.operand.bind fun x m₁ => ?_)
  refine Triple.pre (P := fun r => ∃ m', (m.enter.Le m' ∧ m'.IsOperand x) ∧ At g (m' :: ms) r 0)
    (fun r ⟨⟨_, hle, hx⟩, hat⟩ => ⟨m₁, ⟨hle, hx⟩, hat⟩) ?_
  refine (Triple.foldlM (I := fun (st : ChainState) r => ∃ m', (m.enter.Le m' ∧
      m'.IsOperand st.left) ∧ At g (m' :: ms) r 0) fun st p hp => ?_).bind fun st => ?_
  · obtain ⟨⟨op, right, rightName⟩, i⟩ := p
    have hright : right.Sound o :=
      hrest (right, rightName) (List.of_mem_zip (List.fst_mem_of_mem_zipIdx hp)).2
    refine Triple.exists_pre fun m₂ => ?_
    unfold compareLink
    dsimp only
    split
    · rename_i q hq
      obtain ⟨opc, check⟩ := q
      have hopc := compareOpcode?_isTest hq
      simp only [pure_bind]
      refine hright.operand.bind fun y m₃ => ?_
      refine Triple.pre (P := fun r => (m.enter.Le m₃ ∧ m₃.IsOperand st.left ∧ m₃.IsOperand y) ∧
          At g (m₃ :: ms) r 0)
        (fun r ⟨⟨⟨hle, hx⟩, hle₃, hy⟩, hat⟩ => ⟨⟨hle.trans hle₃, hx.mono hle₃, hy⟩, hat⟩) ?_
      -- the event, when observed, reads both operands
      refine Triple.listening_bind .comparison fun b hb => Triple.ite (fun hb' => Triple.pre
          (fun r ⟨hc, hat⟩ => ⟨hc, hat, Mark.notes_of .comparison rfl fun c hc' =>
            ⟨hc.2.1.1.isRKId hc', hc.2.2.1.isRKId hc'⟩⟩)
          ((Triple.pure_and (Triple.notify (Nat.le_succ 0) _ ⟨.comparison, hb hb', rfl⟩)).bind
            fun _ => ?_)) (fun _ => ?_)
      all_goals
        refine Triple.ite (fun _ => ?_) (fun _ => ?_) <;>
        refine Triple.assume (Triple.testJump_bind (R := fun _ _ => True) (Nat.zero_le (0 + 2)) _ _ _ _ _ _
          fun _ => Triple.pure fun _ _ => trivial) fun ⟨hle, hx, hy⟩ => ?_ <;>
        exact Triple.pre (fun r hat => ⟨hat, Mark.emitsTest_compare hopc _ hx hy⟩)
          (Triple.testJump_bind (Nat.zero_le _) _ _ _ _ _ _ fun j =>
            Triple.pure fun r hat => ⟨m₃, ⟨hle, by assumption⟩, hat⟩)
    · exact Triple.throw_bind
  · refine Triple.exists_pre fun m₂ => ?_
    exact (Triple.pure_and (Triple.patchHere st.fall)).bind fun _ =>
      Triple.pure fun r ⟨⟨hle, _⟩, hat⟩ => ⟨m₂, hle, hat⟩

theorem compareCode_sound (s : Span) {first : Code} (firstName : String) (ops : List Int)
    {rest : List (Code × String)} (hfirst : first.Sound o) (hrest : ∀ p ∈ rest, p.1.Sound o) :
    (compareCode s first firstName ops rest).Sound o := by
  have hbranch := compareBranch_sound s firstName ops hfirst hrest
  have hinto : IntoSound o fun dst => (do
      let isFalse ← compareBranch s first firstName ops rest false
      emitABC .loadBool dst 1 1 s
      patchHere isFalse
      emitABC .loadBool dst 0 0 s) := by
    intro g m ms dst
    refine (Triple.pure_and (hbranch g m ms false)).bind fun isFalse => ?_
    -- the skip needs one instruction of slack until the instruction it skips is there
    refine Triple.pre (fun r ⟨hd, hat⟩ => ⟨hd, hat, Mark.emits_loadBool_skip hd (Nat.le_refl 1)⟩)
      ((Triple.pure_and (Triple.emitABC (Nat.zero_le (1 + 1)) _ _ _ _ _)).bind fun _ => ?_)
    refine (Triple.pure_and (Triple.patchHere isFalse)).bind fun _ => ?_
    exact Triple.pre (fun r ⟨hd, hat⟩ => ⟨hat, Mark.emits_loadBool hd 0⟩)
      (Triple.emitABC (Nat.le_refl (0 + 1)) _ _ _ _ _)
  have base := Code.ofInto_sound s hinto
  exact ⟨base.into, base.operand, hbranch⟩

end Compare

/-! ## Displays -/

section Displays

variable {g : Nat} {m : Mark} {ms : List Mark}

theorem Mark.isReg_block {base n i : Nat} (hbase : n = 0 ∧ base = 0 ∨ (base : Int) + n ≤ m.regs)
    (hi : i < n) : m.IsReg (base + i) := by
  unfold Mark.IsReg
  rcases hbase with ⟨rfl, -⟩ | h
  · exact absurd hi (Nat.not_lt_zero i)
  · push_cast
    omega

theorem Triple.intoBlock {x : Code} (hx : x.Sound o) {c : Prop} {dst : Nat} (hd : c → m.IsReg dst) :
    Triple o (fun r => c ∧ At g (m :: ms) r 0) (Compiler.inScope (x.into dst))
      (fun _ r => c ∧ At g (m :: ms) r 0) :=
  Triple.pre (fun _ ⟨hc, hat⟩ => ⟨hc, hd hc, hat⟩) (Triple.pure_and (Triple.inScope_and
    (Triple.pre (fun _ ⟨hreg, hat⟩ => ⟨hreg.enter, hat⟩) ((hx.into g m.enter ms dst).post
      fun _ _ hat => ⟨m.enter, Mark.Le.refl _, hat⟩))))

theorem sequenceInto_sound {op : Op} (hop : op = .newList ∨ op = .newTuple) (s : Span)
    {items : List Code} (hitems : ∀ x ∈ items, x.Sound o) :
    IntoSound o (sequenceInto op items · s) := by
  intro g m ms dst
  refine Triple.ite (fun _ => Triple.errorAt _ _ _) (fun hn => Triple.inScope_and ?_)
  refine (Triple.pure_and (Triple.temps items.length)).bind fun base => ?_
  refine Triple.pre (P := fun r => ∃ m₁, (m₁.IsReg dst ∧ m.enter.Le m₁ ∧ (items.length = 0 ∧
      base = 0 ∨ (base : Int) + items.length ≤ m₁.regs)) ∧ At g (m₁ :: ms) r 0)
    (fun r ⟨hd, m₁, hle, hat, hbase⟩ => ⟨m₁, ⟨hd.enter.mono hle, hle, hbase⟩, hat⟩)
    (Triple.exists_pre fun m₁ => ?_)
  -- each item goes into its own register of the block
  refine (Triple.forM fun p hp => ?_).bind fun _ => ?_
  · obtain ⟨x, i⟩ := p
    have hi : i < items.length := by simpa using List.snd_lt_of_mem_zipIdx hp
    exact Triple.intoBlock (hitems x (List.fst_mem_of_mem_zipIdx hp))
      fun hc => Mark.isReg_block hc.2.2 hi
  · exact Triple.pre (fun r ⟨⟨hd, hle, hbase⟩, hat⟩ => ⟨hle, hat,
        Mark.emits_sequence hop hd hbase (Nat.not_lt.mp hn)⟩)
      ((Triple.pure_and (Triple.emitABC (Nat.le_succ 0) _ _ _ _ _)).post
        fun _ r ⟨hle, hat⟩ => ⟨m₁, hle, hat⟩)

theorem dictInto_sound (s : Span) {entries : List (Code × Code)}
    (hentries : ∀ p ∈ entries, p.1.Sound o ∧ p.2.Sound o) : IntoSound o (dictInto s entries) := by
  intro g m ms dst
  refine Triple.ite (fun _ => Triple.errorAt _ _ _) (fun hn => Triple.inScope_and ?_)
  refine (Triple.pure_and (Triple.temps (2 * entries.length))).bind fun base => ?_
  refine Triple.pre (P := fun r => ∃ m₁, (m₁.IsReg dst ∧ m.enter.Le m₁ ∧
      (2 * entries.length = 0 ∧ base = 0 ∨ (base : Int) + ↑(2 * entries.length) ≤ m₁.regs)) ∧
      At g (m₁ :: ms) r 0)
    (fun r ⟨hd, m₁, hle, hat, hbase⟩ => ⟨m₁, ⟨hd.enter.mono hle, hle, hbase⟩, hat⟩)
    (Triple.exists_pre fun m₁ => ?_)
  -- the key and the value of entry `i` go into registers `2 i` and `2 i + 1` of the block
  refine (Triple.forM fun p hp => ?_).bind fun _ => ?_
  · obtain ⟨⟨k, v⟩, i⟩ := p
    have hi : i < entries.length := by simpa using List.snd_lt_of_mem_zipIdx hp
    obtain ⟨hk, hv⟩ := hentries (k, v) (List.fst_mem_of_mem_zipIdx hp)
    exact (Triple.intoBlock hk fun hc => Mark.isReg_block (i := 2 * i) hc.2.2 (by omega)).bind
      fun _ => Triple.intoBlock hv fun hc => Mark.isReg_block (i := 2 * i + 1) hc.2.2 (by omega)
  · exact Triple.pre (fun r ⟨⟨hd, hle, hbase⟩, hat⟩ => ⟨hle, hat,
        Mark.emits_newDict hd hbase (Nat.not_lt.mp hn)⟩)
      ((Triple.pure_and (Triple.emitABC (Nat.le_succ 0) _ _ _ _ _)).post
        fun _ r ⟨hle, hat⟩ => ⟨m₁, hle, hat⟩)

end Displays

/-! ## Calls -/

section Calls

variable {g : Nat} {m : Mark} {ms : List Mark}

theorem Mark.lt_take_regs (m : Mark) {n x : Nat} (hx : x ≤ n) :
    ((m.next + x : Nat) : Int) < (m.take (n + 1)).regs := by
  simp only [Mark.take]
  omega

theorem callInto_sound (s : Span) (name : String) {callee : Code} {args : List Code}
    (hcallee : callee.Sound o) (hargs : ∀ x ∈ args, x.Sound o) :
    IntoSound o (callInto s name callee args) := by
  intro g m ms dst
  refine Triple.inScope_and ((Triple.pure_and Triple.temp).bind fun base => ?_)
  refine Triple.pre (fun r ⟨hd, hb, hat⟩ => ⟨⟨hd, hb⟩, hb ▸ m.enter.isReg_alloc, hat⟩)
    ((Triple.pure_and (c := m.IsReg dst ∧ base = m.enter.next)
      (hcallee.into g m.enter.alloc ms base)).bind fun _ => ?_)
  -- after `j` arguments the function and its arguments hold `j + 1` registers from `base`
  refine (Triple.forM_count (I := fun j r => (m.IsReg dst ∧ base = m.enter.next) ∧
      At g (m.enter.take (j + 1) :: ms) r 0) (fun j x hx => ?_) 0).bind fun _ => ?_
  · refine (Triple.pure_and Triple.temp).bind fun t => ?_
    refine Triple.pre (fun r ⟨hc, ht, hat⟩ => ⟨⟨hc, ht⟩, hat⟩)
      ((Triple.intoBlock (c := (m.IsReg dst ∧ base = m.enter.next) ∧
        t = (m.enter.take (j + 1)).next) (hargs x hx) fun hc => hc.2 ▸ Mark.isReg_alloc _).post ?_)
    intro _ r ⟨⟨hc, _⟩, hat⟩
    rw [Mark.take_alloc] at hat
    exact ⟨hc, hat⟩
  -- the argument count, cut to what `B` holds after a report
  rw [Nat.zero_add]
  refine Triple.ite (fun hn => (Triple.errorAt (Q := fun _ r => (m.IsReg dst ∧
    base = m.enter.next) ∧ At g (m.enter.take (args.length + 1) :: ms) r 0) _ _ _).bind
      fun _ => ?_) (fun hn => ?_)
  all_goals
    refine (Triple.pure (Q := fun argc r => ((m.IsReg dst ∧ base = m.enter.next) ∧
      argc ≤ args.length ∧ argc ≤ maxOperand) ∧ At g (m.enter.take (args.length + 1) :: ms) r 0)
      fun r ⟨hc, hat⟩ => ⟨⟨hc, by omega, by omega⟩, hat⟩).bind fun argc => ?_
    -- the block of the function and its arguments lies below the registers handed out
    refine Triple.pre (P := fun r => ((m.enter.take (args.length + 1)).IsReg dst ∧
        ((base + argc : Nat) : Int) < (m.enter.take (args.length + 1)).regs ∧
        (m.enter.take (args.length + 1)).IsReg base ∧ argc ≤ maxOperand) ∧
        At g (m.enter.take (args.length + 1) :: ms) r 0)
      (fun r ⟨⟨⟨hd, hb⟩, ha, hmax⟩, hat⟩ => ⟨⟨hd.enter.mono (Mark.le_take _ _),
        hb ▸ Mark.lt_take_regs _ ha, hb ▸ Mark.lt_take_regs _ (Nat.zero_le _), hmax⟩, hat⟩) ?_
    refine Triple.listening_bind .funcCalled fun b hb => Triple.ite (fun hb' => Triple.pre
        (fun r ⟨hc, hat⟩ => ⟨hc, hat, Mark.notes_of .funcCalled rfl fun c hc' =>
          ⟨Int.natCast_nonneg _, Int.natCast_nonneg _, by
            have := Int.lt_of_lt_of_le hc.2.1 hc'.regs
            dsimp only
            omega⟩⟩)
        ((Triple.pure_and (Triple.notify (Nat.le_succ 0) _
          ⟨.funcCalled, hb (Bool.and_eq_true_iff.mp hb').2, rfl⟩)).bind fun _ => ?_)) (fun _ => ?_)
    all_goals
      refine Triple.pre (fun r ⟨hc, hat⟩ => ⟨hc, hat, Mark.emits_call hc.2.1 hc.2.2.2⟩)
        ((Triple.pure_and (Triple.emitABC (Nat.le_succ 0) _ _ _ _ _)).bind fun _ => ?_)
      refine Triple.listening_bind .funcReturned fun b hb => Triple.ite (fun hb' => Triple.pre
          (fun r ⟨hc, hat⟩ => ⟨hc, hat, Mark.notes_of .funcReturned rfl fun c hc' =>
            hc.2.2.1.isRegId hc'⟩)
          ((Triple.pure_and (Triple.notify (Nat.le_succ 0) _
            ⟨.funcReturned, hb (Bool.and_eq_true_iff.mp hb').2, rfl⟩)).bind fun _ => ?_))
          (fun _ => ?_)
      all_goals
        refine Triple.ite (fun _ => ?_) (fun _ => Triple.pure fun r ⟨_, hat⟩ =>
          ⟨_, Mark.le_take _ _, hat⟩)
        exact Triple.pre (fun r ⟨hc, hat⟩ => ⟨hat, Mark.emits_move hc.1 hc.2.2.1⟩)
          ((Triple.emitABC (Nat.le_succ 0) _ _ _ _ _).post fun _ r hat =>
            ⟨_, Mark.le_take _ _, hat⟩)

end Calls

/-! ## Every expression -/

mutual

theorem gen_sound : ∀ e : Syntax.Expr, (gen e).Sound o
  | .nil s => nilCode_sound s
  | .bool s b => boolCode_sound s b
  | .num s x => constantCode_sound s fun _ _ _ => Triple.numberId x
  | .str s t => constantCode_sound s fun _ _ _ => Triple.textId t
  | .ident s name => identCode_sound s name
  | .binary s op l r => binaryCode_sound s op _ _ (gen_sound l) (gen_sound r)
  | .unary s op x => unaryCode_sound s op _ (gen_sound x)
  | .logic s op xs => logicCode_sound s op (genAll_sound xs)
  | .compare s first ops rest => compareCode_sound s _ ops (gen_sound first)
      fun p hp => genAll_sound rest p.1 (List.of_mem_zip hp).1
  | .list s xs => Code.ofInto_sound s (sequenceInto_sound (Or.inl rfl) s (genAll_sound xs))
  | .tuple s xs => Code.ofInto_sound s (sequenceInto_sound (Or.inr rfl) s (genAll_sound xs))
  | .dict s entries => Code.ofInto_sound s (dictInto_sound s (genPairs_sound entries))
  | .index s c k => indexCode_sound s (gen_sound c) (gen_sound k)
  | .call s f args => Code.ofInto_sound s (callInto_sound s _ (gen_sound f) (genAll_sound args))

theorem genAll_sound : ∀ xs : List Syntax.Expr, ∀ c ∈ genAll xs, c.Sound o
  | [], _, hc => absurd hc List.not_mem_nil
  | x :: xs, c, hc => by
    rw [genAll, List.mem_cons] at hc
    rcases hc with rfl | hc
    · exact gen_sound x
    · exact genAll_sound xs c hc

theorem genPairs_sound :
    ∀ ps : List (Syntax.Expr × Syntax.Expr), ∀ p ∈ genPairs ps, p.1.Sound o ∧ p.2.Sound o
  | [], _, hp => absurd hp List.not_mem_nil
  | (k, v) :: rest, p, hp => by
    rw [genPairs, List.mem_cons] at hp
    rcases hp with rfl | hp
    · exact ⟨gen_sound k, gen_sound v⟩
    · exact genPairs_sound rest p hp

end

end ScriptMachine.Compiler
