import ScriptMachine.Compiler.Expr
import ScriptMachine.Proofs.Compiler.Emits
/-!
# Contracts of compiled expressions

A compiled expression is used three ways, and each use has a contract over the invariant `At`:
compiled into a register that exists it leaves the mark as it found it; compiled as an operand it
yields a register or a constant the `B` and `C` fields can hold, under a mark that may have grown;
compiled as a branch it leaves the mark as it found it, and the jumps it gives wait for a target
that patching checks. `Code.Sound` bundles the three.
-/

namespace ScriptMachine.Compiler

open Bytecode Instruction

/-- Compiling into a register that exists keeps the mark. -/
def IntoSound (o : Options) (into : Nat → GenM Unit) : Prop :=
  ∀ g m ms dst, Triple o (fun r => m.IsReg dst ∧ At g (m :: ms) r 0) (into dst)
    (fun _ r => At g (m :: ms) r 0)

/-- A step that yields a value `P` accepts under a mark that may have grown. -/
def Yields (o : Options) (P : Mark → Nat → Prop) (act : GenM Nat) : Prop :=
  ∀ g m ms, Triple o (fun r => At g (m :: ms) r 0) act
    (fun x r => ∃ m', m.Le m' ∧ At g (m' :: ms) r 0 ∧ P m' x)

def BranchSound (o : Options) (branch : Bool → GenM (List Nat)) : Prop :=
  ∀ g m ms sense, Triple o (fun r => At g (m :: ms) r 0) (branch sense)
    (fun _ r => At g (m :: ms) r 0)

/-- The three uses of a compiled expression keep the invariant. -/
structure Code.Sound (o : Options) (c : Code) : Prop where
  into : IntoSound o c.into
  operand : Yields o Mark.IsOperand c.operand
  branch : BranchSound o c.branch

variable {o : Options}

theorem Yields.mono {P P' : Mark → Nat → Prop} {act : GenM Nat} (h : Yields o P act)
    (hP : ∀ m x, P m x → P' m x) : Yields o P' act := fun g m ms =>
  (h g m ms).post fun _ _ ⟨m', hle, hat, hp⟩ => ⟨m', hle, hat, hP m' _ hp⟩

theorem Yields.operand_of_reg {act : GenM Nat} (h : Yields o Mark.IsReg act) :
    Yields o Mark.IsOperand act := fun g m ms =>
  (h g m ms).post fun _ _ ⟨m', hle, hat, hx⟩ => ⟨m', hle, hat, hx.isOperand (hat.isReg_lt hx)⟩

theorem Triple.grow_bind {β : Type} {P : Mark → Nat → Prop} {act : GenM Nat} {f : Nat → GenM β}
    {R : β → Resolver → Prop} {c d : Prop} {g : Nat} {m : Mark} {ms : List Mark}
    (h : Triple o (fun r => At g (m :: ms) r 0 ∧ d) act
      (fun x r => ∃ m', m.Le m' ∧ At g (m' :: ms) r 0 ∧ P m' x)) (hd : c → d)
    (hf : ∀ x m', Triple o (fun r => (c ∧ m.Le m' ∧ P m' x) ∧ At g (m' :: ms) r 0) (f x) R) :
    Triple o (fun r => c ∧ At g (m :: ms) r 0) (act >>= f) R :=
  (Triple.carry hd h).bind fun x =>
    Triple.pre (fun _ ⟨hc, m', hle, hat, hx⟩ => ⟨m', ⟨hc, hle, hx⟩, hat⟩)
      (Triple.exists_pre fun m' => hf x m')

theorem Yields.bind {β : Type} {P : Mark → Nat → Prop} {act : GenM Nat} {f : Nat → GenM β}
    {R : β → Resolver → Prop} {c : Prop} {g : Nat} {m : Mark} {ms : List Mark}
    (h : Yields o P act)
    (hf : ∀ x m', Triple o (fun r => (c ∧ m.Le m' ∧ P m' x) ∧ At g (m' :: ms) r 0) (f x) R) :
    Triple o (fun r => c ∧ At g (m :: ms) r 0) (act >>= f) R :=
  Triple.grow_bind (Triple.pre (fun _ h => h.1) (h g m ms)) (fun _ => trivial) hf

theorem Yields.mapM {γ : Type} {P : Mark → Nat → Prop} {f : γ → GenM Nat}
    (hP : ∀ {m m' : Mark} {x : Nat}, m.Le m' → P m x → P m' x) :
    ∀ {xs : List γ}, (∀ x ∈ xs, Yields o P (f x)) → ∀ g m ms,
      Triple o (fun r => At g (m :: ms) r 0) (xs.mapM f)
        (fun ys r => ∃ m', m.Le m' ∧ At g (m' :: ms) r 0 ∧ ∀ y ∈ ys, P m' y)
  | [], _, _, m, _ => Triple.pure fun _ hat => ⟨m, Mark.Le.refl m, hat, fun _ h => nomatch h⟩
  | x :: xs, h, g, m, ms => by
    rw [List.mapM_cons]
    refine Triple.pre (fun _ hat => ⟨trivial, hat⟩)
      ((h x (List.mem_cons_self ..)).bind fun y m₁ => ?_)
    refine (Triple.pure_and (Yields.mapM (P := P) (f := f) hP
      (fun z hz => h z (List.mem_cons_of_mem _ hz)) g m₁ ms)).bind fun ys => ?_
    refine Triple.pure fun r ⟨⟨_, hle, hy⟩, m₂, hle₂, hat, hys⟩ => ⟨m₂, hle.trans hle₂, hat, ?_⟩
    intro z hz
    rcases List.mem_cons.mp hz with rfl | hz
    · exact hP hle₂ hy
    · exact hys z hz

/-! ## Shared builders -/

theorem freshWith_sound {into : Nat → GenM Unit} (h : IntoSound o into) :
    Yields o Mark.IsReg (freshWith into) := by
  intro g m ms
  unfold freshWith
  refine Triple.temp.bind fun t => ?_
  refine Triple.pre (fun r ⟨ht, hat⟩ => ⟨ht, ht ▸ m.isReg_alloc, hat⟩)
    ((Triple.pure_and (h g m.alloc ms t)).bind fun _ => ?_)
  exact Triple.pure fun r ⟨ht, hat⟩ => ⟨m.alloc, m.le_alloc, hat, ht ▸ m.isReg_alloc⟩

theorem registerOf_sound (s : Span) {operand : GenM Nat} (h : Yields o Mark.IsOperand operand) :
    Yields o Mark.IsReg (registerOf s operand) := by
  intro g m ms
  unfold registerOf
  refine Triple.pre (fun _ hat => ⟨trivial, hat⟩) (h.bind fun x m' => ?_)
  refine Triple.pre (fun r ⟨⟨_, hle, hx⟩, hat⟩ => ⟨hle, hat, hx.1⟩)
    ((Triple.pure_and (Triple.inRegister x s)).post fun _ r ⟨hle, m'', hle', hat, hy⟩ => ?_)
  exact ⟨m'', hle.trans hle', hat, hy⟩

theorem testBranch_sound (s : Span) {operand : GenM Nat} (h : Yields o Mark.IsOperand operand) :
    BranchSound o (testBranch s operand) := by
  intro g m ms sense
  unfold testBranch
  refine Triple.inScope ?_
  refine Triple.pre (fun _ hat => ⟨trivial, hat⟩) ((registerOf_sound s h).bind fun x m' => ?_)
  have hjump := Triple.testJump_bind (o := o) (R := fun _ r => At g (m' :: ms) r 0)
    (Nat.zero_le _) .test x (if sense then 1 else 0) 0 s s fun j => Triple.pure (a := [j]) fun _ h => h
  exact Triple.pre (fun r ⟨⟨_, hle, hx⟩, hat⟩ => ⟨hle, hat, Mark.emitsTest_test hx _⟩)
    ((Triple.pure_and hjump).post fun _ r ⟨hle, hat⟩ => ⟨m', hle, hat⟩)

theorem Code.ofInto_sound (s : Span) {into : Nat → GenM Unit} (h : IntoSound o into) :
    (Code.ofInto s into).Sound o :=
  ⟨h, (freshWith_sound h).operand_of_reg,
    testBranch_sound s (freshWith_sound h).operand_of_reg⟩

theorem Triple.regrow {α : Type} {g g' : Nat} {m m' : Mark} {ms : List Mark} {act : GenM α}
    {c : Prop} (hc : c → g ≤ g' ∧ m.Le m' ∧ m'.next = m.next)
    (h : Triple o (fun r => c ∧ At g' (m' :: ms) r 0) act (fun _ r => c ∧ At g' (m' :: ms) r 0)) :
    Triple o (fun r => c ∧ At g' (m' :: ms) r 0) act (fun _ r => At g (m :: ms) r 0) := by
  refine h.post ?_
  rintro _ r ⟨hc', hat⟩
  obtain ⟨hg, hle, hn⟩ := hc hc'
  exact (hat.weaken hle hn).lower hg

/-! ## Constants, `None` and booleans -/

theorem constOperand_sound (s : Span) {id : GenM Nat} (h : Yields o Mark.IsConst id) :
    Yields o Mark.IsOperand (id >>= fun x => rk x s) := by
  intro g m ms
  refine Triple.pre (fun _ hat => ⟨trivial, hat⟩) (h.bind fun x m' => ?_)
  refine Triple.pre (fun r ⟨⟨_, hle, hx⟩, hat⟩ => ⟨hle, hat, hx.isRK⟩)
    ((Triple.pure_and (Triple.rk x s)).post fun _ r ⟨hle, m'', hle', hat, hy⟩ => ?_)
  exact ⟨m'', hle.trans hle', hat, hy⟩

theorem numberId_yields (x : Float) : Yields o Mark.IsConst (liftM (Resolver.numberId x)) :=
  fun _ _ _ => (Triple.numberId x).post fun _ _ ⟨m', hle, _, hat, hc⟩ => ⟨m', hle, hat, hc⟩

theorem Triple.numberOperand_bind {β : Type} {g : Nat} {m : Mark} {ms : List Mark} (x : Float)
    (s : Span) {f : Nat → GenM β} {R : β → Resolver → Prop} {c : Prop}
    (hf : ∀ y m', Triple o (fun r => (c ∧ m.Le m' ∧ m'.IsOperand y) ∧ At g (m' :: ms) r 0) (f y) R) :
    Triple o (fun r => c ∧ At g (m :: ms) r 0)
      (liftM (Resolver.numberId x) >>= fun z => Compiler.rk z s >>= f) R := by
  rw [← bind_assoc]
  exact (constOperand_sound s (numberId_yields x)).bind hf

theorem constantCode_sound (s : Span) {id : GenM Nat}
    (h : ∀ g m ms, Triple o (fun r => At g (m :: ms) r 0) id
      (fun x r => ∃ m', m.Le m' ∧ m'.next = m.next ∧ At g (m' :: ms) r 0 ∧ m'.IsConst x)) :
    (constantCode s id).Sound o := by
  have hop : Yields o Mark.IsOperand (constantCode s id).operand := constOperand_sound s
    fun g m ms => (h g m ms).post fun _ _ ⟨m', hle, _, hat, hx⟩ => ⟨m', hle, hat, hx⟩
  refine ⟨fun g m ms dst => ?_, hop, testBranch_sound s hop⟩
  refine (Triple.pure_and (h g m ms)).bind fun x => ?_
  refine Triple.pre (P := fun r => ∃ m', (m.Le m' ∧ m'.next = m.next ∧ m.IsReg dst ∧
      m'.IsConst x) ∧ At g (m' :: ms) r 0)
    (fun r ⟨hd, m', hle, hn, hat, hx⟩ => ⟨m', ⟨hle, hn, hd, hx⟩, hat⟩)
    (Triple.exists_pre fun m' => ?_)
  exact Triple.regrow (fun ⟨hle, hn, _⟩ => ⟨Nat.le_refl g, hle, hn⟩)
    (Triple.carry (fun ⟨hle, _, hd, hx⟩ => ⟨hd.mono hle, hx.2⟩) (Triple.loadK dst x s))

theorem nilCode_sound (s : Span) : (nilCode s).Sound o :=
  Code.ofInto_sound s fun _ _ _ _ => Triple.pre (fun _ ⟨hd, hat⟩ => ⟨hat, Mark.emits_loadNil hd⟩)
    (Triple.emitABC (Nat.le_succ 0) _ _ _ _ _)

theorem boolCode_sound (s : Span) (b : Bool) : (boolCode s b).Sound o := by
  have hinto : IntoSound o fun dst => emitABC .loadBool dst (if b then 1 else 0) 0 s :=
    fun _ _ _ _ => Triple.pre (fun _ ⟨hd, hat⟩ => ⟨hat, Mark.emits_loadBool hd _⟩)
      (Triple.emitABC (Nat.le_succ 0) _ _ _ _ _)
  refine ⟨hinto, (Code.ofInto_sound s hinto).operand, fun g m ms sense => ?_⟩
  apply Triple.ite
  · intro _
    exact (Triple.jump (Nat.le_succ 0) s).bind fun _ => Triple.pure fun _ h => h
  · intro _
    exact Triple.pure fun _ h => h

/-! ## Variables -/

theorem Triple.found_pre {α : Type} {g : Nat} {m : Mark} {ms : List Mark} {v : Variable}
    {act : GenM α} {Q : α → Resolver → Prop} {c : Prop}
    (h : ∀ g' m', Triple o (fun r => (c ∧ g ≤ g' ∧ m.Le m' ∧ m'.next = m.next ∧
      v.Valid g' m') ∧ At g' (m' :: ms) r 0) act Q) :
    Triple o (fun r => c ∧ Found g m ms 0 v r) act Q :=
  Triple.pre (fun _ ⟨hc, g', m', hg, hle, hn, hat, hv⟩ => ⟨g', m', ⟨hc, hg, hle, hn, hv⟩, hat⟩)
    (Triple.exists_pre fun g' => Triple.exists_pre fun m' => h g' m')

theorem Variable.Valid.isReg {g : Nat} {m : Mark} {v : Variable} (h : v.Valid g m)
    (hp : v.place = .register) : m.IsReg v.index := by
  simpa only [Variable.Valid, hp] using h

theorem Variable.Valid.capture_lt {g : Nat} {m : Mark} {v : Variable} (h : v.Valid g m)
    (hp : v.place = .capture) : v.index < m.caps := by
  simpa only [Variable.Valid, hp] using h

theorem Variable.Valid.global_lt {g : Nat} {m : Mark} {v : Variable} (h : v.Valid g m)
    (hp : v.place = .global) : v.index < g := by
  simpa only [Variable.Valid, hp] using h

theorem readInto_sound (s : Span) (name : String) : IntoSound o (readInto s name) := by
  intro g m ms dst
  unfold readInto
  refine (Triple.pure_and (Triple.find name)).bind fun v => Triple.found_pre fun g' m' => ?_
  have hc : m.IsReg dst ∧ g ≤ g' ∧ m.Le m' ∧ m'.next = m.next ∧ v.Valid g' m' →
      g ≤ g' ∧ m.Le m' ∧ m'.next = m.next := fun ⟨_, hg, hle, hn, _⟩ => ⟨hg, hle, hn⟩
  -- the instruction reads the variable where the grown mark says it lives
  split
  · rename_i hplace
    apply Triple.ite
    · intro _
      exact Triple.regrow hc (Triple.carry (fun ⟨hd, _, hle, _, hv⟩ =>
        Mark.emits_move (hd.mono hle) (hv.isReg hplace)) (Triple.emitABC (Nat.le_succ 0) _ _ _ _ _))
    · intro _
      exact Triple.pure fun _ ⟨⟨_, hg, hle, hn, _⟩, hat⟩ => (hat.weaken hle hn).lower hg
  · rename_i hplace
    exact Triple.regrow hc (Triple.carry (fun ⟨hd, _, hle, _, hv⟩ =>
      Mark.emits_getUpval (hd.mono hle) (hv.capture_lt hplace))
      (Triple.emitABC (Nat.le_succ 0) _ _ _ _ _))
  · rename_i hplace
    exact Triple.regrow hc (Triple.carry (fun ⟨hd, _, hle, _, hv⟩ =>
      Mark.emits_global (Or.inl rfl) (hd.mono hle) (hv.global_lt hplace))
      (Triple.emitABx (Nat.le_succ 0) _ _ _ _))

theorem identCode_sound (s : Span) (name : String) : (identCode s name).Sound o := by
  have hop : Yields o Mark.IsOperand (identCode s name).operand := by
    intro g m ms
    refine Triple.pre (fun _ hat => ⟨trivial, hat⟩)
      ((Triple.pure_and (c := True) (Triple.find name)).bind fun v => ?_)
    apply Triple.ite
    · -- a local's operand is its own register
      intro hplace
      refine Triple.found_pre fun g' m' => Triple.pure fun r ⟨⟨_, hg, hle, _, hv⟩, hat⟩ => ?_
      have hx := hv.isReg (eq_of_beq hplace)
      exact ⟨m', hle, hat.lower hg, hx.isOperand (hat.isReg_lt hx)⟩
    · intro _
      exact Triple.pre (fun _ ⟨_, hfound⟩ => hfound.at)
        ((freshWith_sound (readInto_sound s name)).operand_of_reg g m ms)
  exact ⟨readInto_sound s name, hop, testBranch_sound s hop⟩

/-! ## Operators -/

section Operators

variable {g : Nat} {m : Mark} {ms : List Mark}

theorem Triple.tempUnless_bind {β : Type} (b : Bool) (dst : Nat) {c : Prop} {k : Nat → GenM β}
    {R : β → Resolver → Prop}
    (hk : ∀ out m', Triple o (fun r => (c ∧ m.Le m' ∧ m'.IsReg out ∧ m'.IsReg dst) ∧
      At g (m' :: ms) r 0) (k out) R) :
    Triple o (fun r => (c ∧ m.IsReg dst) ∧ At g (m :: ms) r 0)
      (if b then Compiler.temp >>= k else Pure.pure dst >>= k) R := by
  apply Triple.ite
  · intro _
    refine (Triple.pure_and Triple.temp).bind fun t => Triple.pre ?_ (hk t m.alloc)
    rintro r ⟨⟨hc, hd⟩, ht, hat⟩
    exact ⟨⟨hc, m.le_alloc, ht ▸ m.isReg_alloc, hd.mono m.le_alloc⟩, hat⟩
  · intro _
    refine Triple.bind (Triple.pure fun r ⟨⟨hc, hd⟩, hat⟩ => ?_) fun out => hk out m
    exact ⟨⟨hc, Mark.Le.refl m, hd, hd⟩, hat⟩

theorem arithOpcode?_isArith {op : Int} {opc : Op} (h : arithOpcode? op = some opc) :
    opc.isArith = true := by
  unfold arithOpcode? at h
  split at h <;> cases h <;> rfl

theorem binaryCode_sound (s : Span) (op : Int) (leftName rightName : String) {left right : Code}
    (hl : left.Sound o) (hr : right.Sound o) :
    (binaryCode s op leftName rightName left right).Sound o := by
  refine Code.ofInto_sound s fun g m ms dst => ?_
  split
  · exact Triple.throw
  · rename_i opc hopc
    have harith := arithOpcode?_isArith hopc
    refine Triple.inScope_and (hl.operand.bind fun x m₁ => hr.operand.bind fun y m₂ => ?_)
    refine Triple.pre (P := fun r => ((m.enter.Le m₂ ∧ m₂.IsOperand x ∧ m₂.IsOperand y) ∧
        m₂.IsReg dst) ∧ At g (m₂ :: ms) r 0)
      (fun r ⟨⟨⟨hd, hle₁, hx⟩, hle₂, hy⟩, hat⟩ => ⟨⟨⟨hle₁.trans hle₂, hx.mono hle₂, hy⟩,
        hd.enter.mono (hle₁.trans hle₂)⟩, hat⟩) ?_
    refine Triple.listening_bind .binary fun b hb => Triple.ite (fun _ => ?_) (fun hnb => ?_)
    · exact Triple.pre (fun r ⟨⟨⟨hle, hx, hy⟩, hd⟩, hat⟩ => ⟨hle, hat, Mark.emits_arith harith hd hx hy⟩)
        ((Triple.pure_and (Triple.emitABC (Nat.le_succ 0) _ _ _ _ _)).post
          fun _ r ⟨hle, hat⟩ => ⟨m₂, hle, hat⟩)
    -- observed: the result goes through a register the event can still read
    refine Triple.tempUnless_bind _ dst fun out m₃ => ?_
    refine Triple.pre (fun r ⟨⟨⟨hle, hx, hy⟩, hle₃, hout, hd⟩, hat⟩ => ⟨⟨hle.trans hle₃, hd, hout,
        hx.mono hle₃, hy.mono hle₃⟩, hat, Mark.emits_arith harith hout (hx.mono hle₃)
        (hy.mono hle₃)⟩)
      ((Triple.pure_and (c := m.enter.Le m₃ ∧ m₃.IsReg dst ∧ m₃.IsReg out ∧ m₃.IsOperand x ∧
        m₃.IsOperand y) (Triple.emitABC (Nat.le_succ 0) _ _ _ _ _)).bind fun _ => ?_)
    refine Triple.pre (fun r ⟨hc, hat⟩ => ⟨hc, hat, Mark.notes_of .binary rfl fun c hc' =>
        ⟨hc.2.2.2.1.1.isRKId hc', hc.2.2.2.2.1.isRKId hc', hc.2.2.1.isRegId hc'⟩⟩)
      ((Triple.pure_and (Triple.notify (Nat.le_succ 0) _
        ⟨.binary, hb (by simpa using hnb), rfl⟩)).bind fun _ => ?_)
    apply Triple.ite
    · intro _
      exact Triple.pre (fun r ⟨⟨hle, hd, hout, _⟩, hat⟩ => ⟨hle, hat, Mark.emits_move hd hout⟩)
        ((Triple.pure_and (Triple.emitABC (Nat.le_succ 0) _ _ _ _ _)).post
          fun _ r ⟨hle, hat⟩ => ⟨m₃, hle, hat⟩)
    · intro _
      exact Triple.pure fun r ⟨⟨hle, _⟩, hat⟩ => ⟨m₃, hle, hat⟩

theorem unaryInto_sound (s : Span) (op : Int) (operandName : String) {operand : Code}
    (h : operand.Sound o) : IntoSound o (unaryInto s op operandName operand) := by
  intro g m ms dst
  -- after the operation: the event, when observed, and the copy into `dst`
  have htail : ∀ (observed : Bool), (observed = true → Kind.unary ∈ o.listened) →
      ∀ (x out : Nat) (m' : Mark),
      Triple o (fun r => (m.enter.Le m' ∧ m'.IsReg dst ∧ m'.IsReg out ∧ m'.IsOperand x) ∧
        At g (m' :: ms) r 0)
      (if observed = true then
        notify { kind := Kind.unary.code, span := s, op := op, left := x,
                 leftName := operandName, result := out } >>= fun _ =>
          if (out != dst) = true then emitABC .move dst out 0 s else Pure.pure ()
      else if (out != dst) = true then emitABC .move dst out 0 s else Pure.pure ())
      (fun _ r => ∃ m', m.enter.Le m' ∧ At g (m' :: ms) r 0) := by
    intro observed hobs x out m'
    have hmove : Triple o (fun r => (m.enter.Le m' ∧ m'.IsReg dst ∧ m'.IsReg out ∧
        m'.IsOperand x) ∧ At g (m' :: ms) r 0)
        (if (out != dst) = true then emitABC .move dst out 0 s else Pure.pure ())
        (fun _ r => ∃ m', m.enter.Le m' ∧ At g (m' :: ms) r 0) := by
      apply Triple.ite
      · intro _
        exact Triple.pre (fun r ⟨⟨hle, hd, hout, _⟩, hat⟩ => ⟨hle, hat, Mark.emits_move hd hout⟩)
          ((Triple.pure_and (Triple.emitABC (Nat.le_succ 0) _ _ _ _ _)).post
            fun _ r ⟨hle, hat⟩ => ⟨m', hle, hat⟩)
      · intro _
        exact Triple.pure fun r ⟨⟨hle, _⟩, hat⟩ => ⟨m', hle, hat⟩
    refine Triple.ite (fun hob => ?_) (fun _ => hmove)
    exact Triple.pre (fun r ⟨hc, hat⟩ => ⟨hc, hat, Mark.notes_of .unary rfl fun c hc' =>
        ⟨hc.2.2.2.1.isRKId hc', hc.2.2.1.isRegId hc'⟩⟩)
      ((Triple.pure_and (Triple.notify (Nat.le_succ 0) _ ⟨.unary, hobs hob, rfl⟩)).bind
        fun _ => hmove)
  refine Triple.inScope_and (h.operand.bind fun x m₁ => ?_)
  refine Triple.pre (P := fun r => ((m.enter.Le m₁ ∧ m₁.IsOperand x) ∧ m₁.IsReg dst) ∧
      At g (m₁ :: ms) r 0)
    (fun r ⟨⟨hd, hle₁, hx⟩, hat⟩ => ⟨⟨⟨hle₁, hx⟩, hd.enter.mono hle₁⟩, hat⟩) ?_
  refine Triple.listening_bind .unary fun observed hobs => ?_
  refine Triple.tempUnless_bind _ dst fun out m₂ => ?_
  refine Triple.pre (P := fun r => (m.enter.Le m₂ ∧ m₂.IsReg dst ∧ m₂.IsReg out ∧
      m₂.IsOperand x) ∧ At g (m₂ :: ms) r 0)
    (fun r ⟨⟨⟨hle₁, hx⟩, hle₂, hout, hd⟩, hat⟩ => ⟨⟨hle₁.trans hle₂, hd, hout, hx.mono hle₂⟩, hat⟩)
    ?_
  dsimp only
  split
  · -- unary plus adds the operand to the constant zero
    refine Triple.numberOperand_bind 0 s fun zeroId m₃ => ?_
    refine Triple.pre (fun r ⟨⟨⟨hle, hd, hout, hx⟩, hle₃, hzero⟩, hat⟩ => ⟨⟨hle.trans hle₃,
        hd.mono hle₃, hout.mono hle₃, hx.mono hle₃⟩, hat,
        Mark.emits_arith (rfl : Op.add.isArith = true) (hout.mono hle₃) hzero (hx.mono hle₃)⟩)
      ((Triple.pure_and (Triple.emitABC (Nat.le_succ 0) _ _ _ _ _)).bind fun _ => htail _ hobs _ _ m₃)
  · exact Triple.pre (fun r ⟨hc, hat⟩ => ⟨hc, hat, Mark.emits_unary (Or.inl rfl) hc.2.2.1 hc.2.2.2⟩)
      ((Triple.pure_and (Triple.emitABC (Nat.le_succ 0) _ _ _ _ _)).bind fun _ => htail _ hobs _ _ m₂)
  · exact Triple.pre (fun r ⟨hc, hat⟩ => ⟨hc, hat, Mark.emits_unary (Or.inr rfl) hc.2.2.1 hc.2.2.2⟩)
      ((Triple.pure_and (Triple.emitABC (Nat.le_succ 0) _ _ _ _ _)).bind fun _ => htail _ hobs _ _ m₂)
  · exact Triple.throw_bind

theorem unaryCode_sound (s : Span) (op : Int) (operandName : String) {operand : Code}
    (h : operand.Sound o) : (unaryCode s op operandName operand).Sound o := by
  have base := Code.ofInto_sound s (unaryInto_sound s op operandName h)
  refine ⟨base.into, base.operand, fun g m ms sense => ?_⟩
  refine Triple.listening_bind .unary fun observed _ => Triple.ite (fun _ => ?_) (fun _ => ?_)
  · exact h.branch g m ms _
  · exact base.branch g m ms sense

theorem indexCode_sound (s : Span) {container key : Code} (hc : container.Sound o)
    (hk : key.Sound o) : (indexCode s container key).Sound o := by
  refine Code.ofInto_sound s fun g m ms dst => Triple.inScope_and ?_
  refine (registerOf_sound _ hc.operand).bind fun x m₁ => hk.operand.bind fun y m₂ => ?_
  exact Triple.pre (fun r ⟨⟨⟨hd, hle₁, hx⟩, hle₂, hy⟩, hat⟩ => ⟨hle₁.trans hle₂, hat,
      Mark.emits_getElem (hd.enter.mono (hle₁.trans hle₂)) (hx.mono hle₂) hy⟩)
    ((Triple.pure_and (Triple.emitABC (Nat.le_succ 0) _ _ _ _ _)).post
      fun _ r ⟨hle, hat⟩ => ⟨m₂, hle, hat⟩)

end Operators

end ScriptMachine.Compiler
