import ScriptMachine.Compiler.Stmt
import ScriptMachine.Proofs.Compiler.Expressions
/-!
# Every compiled statement keeps the invariant

A statement compiles into the innermost open function and leaves its mark as it found it
(`Keeps`): the registers it takes are scoped, and what it adds to the tables only raises the
mark's lower bounds. A function definition opens a function, compiles its body, and closes it
with a `RETURN` into a chunk that is well formed where it is defined.

The main statement, `compile_wellFormed`, follows: every chunk the compiler returns is well
formed, with its nested chunks, against its own global table.
-/

namespace ScriptMachine.Compiler

open Bytecode Instruction

variable {o : Options}

def Keeps (o : Options) (act : GenM Unit) : Prop :=
  ∀ g m ms, Triple o (fun r => At g (m :: ms) r 0) act (fun _ r => At g (m :: ms) r 0)

/-! ## Assignments -/

section Assign

variable {g : Nat} {m : Mark} {ms : List Mark}

theorem store_sound (target : Syntax.Expr) (src : Nat) (s : Span) :
    Triple o (fun r => m.IsOperand src ∧ At g (m :: ms) r 0) (store target src s)
      (fun _ r => ∃ m', m.Le m' ∧ At g (m' :: ms) r 0) := by
  unfold store
  split
  · rename_i name
    refine (Triple.pure_and (Triple.targetOf name s)).bind fun v => ?_
    refine Triple.pre (fun r ⟨hsrc, hf, hp⟩ => ⟨⟨hsrc, hp⟩, hf⟩)
      (Triple.found_pre (c := m.IsOperand src ∧ v.place ≠ .capture) fun g' m' => ?_)
    refine Triple.pre (P := fun r => (g ≤ g' ∧ m.Le m' ∧ m'.IsOperand src ∧ v.Valid g' m' ∧
        v.place ≠ .capture) ∧ At g' (m' :: ms) r 0)
      (fun r ⟨⟨⟨hsrc, hp⟩, hg, hle, _, hv⟩, hat⟩ => ⟨⟨hg, hle, hsrc.mono hle, hv, hp⟩, hat⟩) ?_
    -- the assignment site, once the value is in place
    have hnotify : ∀ (storage : Int) (x : Nat) (m'' : Mark), Triple o
        (fun r => ((g ≤ g' ∧ m.Le m'') ∧ m''.IsRK x) ∧ At g' (m'' :: ms) r 0)
        (notifyAssign s name storage x) (fun _ r => ∃ m', m.Le m' ∧ At g (m' :: ms) r 0) :=
      fun storage x m'' => Triple.pre (fun r ⟨⟨hgl, hx⟩, hat⟩ => ⟨hgl, hat, hx⟩)
        ((Triple.pure_and (c := g ≤ g' ∧ m.Le m'') (Triple.notifyAssign s name storage x)).post
          fun _ r ⟨⟨hg, hle⟩, hat⟩ => ⟨m'', hle, hat.lower hg⟩)
    apply Triple.ite
    · -- a register of the function: the operand is loaded or moved into it
      intro hplace
      have hreg : ∀ {c : Prop}, (c ∧ v.Valid g' m' ∧ v.place ≠ .capture) → m'.IsReg v.index :=
        fun h => h.2.1.isReg (eq_of_beq hplace)
      have hnext : Triple o (fun r => (g ≤ g' ∧ m.Le m' ∧ m'.IsOperand src ∧ v.Valid g' m' ∧
          v.place ≠ .capture) ∧ At g' (m' :: ms) r 0) (notifyAssign s name 1 v.index)
          (fun _ r => ∃ m', m.Le m' ∧ At g (m' :: ms) r 0) :=
        Triple.pre (fun r ⟨⟨hg, hle, hc⟩, hat⟩ => ⟨⟨⟨hg, hle⟩,
          (hreg hc).isRK (hat.isReg_lt (hreg hc))⟩, hat⟩) (hnotify 1 v.index m')
      refine Triple.ite (fun hge => ?_) (fun hlt => Triple.ite (fun _ => ?_) (fun _ => hnext))
      · exact (Triple.carry (fun ⟨_, _, hsrc, hv⟩ => ⟨hreg ⟨hsrc, hv⟩,
          hsrc.1.const (Nat.not_lt.mpr hge)⟩) (Triple.loadK v.index src s)).bind fun _ => hnext
      · exact (Triple.carry (fun ⟨_, _, hsrc, hv⟩ => Mark.emits_move (hreg ⟨hsrc, hv⟩)
          (hsrc.1.isReg (Nat.lt_of_not_le hlt))) (Triple.emitABC (Nat.le_succ 0) _ _ _ _ _)).bind
          fun _ => hnext
    · -- a global slot, written from a register
      intro hplace
      have hslot : ∀ {c : Prop}, (c ∧ v.Valid g' m' ∧ v.place ≠ .capture) → v.index < g' :=
        fun ⟨_, hv, hp⟩ => hv.global_lt (by cases h : v.place <;> simp_all)
      refine Triple.grow_bind (Triple.inRegister src s) (fun h => h.2.2.1.1) fun x m'' => ?_
      refine (Triple.carry (fun ⟨hc, _, hx⟩ => Mark.emits_global (Or.inr rfl) hx
        (hslot hc.2.2)) (Triple.emitABx (Nat.le_succ 0) _ _ _ _)).bind fun _ => ?_
      exact Triple.pre (fun r ⟨⟨⟨hg, hle, _⟩, hle'', hx⟩, hat⟩ => ⟨⟨⟨hg, hle.trans hle''⟩,
        hx.isRK (hat.isReg_lt hx)⟩, hat⟩) (hnotify 0 x m'')
  · -- an element: container, key and value all live while `SETELEM` runs
    rename_i container key
    refine (Triple.inScope_and (c := m.IsOperand src) ?_).post fun _ r hat => ⟨m, Mark.Le.refl m, hat⟩
    refine (registerOf_sound _ (gen_sound container).operand).bind fun x m₁ =>
      (gen_sound key).operand.bind fun y m₂ => ?_
    refine Triple.pre (P := fun r => (m.enter.Le m₂ ∧ m₂.IsReg x ∧ m₂.IsOperand y ∧
        m₂.IsOperand src) ∧ At g (m₂ :: ms) r 0)
      (fun r ⟨⟨⟨hsrc, hle₁, hx⟩, hle₂, hy⟩, hat⟩ => ⟨⟨hle₁.trans hle₂, hx.mono hle₂, hy,
        hsrc.mono (hle₁.trans hle₂)⟩, hat⟩) ?_
    refine (Triple.carry (fun ⟨_, hx, hy, hsrc⟩ => Mark.emits_setElem hx hy hsrc)
      (Triple.emitABC (Nat.le_succ 0) _ _ _ _ _)).bind fun _ => ?_
    refine Triple.listening_bind .subscriptAssignment fun b hb => Triple.ite (fun hb' => ?_)
      (fun _ => ?_)
    · refine (Triple.pure_and (Triple.storageOf _)).bind fun _ => ?_
      exact Triple.post (Triple.carry (fun hc => Mark.notes_of .subscriptAssignment rfl
          fun c hc' => ⟨hc.2.2.1.1.isRKId hc', hc.2.2.2.1.isRKId hc'⟩)
        (Triple.notify (Nat.le_succ 0) _ ⟨.subscriptAssignment, hb (Bool.and_eq_true_iff.mp hb').2,
          rfl⟩)) fun _ r ⟨⟨hle, _⟩, hat⟩ => ⟨m₂, hle, hat⟩
    · exact Triple.pure fun r ⟨⟨hle, _⟩, hat⟩ => ⟨m₂, hle, hat⟩
  · exact Triple.errorAt _ _ _

theorem Triple.operandStore {target : Syntax.Expr} (value : Syntax.Expr) (s : Span) :
    Triple o (fun r => At g (m :: ms) r 0) ((gen value).operand >>= fun x => store target x s)
      (fun _ r => ∃ m', m.Le m' ∧ At g (m' :: ms) r 0) :=
  Triple.pre (fun _ hat => ⟨trivial, hat⟩) ((gen_sound value).operand.bind fun x _ =>
    Triple.post (Triple.pre (fun _ ⟨⟨_, hle, hx⟩, hat⟩ => ⟨hle, hx, hat⟩)
      (Triple.pure_and (store_sound target x s)))
      fun _ _ ⟨hle, m₂, hle₂, hat⟩ => ⟨m₂, hle.trans hle₂, hat⟩)

theorem assignSingle_sound (target value : Syntax.Expr) (s : Span) :
    Triple o (fun r => At g (m :: ms) r 0) (assignSingle target value s)
      (fun _ r => ∃ m', m.Le m' ∧ At g (m' :: ms) r 0) := by
  unfold assignSingle
  split
  · rename_i name
    refine (Triple.targetOf name s).bind fun v => Triple.ite (fun hplace => ?_)
      (fun _ => Triple.pre (fun _ h => h.1.at) (Triple.operandStore value s))
    -- a local receives the value directly
    refine Triple.pre (fun r ⟨hf, _⟩ => ⟨trivial, hf⟩) (Triple.found_pre fun g' m' => ?_)
    refine Triple.pre (P := fun r => ((g ≤ g' ∧ m.Le m') ∧ m'.IsReg v.index ∧
        v.index < registerLimit) ∧ At g' (m' :: ms) r 0)
      (fun r ⟨⟨_, hg, hle, _, hv⟩, hat⟩ => ⟨⟨⟨hg, hle⟩, hv.isReg (eq_of_beq hplace),
        hat.isReg_lt (hv.isReg (eq_of_beq hplace))⟩, hat⟩) ?_
    refine (Triple.pre (fun r ⟨hc, hat⟩ => ⟨hc, hc.2.1, hat⟩)
      (Triple.pure_and ((gen_sound value).into g' m' ms v.index))).bind fun _ => ?_
    exact Triple.post (Triple.carry (fun hc => hc.2.1.isRK hc.2.2)
      (Triple.notifyAssign s name 1 v.index)) fun _ r ⟨⟨⟨hg, hle⟩, _⟩, hat⟩ => ⟨m', hle, hat.lower hg⟩
  · exact Triple.operandStore value s
  · exact Triple.errorAt _ _ _

theorem assign_sound (s : Span) (targets values : List Syntax.Expr) :
    Keeps o (assign s targets values) := by
  intro g m ms
  refine Triple.inScope ?_
  dsimp only
  split
  · exact assignSingle_sound _ _ s
  refine Triple.ite (fun _ => ?_) (fun _ => Triple.ite (fun _ => ?_) (fun _ => Triple.ite
    (fun hn => ?_) (fun _ => Triple.errorAt _ _ _)))
  · -- several values packed into a tuple for one target
    refine Triple.temp.bind fun t => ?_
    refine Triple.pre (fun r ⟨ht, hat⟩ => ⟨ht ▸ m.enter.isReg_alloc, ht ▸ m.enter.isReg_alloc, hat⟩)
      ((Triple.pure_and (sequenceInto_sound (Or.inr rfl) s (genAll_sound values) g m.enter.alloc ms
        t)).bind fun _ => ?_)
    exact Triple.post (Triple.pre (fun r ⟨ht, hat⟩ => ⟨ht.isOperand (hat.isReg_lt ht), hat⟩)
      (store_sound _ t s)) fun _ r ⟨m', hle, hat⟩ => ⟨m', m.enter.le_alloc.trans hle, hat⟩
  · -- one value unpacked by position over several targets
    refine Triple.temp.bind fun src => ?_
    refine Triple.pre (fun r ⟨ht, hat⟩ => ⟨ht ▸ m.enter.isReg_alloc, ht ▸ m.enter.isReg_alloc, hat⟩)
      ((Triple.pure_and ((gen_sound _).into g m.enter.alloc ms src)).bind fun _ => ?_)
    refine Triple.post (Triple.forM (I := fun r => m.enter.alloc.IsReg src ∧
      At g (m.enter.alloc :: ms) r 0) fun p _ => ?_) fun _ r ⟨_, hat⟩ => ⟨_, m.enter.le_alloc, hat⟩
    obtain ⟨target, i⟩ := p
    -- element `i` is read into a register of its own scope, then stored
    refine Triple.pre (fun r ⟨h, hat⟩ => ⟨h, h, hat⟩) (Triple.pure_and (Triple.inScope_and ?_))
    refine (Triple.pure_and Triple.temp).bind fun elem => ?_
    refine Triple.pre (fun r ⟨hsrc, he, hat⟩ => ⟨⟨hsrc, he⟩, hat⟩)
      (Triple.numberOperand_bind (c := m.enter.alloc.IsReg src ∧ elem = m.enter.alloc.enter.next)
        (Float.ofNat i) s fun key m₃ => ?_)
    refine (Triple.carry (fun ⟨⟨hsrc, he⟩, hle, hkey⟩ => Mark.emits_getElem
      (he ▸ (Mark.isReg_alloc _).mono hle) (hsrc.enter.mono (Mark.le_alloc _ |>.trans hle)) hkey)
      (Triple.emitABC (Nat.le_succ 0) _ _ _ _ _)).bind fun _ => ?_
    refine Triple.post (Triple.pre (fun r ⟨⟨⟨_, he⟩, hle, _⟩, hat⟩ => ⟨hle, ?_, hat⟩)
      (Triple.pure_and (store_sound target elem s)))
      fun _ r ⟨hle, m₄, hle₄, hat⟩ => ⟨m₄, (Mark.le_alloc _).trans (hle.trans hle₄), hat⟩
    have hreg := he ▸ (Mark.isReg_alloc _).mono hle
    exact hreg.isOperand (hat.isReg_lt hreg)
  · -- pairwise: all values first, into consecutive registers, then the stores
    have hlen : targets.length = values.length := eq_of_beq hn
    refine (Triple.temps _).bind fun base => Triple.exists_pre fun m₁ => ?_
    refine Triple.pre (fun r ⟨hle, hat, hbase⟩ => ⟨⟨hle, hbase⟩, hat⟩)
      ((Triple.forM (I := fun r => (m.enter.Le m₁ ∧ (values.length = 0 ∧ base = 0 ∨
        (base : Int) + values.length ≤ m₁.regs)) ∧ At g (m₁ :: ms) r 0)
        fun p hp => ?_).bind fun _ => ?_)
    · obtain ⟨v, i⟩ := p
      have hi : i < values.length := by simpa using List.snd_lt_of_mem_zipIdx hp
      exact Triple.intoBlock (gen_sound v) fun hc => Mark.isReg_block hc.2 hi
    refine Triple.pre (fun r h => ⟨m₁, h⟩) (Triple.post (Triple.forM (I := fun r => ∃ m',
      (m.enter.Le m' ∧ (values.length = 0 ∧ base = 0 ∨ (base : Int) + values.length ≤ m'.regs)) ∧
        At g (m' :: ms) r 0) fun p hp => Triple.exists_pre fun m₂ => ?_)
      fun _ r ⟨m', ⟨hle, _⟩, hat⟩ => ⟨m', hle, hat⟩)
    obtain ⟨target, i⟩ := p
    have hi : i < values.length := by simpa [hlen] using List.snd_lt_of_mem_zipIdx hp
    refine Triple.post (Triple.pre (fun r ⟨hc, hat⟩ => ⟨hc, ?_, hat⟩)
      (Triple.pure_and (store_sound target (base + i) s)))
      fun _ r ⟨⟨hle, hbase⟩, m₃, hle₃, hat⟩ => ⟨m₃, ⟨hle.trans hle₃,
        hbase.imp id fun h => Int.le_trans h hle₃.regs⟩, hat⟩
    have hreg := Mark.isReg_block hc.2 hi
    exact hreg.isOperand (hat.isReg_lt hreg)

end Assign

/-! ## Expression statements and returns -/

section Values

variable {g : Nat} {m : Mark} {ms : List Mark}

theorem evalStmt_sound (e : Syntax.Expr) : Keeps o (evalStmt e) := by
  intro g m ms
  refine Triple.inScope ?_
  refine (Triple.read (Q := fun _ r => At g (m.enter :: ms) r 0) fun _ h => h).bind fun opts => ?_
  refine (Triple.post Triple.inFunction fun _ _ h => h.2).bind fun b => Triple.ite (fun _ => ?_)
    (fun _ => ?_)
  all_goals
    refine Triple.temp.bind fun t => Triple.post (Q := fun _ r => At g (m.enter.alloc :: ms) r 0)
      (Triple.pre (P := fun r => m.enter.alloc.IsReg t ∧ At g (m.enter.alloc :: ms) r 0)
        (fun r ⟨ht, hat⟩ => ⟨ht ▸ m.enter.isReg_alloc, hat⟩) ?_)
      fun _ r hat => ⟨_, m.enter.le_alloc, hat⟩
  · have hargs : ∀ x ∈ [gen e], x.Sound o := fun x hx => by
      rw [List.mem_singleton] at hx
      exact hx ▸ gen_sound e
    exact callInto_sound _ _ (gen_sound _) hargs _ _ _ _
  · exact (gen_sound e).into _ _ _ _

theorem returnStmt_sound (s : Span) (values : List Syntax.Expr) :
    Keeps o (returnStmt s values) := by
  intro g m ms
  refine Triple.inFunction.bind fun b => Triple.ite (fun _ => Triple.errorAt _ _ _)
    (fun _ => Triple.pre (fun _ h => h.2) (Triple.inScope ?_))
  split
  · exact Triple.post (Triple.pre (fun r hat => ⟨hat, Mark.emits_ret_none⟩)
      (Triple.emitABC (Nat.le_succ 0) _ _ _ _ _)) fun _ r hat => ⟨_, Mark.Le.refl _, hat⟩
  · refine Triple.pre (fun _ hat => ⟨trivial, hat⟩)
      ((registerOf_sound _ (gen_sound _).operand).bind fun x m₁ => ?_)
    exact Triple.post (Triple.carry (fun ⟨_, _, hx⟩ => Mark.emits_ret hx)
      (Triple.emitABC (Nat.le_succ 0) _ _ _ _ _)) fun _ r ⟨⟨_, hle, _⟩, hat⟩ => ⟨m₁, hle, hat⟩
  · refine Triple.temp.bind fun t => ?_
    refine Triple.pre (fun r ⟨ht, hat⟩ => ⟨ht ▸ m.enter.isReg_alloc, ht ▸ m.enter.isReg_alloc, hat⟩)
      ((Triple.pure_and (sequenceInto_sound (Or.inr rfl) s (genAll_sound values) g m.enter.alloc ms
        t)).bind fun _ => ?_)
    exact Triple.post (Triple.carry (fun ht => Mark.emits_ret ht)
      (Triple.emitABC (Nat.le_succ 0) _ _ _ _ _)) fun _ r ⟨_, hat⟩ => ⟨_, m.enter.le_alloc, hat⟩

end Values

/-! ## Tagged regions -/

section Tags

variable {g : Nat} {m : Mark} {ms : List Mark}

theorem foldl_invariant {α β : Type} {f : β → α → β} (I : β → Prop) (h : ∀ b a, I b → I (f b a)) :
    ∀ (xs : List α) (b : β), I b → I (xs.foldl f b)
  | [], _, hb => hb
  | x :: xs, b, hb => foldl_invariant I h xs (f b x) (h b x hb)

theorem tagDescs_values (tags : List Syntax.Tag) (values : List Nat) :
    ∀ d ∈ tagDescs tags (some values), ∀ v ∈ d.values, ∃ x ∈ values, v = x := by
  intro d hd v hv
  unfold tagDescs at hd
  dsimp only [Option.getD] at hd
  -- the descriptions so far draw their values from the list, and so does what is left of it
  refine (foldl_invariant (fun acc : Array TagDesc × List Nat =>
    (∀ d ∈ acc.1, ∀ v ∈ d.values, ∃ x ∈ values, v = x) ∧ ∀ x ∈ acc.2, x ∈ values) ?_ tags
    (#[], values) ⟨fun _ h => by simp at h, fun _ h => h⟩).1 d hd v hv
  rintro ⟨descs, rest⟩ t ⟨hdescs, hrest⟩
  refine ⟨fun d hd v hv => ?_, fun x hx => hrest x (List.mem_of_mem_drop hx)⟩
  rcases Array.mem_push.mp hd with hd | rfl
  · exact hdescs d hd v hv
  · simp only [List.mem_toArray, List.mem_map] at hv
    obtain ⟨x, hx, rfl⟩ := hv
    exact ⟨x, hrest x (List.mem_of_mem_take hx), rfl⟩

theorem tagExit_sound (s : Span) (tags : List Syntax.Tag) : Keeps o (tagExit s tags) := by
  intro g m ms
  unfold tagExit
  refine Triple.listening_bind .vtagExited fun b hb => Triple.ite
    (fun hb' => Triple.inScope ?_) (fun _ => Triple.pure fun _ h => h)
  refine (Yields.mapM (P := Mark.IsOperand) (fun hle hx => hx.mono hle) ?_ g m.enter ms).bind
    fun values => Triple.exists_pre fun m' => ?_
  · -- each argument goes into a register of its own, kept until the site is added
    rintro ⟨_, e⟩ _ g m ms
    refine Triple.temp.bind fun t => ?_
    refine Triple.pre (fun r ⟨ht, hat⟩ => ⟨ht ▸ m.isReg_alloc, hat⟩)
      ((Triple.intoBlock (gen_sound e) id).bind fun _ => ?_)
    exact Triple.pure fun r ⟨ht, hat⟩ => ⟨m.alloc, m.le_alloc, hat, ht.isOperand (hat.isReg_lt ht)⟩
  refine Triple.post (Triple.pre (fun r ⟨hle, hat, hvals⟩ => ⟨hle, hat, Mark.notes_of .vtagExited rfl
    fun c hc d hd v hv => ?_⟩) (Triple.pure_and (Triple.notify (Nat.le_succ 0) _
      ⟨.vtagExited, hb hb', rfl⟩)))
    fun _ r ⟨hle, hat⟩ => ⟨m', hle, hat⟩
  obtain ⟨x, hx, rfl⟩ := tagDescs_values tags values d hd v hv
  exact (hvals x hx).1.isRKId hc

end Tags

/-! ## Functions -/

section Functions

variable {g : Nat} {m : Mark} {ms : List Mark}

theorem Declared.exists_at {k : Nat} {v : Variable} {r : Resolver} (h : Declared g m ms k v r) :
    ∃ m', At g (m' :: ms) r k := by
  unfold Declared at h
  split at h
  · obtain ⟨g', hg, -, -, hat⟩ := h
    exact ⟨m, hat.lower hg⟩
  · obtain ⟨m', -, -, -, hat⟩ := h
    exact ⟨m', hat⟩

theorem declareLocals_sound (params : List String) (body : Syntax.Stmt) :
    Triple o (fun r => At g (m :: ms) r 0) (declareLocals params body)
      (fun _ r => ∃ m', At g (m' :: ms) r 0) := by
  unfold declareLocals
  have hdefine : ∀ name, Triple o (fun r => ∃ m', At g (m' :: ms) r 0)
      (liftM (Resolver.define name) >>= fun _ => Pure.pure PUnit.unit)
      (fun _ r => ∃ m', At g (m' :: ms) r 0) := fun name =>
    Triple.exists_pre fun _ => (Triple.define name).bind fun _ =>
      Triple.pure fun _ h => h.exists_at
  refine Triple.pre (fun r h => ⟨m, h⟩) ((Triple.forM fun p _ => hdefine p).bind fun _ => ?_)
  exact Triple.forM fun name _ => Triple.ite (fun _ => hdefine name)
    (fun _ => Triple.pure fun _ h => h)

theorem bindFunction_sound (s : Span) (name : String) {idx : Nat} :
    Triple o (fun r => idx < m.protos ∧ At g (m :: ms) r 0) (bindFunction s name idx)
      (fun _ r => At g (m :: ms) r 0) := by
  unfold bindFunction
  refine Triple.inScope_and ?_
  refine (Triple.pure_and (Triple.targetOf name s)).bind fun v => ?_
  refine Triple.pre (fun r ⟨hidx, hf, hp⟩ => ⟨⟨hidx, hp⟩, hf⟩)
    (Triple.found_pre (c := idx < m.enter.protos ∧ v.place ≠ .capture) fun g' m' => ?_)
  refine Triple.ite (fun hplace => ?_) (fun hplace => ?_)
  · exact Triple.post (Triple.carry (fun ⟨⟨hidx, _⟩, _, hle, _, hv⟩ => Mark.emits_closure
      (hv.isReg (eq_of_beq hplace)) (Nat.lt_of_lt_of_le hidx hle.protos))
      (Triple.emitABx (Nat.zero_le _) _ _ _ _)) fun _ r ⟨⟨_, hg, hle, _⟩, hat⟩ =>
        ⟨m', hle, hat.lower hg⟩
  · -- a global slot: the closure goes through a register taken for good
    refine (Triple.pure_and Triple.temp).bind fun t => ?_
    refine Triple.pre (P := fun r => ((g ≤ g' ∧ m.enter.Le m'.alloc ∧ m'.alloc.IsReg t ∧
        idx < m'.alloc.protos ∧ v.index < g') ∧ At g' (m'.alloc :: ms) r 0))
      (fun r ⟨⟨⟨hidx, hcap⟩, hg, hle, _, hv⟩, ht, hat⟩ => ⟨⟨hg, hle.trans m'.le_alloc,
        ht ▸ m'.isReg_alloc, Nat.lt_of_lt_of_le hidx hle.protos,
        hv.global_lt (by cases h : v.place <;> simp_all)⟩, hat⟩) ?_
    refine (Triple.carry (fun hc => Mark.emits_closure hc.2.2.1 hc.2.2.2.1)
      (Triple.emitABx (Nat.zero_le (0 + 1)) _ _ _ _)).bind fun _ => ?_
    exact Triple.post (Triple.carry (fun hc => Mark.emits_global (Or.inr rfl) hc.2.2.1 hc.2.2.2.2)
      (Triple.emitABx (Nat.zero_le _) _ _ _ _)) fun _ r ⟨⟨hg, hle, _⟩, hat⟩ =>
        ⟨m'.alloc, hle, hat.lower hg⟩

end Functions

/-! ## Statements -/

section Stmts

variable {g : Nat} {m : Mark} {ms : List Mark}

theorem loop_sound (s : Span) (test : Syntax.Expr) (body : Syntax.Stmt)
    (hbody : Keeps o (stmt body)) : Keeps o (stmt (.loop s test body)) := by
  intro g m ms
  rw [stmt]
  exact Triple.here.bind fun start => (Triple.step s).bind fun _ =>
    ((gen_sound test).branch g m ms false).bind fun exit => (hbody g m ms).bind fun _ =>
      (Triple.jump (Nat.zero_le _) s).bind fun back => (Triple.patch [back] start).bind fun _ =>
        Triple.patchHere exit

theorem condSkip_sound (s : Span) (test : Syntax.Expr) (yes : Syntax.Stmt)
    (hyes : Keeps o (stmt yes)) : Keeps o (stmt (.cond s test yes none)) := by
  intro g m ms
  rw [stmt]
  exact (Triple.step s).bind fun _ => ((gen_sound test).branch g m ms false).bind fun skip =>
    (hyes g m ms).bind fun _ => Triple.patchHere skip

theorem condElse_sound (s : Span) (test : Syntax.Expr) (yes no : Syntax.Stmt)
    (hyes : Keeps o (stmt yes)) (hno : Keeps o (stmt no)) :
    Keeps o (stmt (.cond s test yes (some no))) := by
  intro g m ms
  rw [stmt]
  exact (Triple.step s).bind fun _ => ((gen_sound test).branch g m ms false).bind fun skip =>
    (hyes g m ms).bind fun _ => (Triple.jump (Nat.zero_le _) s).bind fun exit =>
      (Triple.patchHere skip).bind fun _ => (hno g m ms).bind fun _ => Triple.patchHere [exit]

theorem each_sound (s : Span) (var : String) (varSpan : Span) (seq : Syntax.Expr)
    (body : Syntax.Stmt) (hbody : Keeps o (stmt body)) :
    Keeps o (stmt (.each s var varSpan seq body)) := by
  intro g m ms
  rw [stmt]
  refine (Triple.step s).bind fun _ => Triple.inScope ?_
  refine (Triple.temps 3).bind fun base => Triple.exists_pre fun m₁ => ?_
  have hreg : ∀ {m' : Mark} (i : Nat), i ≤ 2 → ((base + 2 : Nat) : Int) < m'.regs →
      m'.IsReg (base + i) := fun i hi h => by
    unfold Mark.IsReg
    omega
  refine Triple.pre (P := fun r => (m.enter.Le m₁ ∧ ((base + 2 : Nat) : Int) < m₁.regs) ∧
      At g (m₁ :: ms) r 0) (fun r ⟨hle, hat, hbase⟩ => ⟨⟨hle, by omega⟩, hat⟩) ?_
  refine (Triple.intoBlock (gen_sound seq) fun hc => hreg 0 (Nat.zero_le 2) hc.2).bind fun _ => ?_
  refine (Triple.carry (fun hc => Mark.emits_forJump (Or.inl rfl) hc.2)
    (Triple.openJump (Nat.zero_le (0 + 1)) _ _ _)).bind fun prep => Triple.here.bind fun bodyPc => ?_
  -- the variable is stored from the third register before each run of the body
  refine (Triple.pre (fun r ⟨hc, hat⟩ => ⟨hc, (hreg 2 (Nat.le_refl 2) hc.2).isOperand
      (hat.isReg_lt (hreg 2 (Nat.le_refl 2) hc.2)), hat⟩)
    (Triple.pure_and (store_sound _ _ varSpan))).bind fun _ => ?_
  refine Triple.pre (fun r ⟨⟨hle₁, hb⟩, m₂, hle₂, hat⟩ => ⟨m₂, ⟨hle₁.trans hle₂,
      Int.lt_of_lt_of_le hb hle₂.regs⟩, hat⟩)
    (Triple.exists_pre (P := fun m₂ r => (m.enter.Le m₂ ∧ ((base + 2 : Nat) : Int) < m₂.regs) ∧
      At g (m₂ :: ms) r 0) fun m₂ => ?_)
  refine (Triple.pure_and (hbody g m₂ ms)).bind fun _ => ?_
  refine (Triple.carry (fun hc => Mark.emits_forJump (Or.inr rfl) hc.2)
    (Triple.openJump (Nat.zero_le (0 + 1)) _ _ _)).bind fun loop => ?_
  refine (Triple.pure_and (Triple.patch [loop] bodyPc)).bind fun _ => ?_
  exact Triple.post (Triple.pure_and (Triple.patch [prep] loop)) fun _ r ⟨⟨hle, _⟩, hat⟩ =>
    ⟨m₂, hle, hat⟩

theorem define_sound (s : Span) (name : String) (params : List String) (body : Syntax.Stmt)
    (hbody : Keeps o (stmt body)) : Keeps o (stmt (.define s name params body)) := by
  intro g m ms
  rw [stmt]
  refine (Triple.step s).bind fun _ => (Triple.beginFunction name _ false).bind fun _ => ?_
  refine (declareLocals_sound params body).bind fun _ => Triple.exists_pre fun m₁ => ?_
  refine (hbody g m₁ (m :: ms)).bind fun _ => Triple.close _ fun c => ?_
  refine Triple.pushProto c fun idx m' => ?_
  exact Triple.regrow (fun ⟨hle, hn, _⟩ => ⟨Nat.le_refl g, hle, hn⟩)
    (Triple.pre (fun r ⟨hc, hat⟩ => ⟨hc, hc.2.2, hat⟩)
      (Triple.pure_and (bindFunction_sound s name)))

theorem tagged_sound (s : Span) (tags : List Syntax.Tag) (body : List Syntax.Stmt)
    (hbody : Keeps o (stmts body)) : Keeps o (stmt (.tagged s tags body)) := by
  intro g m ms
  rw [stmt]
  refine (Triple.step s).bind fun _ => Triple.listening_bind .vtagEntered fun b hb => ?_
  -- the body and the exit site follow, after the entry site or without it
  have hrest : Triple o (fun r => At g (m :: ms) r 0) (stmts body >>= fun _ => tagExit s tags)
      (fun _ r => At g (m :: ms) r 0) :=
    (hbody g m ms).bind fun _ => tagExit_sound s tags g m ms
  dsimp only
  refine Triple.ite (fun hb' => ?_) (fun _ => hrest)
  exact (Triple.pre (fun r h => ⟨h, Mark.notes_of .vtagEntered rfl fun _ _ => trivial⟩)
    (Triple.notify (Nat.zero_le _) _ ⟨.vtagEntered, hb hb', rfl⟩)).bind fun _ => hrest

mutual

theorem stmt_sound : ∀ x : Syntax.Stmt, Keeps o (stmt x)
  | .block _ body => fun g m ms => by
    rw [stmt]
    exact stmts_sound body g m ms
  | .loop s test body => loop_sound s test body (stmt_sound body)
  | .eval s e => fun g m ms => by
    rw [stmt]
    exact (Triple.step s).bind fun _ => evalStmt_sound e g m ms
  | .assign s targets values => fun g m ms => by
    rw [stmt]
    exact (Triple.step s).bind fun _ => assign_sound s targets values g m ms
  | .cond s test yes none => condSkip_sound s test yes (stmt_sound yes)
  | .cond s test yes (some no) => condElse_sound s test yes no (stmt_sound yes) (stmt_sound no)
  | .each s var varSpan seq body => each_sound s var varSpan seq body (stmt_sound body)
  | .define s name params body => define_sound s name params body (stmt_sound body)
  | .ret s values => fun g m ms => by
    rw [stmt]
    exact (Triple.step s).bind fun _ => returnStmt_sound s values g m ms
  | .pass _ => fun _ _ _ => by
    rw [stmt]
    exact Triple.pure fun _ h => h
  | .tagged s tags body => tagged_sound s tags body (stmts_sound body)

theorem stmts_sound : ∀ xs : List Syntax.Stmt, Keeps o (stmts xs)
  | [] => fun _ _ _ => by
    rw [stmts]
    exact Triple.pure fun _ h => h
  | x :: xs => fun g m ms => by
    rw [stmts]
    exact (stmt_sound x g m ms).bind fun _ => stmts_sound xs g m ms

end

end Stmts

/-! ## Programs -/

theorem compileBody_sound (name : String) (body : List Syntax.Stmt) :
    Triple o (fun r => At 0 [] r 0) (compileBody name body)
      (fun root _ => root.WellFormed root.globals.size 0 0 ∧ root.Heard o.listened) := by
  unfold compileBody
  refine (Triple.beginFunction name _ true).bind fun _ =>
    (stmts_sound body 0 _ []).bind fun _ => Triple.close _ fun c => ?_
  refine Triple.get.bind fun r₀ => Triple.pure fun r ⟨⟨hat, hc, hh⟩, hr₀⟩ => ?_
  rw [hat.frames_nil] at hc
  rw [hr₀]
  exact ⟨hc.withGlobals r.globals, hh.congr rfl rfl⟩

theorem Resolver.reports_eq_empty {r : Resolver} (h : r.reports[0]? = none) : r.reports = #[] := by
  rw [Array.getElem?_eq_none_iff] at h
  exact Array.eq_empty_of_size_eq_zero (Nat.le_zero.mp h)

theorem compileBody_chunk {name : String} {body : List Syntax.Stmt} {root : Chunk} {r : Resolver}
    (hrun : ((compileBody name body).run o).run {} = .ok (root, r)) (hclean : r.reports = #[]) :
    root.WellFormed root.globals.size 0 0 ∧ root.Heard o.listened :=
  ((compileBody_sound name body _ _ r hrun hclean).2 ⟨trivial, Nat.zero_le _, trivial⟩
    ⟨fun _ h => by simp at h, trivial⟩).1

theorem compile_chunk_body {p : Syntax.Program} {c : Chunk} (h : compile p o = .chunk c) :
    ∃ body, p.body = some body ∧ ∃ r, ((compileBody (if p.name == "" then "<module>" else p.name)
      body).run o).run {} = .ok (c, r) ∧ r.reports = #[] := by
  unfold compile at h
  split at h
  · cases h
  · rename_i body hbody
    dsimp only at h
    split at h
    · cases h
    · rename_i root r hrun
      split at h
      · cases h
      · rename_i hreports
        split at h
        · cases h
        · cases h
          exact ⟨body, hbody, r, hrun, Resolver.reports_eq_empty hreports⟩

theorem compile_eq_chunk {p : Syntax.Program} {c : Chunk} (h : compile p o = .chunk c) :
    ∃ name body r, ((compileBody name body).run o).run {} = .ok (c, r) ∧ r.reports = #[] := by
  obtain ⟨body, -, r, hrun, hclean⟩ := compile_chunk_body h
  exact ⟨_, body, r, hrun, hclean⟩

/-- Every chunk the compiler returns is well formed, with every chunk nested in it, against the
global table it carries. -/
theorem compile_wellFormed {p : Syntax.Program} {c : Chunk} (h : compile p o = .chunk c) :
    c.WellFormed c.globals.size 0 0 := by
  obtain ⟨name, body, r, hrun, hclean⟩ := compile_eq_chunk h
  exact (compileBody_chunk hrun hclean).1

/-- What compiling a program ends in: a chunk, the compile errors, or a fault of the compile run
itself. The validation the chunk gets last never fails, so it never turns a chunk into a
fault. -/
theorem compile_outcome (p : Syntax.Program) (o : Options) :
    (∃ c, compile p o = .chunk c) ∨ (∃ d ds, compile p o = .errors d ds) ∨
      ∃ name body f, p.body = some body ∧ ((compileBody name body).run o).run {} = .error f ∧
        compile p o = .fault f := by
  cases hb : p.body with
  | none => exact .inr (.inl ⟨_, _, by rw [compile, hb]⟩)
  | some body =>
    cases hrun : ((compileBody (if p.name == "" then "<module>" else p.name) body).run o).run {}
      with
    | error f => exact .inr (.inr ⟨_, body, f, rfl, hrun, by simp only [compile, hb, hrun]⟩)
    | ok res =>
      obtain ⟨root, r⟩ := res
      cases hrep : r.reports[0]? with
      | some d => exact .inr (.inl ⟨d, r.reports, by simp only [compile, hb, hrun, hrep]⟩)
      | none =>
        -- a run without reports gives a well-formed chunk, which validation accepts
        have hwf := (compileBody_chunk hrun (Resolver.reports_eq_empty hrep)).1
        exact .inl ⟨root, by simp only [compile, hb, hrun, hrep, hwf.validate_eq_none]⟩

/-- Every `VISNOTIFY` of a chunk the compiler returns, and of the chunks nested in it, names an
event site of a kind the options listen to: with no listener there is none. -/
theorem compile_notifiesOnly {p : Syntax.Program} {c : Chunk} (h : compile p o = .chunk c) :
    c.NotifiesOnly o.listened := by
  obtain ⟨name, body, r, hrun, hclean⟩ := compile_eq_chunk h
  obtain ⟨hwf, hh⟩ := compileBody_chunk hrun hclean
  exact hwf.notifiesOnly hh

/-! ## A program with closures, evaluated -/

def Compiled.chunk? : Compiled → Option Chunk
  | .chunk c => some c
  | _ => none

theorem Compiled.exists_chunk_of {x : Compiled} {P : Chunk → Bool}
    (h : x.chunk?.map P = some true) : ∃ c, x = .chunk c ∧ P c = true := by
  cases x with
  | chunk c => exact ⟨c, rfl, Option.some.inj h⟩
  | errors => cases h
  | fault => cases h

/-- `def f(a): def g(): return a; return g`, then `x = f("s")` and `if x == "t": x = "u"`:
a function returning a closure over its parameter, a call, and a test of a global against a
string constant. -/
def closureProgram : Syntax.Program :=
  let sp := Span.empty
  ⟨"m", some
    [ .define sp "f" ["a"] (.block sp [
        .define sp "g" [] (.block sp [.ret sp [.ident sp "a"]]),
        .ret sp [.ident sp "g"]]),
      .assign sp [.ident sp "x"] [.call sp (.ident sp "f") [.str sp "s"]],
      .cond sp (.compare sp (.ident sp "x") [4] [.str sp "t"])
        (.assign sp [.ident sp "x"] [.str sp "u"]) none ]⟩

/-- The program with closures compiles to a well-formed chunk that nests a chunk capturing a
variable of the chunk around it, and branches. -/
theorem compile_wellFormed_closures :
    ∃ c, compile closureProgram {} = .chunk c ∧
      (c.protos.toList.any fun f => f.protos.toList.any fun g => !g.captures.isEmpty) = true ∧
      (c.code.toList.any fun i => i.op? == some .jmp) = true ∧
      c.WellFormed c.globals.size 0 0 := by
  obtain ⟨c, hc, hshape⟩ := Compiled.exists_chunk_of (x := compile closureProgram {})
    (P := fun c => (c.protos.toList.any fun f => f.protos.toList.any fun g => !g.captures.isEmpty)
      && c.code.toList.any fun i => i.op? == some .jmp) (by decide +kernel)
  rw [Bool.and_eq_true] at hshape
  exact ⟨c, hc, hshape.1, hshape.2, compile_wellFormed hc⟩

/-- Compiled for assignment listeners only, the program with closures notifies of its
assignments and of nothing else, although it compares and calls: listening to comparisons too
adds a comparison site. -/
theorem compile_notifiesOnly_assignments :
    ∃ c, compile closureProgram { listened := [.assignment] } = .chunk c ∧
      (c.notifications.toList.any fun n => n.kind == Kind.assignment.code) = true ∧
      c.NotifiesOnly [.assignment] ∧
      ∃ c', compile closureProgram { listened := [.assignment, .comparison] } = .chunk c' ∧
        (c'.notifications.toList.any fun n => n.kind == Kind.comparison.code) = true := by
  obtain ⟨c, hc, hsite⟩ := Compiled.exists_chunk_of
    (x := compile closureProgram { listened := [.assignment] })
    (P := fun c => c.notifications.toList.any fun n => n.kind == Kind.assignment.code)
    (by decide +kernel)
  obtain ⟨c', hc', hsite'⟩ := Compiled.exists_chunk_of
    (x := compile closureProgram { listened := [.assignment, .comparison] })
    (P := fun c => c.notifications.toList.any fun n => n.kind == Kind.comparison.code)
    (by decide +kernel)
  exact ⟨c, hc, hsite, compile_notifiesOnly hc, c', hc', hsite'⟩

end ScriptMachine.Compiler
