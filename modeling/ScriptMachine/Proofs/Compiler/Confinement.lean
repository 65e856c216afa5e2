import ScriptMachine.Compiler.Stmt
import ScriptMachine.Proofs.Compiler.Quiet
import ScriptMachine.Proofs.Machine.Depth
/-!
# Code that stays in its region

A run of compiled code leaves a construct's code only through its end: every jump of a statement
or an expression lands inside the construct or just after it, a test skips only within it, and
the jumps that still wait for a target are handed to the construct around it. The construct also
spares the registers it must not touch, such as the sequence and position of an enclosing `for`
loop: those lie below the next free register while it is compiled, and no name is bound to them.
-/

namespace ScriptMachine

namespace Bytecode

/-- Whether an opcode stores a result into register `A`. A call's result arrives there when the
function called returns. -/
def Op.storesA : Op → Bool
  | .move | .loadBool | .loadK | .getGlobal | .getUpval | .getElem | .newList | .newTuple
  | .newDict | .add | .sub | .mul | .div | .floorDiv | .pow | .mod | .unm | .not | .call
  | .closure => true
  | _ => false

/-- The registers an instruction with opcode `op` and fields `a`, `b` may write in its own frame:
the `b` registers from `a` on for `LOADNIL`, the position and element registers after `a` for the
two instructions of a `for` loop, and `a` for an opcode that stores a result there. -/
def Op.Writes : Op → Nat → Nat → Nat → Prop
  | .loadNil, a, b, reg => a ≤ reg ∧ reg < a + b
  | .forPrep, a, _, reg => reg = a + 1
  | .forLoop, a, _, reg => reg = a + 1 ∨ reg = a + 2
  | op, a, _, reg => op.storesA = true ∧ reg = a

theorem Op.writes_of_ne {op : Op} (hne : op ≠ .loadNil ∧ op ≠ .forPrep ∧ op ≠ .forLoop)
    {a b reg : Nat} : op.Writes a b reg ↔ op.storesA = true ∧ reg = a := by
  obtain ⟨h₁, h₂, h₃⟩ := hne
  cases op <;> simp_all [Op.Writes]

/-- The registers of its own frame an instruction may write. -/
def Instruction.Writes (i : Instruction) (reg : Nat) : Prop :=
  ∃ op, i.op? = some op ∧ op.Writes i.a i.b reg

def Instruction.Spares (i : Instruction) (R : Nat → Prop) : Prop :=
  ∀ reg, i.Writes reg → ¬R reg

def Instruction.Plain (i : Instruction) : Prop :=
  i.skips = false ∧ (i.op?.any Op.isJump) = false

namespace Instruction

variable {R R' : Nat → Prop}

theorem Spares.mono {i : Instruction} (h : i.Spares R) (hR : ∀ reg, R' reg → R reg) :
    i.Spares R' :=
  fun reg hw hr => h reg hw (hR reg hr)

theorem writes_iff {i : Instruction} {op : Op} (hop : i.op? = some op) {reg : Nat} :
    i.Writes reg ↔ op.Writes i.a i.b reg := by
  constructor
  · rintro ⟨op', hop', hw⟩
    rw [hop] at hop'
    cases hop'
    exact hw
  · exact fun hw => ⟨op, hop, hw⟩

theorem spares_of_op {i : Instruction} {op : Op} (hop : i.op? = some op)
    (hne : op ≠ .loadNil ∧ op ≠ .forPrep ∧ op ≠ .forLoop) (hR : op.storesA = true → ¬R i.a) :
    i.Spares R := by
  intro reg hw
  obtain ⟨hs, rfl⟩ := (Op.writes_of_ne hne).1 ((writes_iff hop).1 hw)
  exact hR hs

theorem spares_abc (op : Op) {a : Nat} (ha : a < 256) (b c : Nat)
    (hne : op ≠ .loadNil ∧ op ≠ .forPrep ∧ op ≠ .forLoop) (hR : op.storesA = true → ¬R a) :
    (abc op.code a b c).Spares R :=
  spares_of_op (op?_abc op a b c) hne (by rw [a_abc_of_lt ha]; exact hR)

theorem spares_abx (op : Op) {a : Nat} (ha : a < 256) (bx : Nat)
    (hne : op ≠ .loadNil ∧ op ≠ .forPrep ∧ op ≠ .forLoop) (hR : op.storesA = true → ¬R a) :
    (abx op.code a bx).Spares R :=
  spares_of_op (op?_abx op a bx) hne (by rw [a_abx_of_lt ha]; exact hR)

theorem spares_nostore {i : Instruction} {op : Op} (hop : i.op? = some op)
    (hne : op ≠ .loadNil ∧ op ≠ .forPrep ∧ op ≠ .forLoop) (hs : op.storesA = false) :
    i.Spares R :=
  spares_of_op hop hne fun h => by rw [hs] at h; cases h

theorem spares_loadNil {i : Instruction} (hop : i.op? = some .loadNil) (hb : i.b = 1)
    (hR : ¬R i.a) : i.Spares R := by
  intro reg hw
  have hw' := (writes_iff hop).1 hw
  simp only [Op.Writes, hb] at hw'
  rwa [show reg = i.a by omega]

theorem spares_forJump {i : Instruction} {op : Op} (hop : i.op? = some op)
    (hfor : op = .forPrep ∨ op = .forLoop) (h₁ : ¬R (i.a + 1)) (h₂ : ¬R (i.a + 2)) :
    i.Spares R := by
  intro reg hw
  have hw' := (writes_iff hop).1 hw
  rcases hfor with rfl | rfl <;> simp only [Op.Writes] at hw'
  · rwa [hw']
  · rcases hw' with rfl | rfl <;> assumption

theorem spares_jmp (sbx : Int) : (asbx Op.jmp.code 0 sbx).Spares R :=
  spares_of_op (op?_asbx .jmp 0 sbx) (by decide) fun h => by simp [Op.storesA] at h

theorem Spares.withSBx {i : Instruction} (h : i.Spares R) (hj : (i.op?.any Op.isJump) = true)
    (sbx : Int) : (i.withSBx sbx).Spares R := by
  obtain ⟨op, hop, hjop⟩ : ∃ op, i.op? = some op ∧ op.isJump = true := by
    cases hi : i.op? with
    | none => rw [hi] at hj; cases hj
    | some op => rw [hi] at hj; exact ⟨op, rfl, by simpa using hj⟩
  intro reg hw
  refine h reg ((writes_iff hop).2 ?_)
  have hw' := (writes_iff (by rw [op?_withSBx, hop])).1 hw
  rw [a_withSBx] at hw'
  cases op <;> simp_all [Op.isJump, Op.Writes]

theorem plain_of_op {i : Instruction} {op : Op} (hop : i.op? = some op) (htest : op.isTest = false)
    (hjump : op.isJump = false) (hbool : op = .loadBool → i.c = 0) : i.Plain := by
  unfold Plain skips
  rw [hop]
  by_cases hb : op = .loadBool
  · subst hb
    simp [hbool rfl, htest, hjump]
  · simp [htest, hjump, hb]

theorem plain_abc {op : Op} (htest : op.isTest = false) (hjump : op.isJump = false)
    (hbool : op ≠ .loadBool) (a b c : Int) : (abc op.code a b c).Plain :=
  plain_of_op (op?_abc op a b c) htest hjump fun h => absurd h hbool

theorem withSBx_withSBx (i : Instruction) (x y : Int) : (i.withSBx x).withSBx y = i.withSBx y := by
  have h : (i.withSBx x).opcode = i.opcode := by
    simp [withSBx, asbx, Nat.mod_eq_of_lt (opcode_lt i)]
  show asbx (i.withSBx x).opcode (i.withSBx x).a y = asbx i.opcode i.a y
  rw [h, a_withSBx]

theorem skips_of_jump {i : Instruction} (hj : (i.op?.any Op.isJump) = true) : i.skips = false := by
  unfold skips
  cases hi : i.op? with
  | none => rfl
  | some op =>
    rw [hi] at hj
    cases op <;> simp_all [Op.isJump, Op.isTest]

end Instruction

namespace Chunk

variable {R R' : Nat → Prop} {c c' : Chunk} {lo hi pc : Nat}

/-- The instruction at `pc` keeps a run of its frame inside `[lo, hi]` — wherever it moves the
frame, the index after it lies there — and spares the registers `R`. -/
def ConfinedAt (c : Chunk) (R : Nat → Prop) (lo hi pc : Nat) : Prop :=
  ∃ i, c.code[pc]? = some i ∧ i.Spares R ∧
    ∀ δ, Machine.Lands i δ → (lo : Int) ≤ pc + 1 + δ ∧ pc + 1 + δ ≤ hi

def Waits (c : Chunk) (R : Nat → Prop) (pc : Nat) : Prop :=
  ∃ i, c.code[pc]? = some i ∧ i.Spares R ∧ (i.op?.any Op.isJump) = true

/-- The region of `c` from `lo` to its end keeps a run inside it and spares `R`, except for the
jumps at `J`, which wait for their targets. -/
structure Confined (R : Nat → Prop) (lo : Nat) (J : List Nat) (c : Chunk) : Prop where
  start : lo ≤ c.code.size
  confined : ∀ pc, lo ≤ pc → pc < c.code.size → pc ∉ J → c.ConfinedAt R lo c.code.size pc
  waiting : ∀ j ∈ J, lo ≤ j ∧ j < c.code.size ∧ c.Waits R j

theorem ConfinedAt.mono (h : c.ConfinedAt R lo hi pc) (hR : ∀ reg, R' reg → R reg)
    {lo' hi' : Nat} (hlo : lo' ≤ lo) (hhi : hi ≤ hi') : c.ConfinedAt R' lo' hi' pc := by
  obtain ⟨i, hi, hs, hl⟩ := h
  refine ⟨i, hi, hs.mono hR, fun δ hδ => ?_⟩
  have := hl δ hδ
  omega

theorem ConfinedAt.congr (h : c.ConfinedAt R lo hi pc) (hc : c'.code[pc]? = c.code[pc]?) :
    c'.ConfinedAt R lo hi pc := by
  obtain ⟨i, hi, hrest⟩ := h
  exact ⟨i, hc.trans hi, hrest⟩

theorem Waits.congr (h : c.Waits R pc) (hc : c'.code[pc]? = c.code[pc]?) : c'.Waits R pc := by
  obtain ⟨i, hi, hrest⟩ := h
  exact ⟨i, hc.trans hi, hrest⟩

theorem confined_empty (c : Chunk) (R : Nat → Prop) : c.Confined R c.code.size [] :=
  ⟨Nat.le_refl _, fun _ h₁ h₂ _ => absurd h₂ (Nat.not_lt.2 h₁), fun _ hj => nomatch hj⟩

theorem Confined.congr {J J' : List Nat} (h : c.Confined R lo J) (hJ : ∀ j, j ∈ J ↔ j ∈ J') :
    c.Confined R lo J' :=
  ⟨h.start, fun pc h₁ h₂ hj => h.confined pc h₁ h₂ (fun h' => hj ((hJ pc).1 h')),
    fun j hj => h.waiting j ((hJ j).2 hj)⟩

theorem Confined.of_code {J : List Nat} (h : c.Confined R lo J) (hc : c'.code = c.code) :
    c'.Confined R lo J := by
  have hsize : c'.code.size = c.code.size := by rw [hc]
  refine ⟨hsize ▸ h.start, fun pc h₁ h₂ hj => ?_, fun j hj => ?_⟩
  · rw [hsize]
    exact (h.confined pc h₁ (hsize ▸ h₂) hj).congr (by rw [hc])
  · obtain ⟨hlo, hlt, hw⟩ := h.waiting j hj
    exact ⟨hlo, hsize ▸ hlt, hw.congr (by rw [hc])⟩

theorem Confined.emit_plain {J : List Nat} (h : c.Confined R lo J) {i : Instruction}
    (hp : i.Plain) (hs : i.Spares R) (s : Span) : (c.emit i s).Confined R lo J := by
  have hsize : (c.emit i s).code.size = c.code.size + 1 := by simp [emit]
  have hget : ∀ pc < c.code.size, (c.emit i s).code[pc]? = c.code[pc]? := fun pc hpc => by
    simp [emit, Array.getElem?_push, Nat.ne_of_lt hpc]
  refine ⟨by have := h.start; omega, fun pc h₁ h₂ hj => ?_, fun j hj => ?_⟩
  · rw [hsize] at h₂ ⊢
    by_cases hpc : pc < c.code.size
    · exact (h.confined pc h₁ hpc hj).mono (fun _ h => h) (Nat.le_refl _) (by omega)
        |>.congr (hget pc hpc)
    · have hpc' : pc = c.code.size := by omega
      subst hpc'
      refine ⟨i, by simp [emit], hs, fun δ hδ => ?_⟩
      rcases hδ with rfl | ⟨-, hsk⟩ | ⟨-, hj⟩
      · omega
      · rw [hp.1] at hsk; cases hsk
      · rw [hp.2] at hj; cases hj
  · obtain ⟨hlo, hlt, hw⟩ := h.waiting j hj
    exact ⟨hlo, by omega, hw.congr (hget j hlt)⟩

theorem Confined.emit_waiting {J : List Nat} (h : c.Confined R lo J) {i : Instruction}
    (hj : (i.op?.any Op.isJump) = true) (hs : i.Spares R) (s : Span) :
    (c.emit i s).Confined R lo (J ++ [c.code.size]) := by
  have hsize : (c.emit i s).code.size = c.code.size + 1 := by simp [emit]
  have hget : ∀ pc < c.code.size, (c.emit i s).code[pc]? = c.code[pc]? := fun pc hpc => by
    simp [emit, Array.getElem?_push, Nat.ne_of_lt hpc]
  refine ⟨by have := h.start; omega, fun pc h₁ h₂ hjn => ?_, fun j hj' => ?_⟩
  · rw [hsize] at h₂ ⊢
    have hpc : pc < c.code.size := by
      refine Nat.lt_of_le_of_ne (by omega) fun he => hjn ?_
      simp [he]
    exact (h.confined pc h₁ hpc (fun h' => hjn (List.mem_append_left _ h'))).mono
      (fun _ h => h) (Nat.le_refl _) (by omega) |>.congr (hget pc hpc)
  · rcases List.mem_append.1 hj' with hj' | hj'
    · obtain ⟨hlo, hlt, hw⟩ := h.waiting j hj'
      exact ⟨hlo, by omega, hw.congr (hget j hlt)⟩
    · rw [List.mem_singleton] at hj'
      subst hj'
      exact ⟨h.start, by omega, i, by simp [emit], hs, hj⟩

theorem Confined.emit_test {J : List Nat} (h : c.Confined R lo J) {i j : Instruction}
    (hi : (i.op?.any Op.isJump) = false) (hs : i.Spares R) (hj : (j.op?.any Op.isJump) = true)
    (hs' : j.Spares R) (s t : Span) :
    ((c.emit i s).emit j t).Confined R lo (J ++ [c.code.size + 1]) := by
  have hsize : ((c.emit i s).emit j t).code.size = c.code.size + 2 := by simp [emit]
  have hget : ∀ pc < c.code.size, ((c.emit i s).emit j t).code[pc]? = c.code[pc]? :=
    fun pc hpc => by simp [emit, Array.getElem?_push, Nat.ne_of_lt hpc, Nat.ne_of_lt (Nat.lt_succ_of_lt hpc)]
  refine ⟨by have := h.start; omega, fun pc h₁ h₂ hjn => ?_, fun k hk => ?_⟩
  · rw [hsize] at h₂ ⊢
    by_cases hpc : pc < c.code.size
    · exact (h.confined pc h₁ hpc (fun h' => hjn (List.mem_append_left _ h'))).mono
        (fun _ h => h) (Nat.le_refl _) (by omega) |>.congr (hget pc hpc)
    · have hpc' : pc = c.code.size := by
        refine Nat.le_antisymm ?_ (by omega)
        refine Nat.le_of_lt_succ (Nat.lt_of_le_of_ne (by omega) fun he => hjn ?_)
        simp [he]
      subst hpc'
      refine ⟨i, ?_, hs, fun δ hδ => ?_⟩
      · simp only [emit]
        rw [Array.getElem?_push, if_neg (by simp), Array.getElem?_push_size]
      rcases hδ with rfl | ⟨rfl, -⟩ | ⟨-, hj'⟩
      · omega
      · omega
      · rw [hi] at hj'; cases hj'
  · rcases List.mem_append.1 hk with hk | hk
    · obtain ⟨hlo, hlt, hw⟩ := h.waiting k hk
      exact ⟨hlo, by omega, hw.congr (hget k hlt)⟩
    · rw [List.mem_singleton] at hk
      subst hk
      refine ⟨by have := h.start; omega, by omega, j, ?_, hs', hj⟩
      simp only [emit]
      rw [show c.code.size + 1 = (c.code.push i).size by simp, Array.getElem?_push_size]

/-- Chunk `c'` is `c` with the jumps at `pcs` pointed at `T`, and nothing else changed. -/
structure Retargets (pcs : List Nat) (T : Nat) (c c' : Chunk) : Prop where
  eq : c' = { c with code := c'.code }
  size : c'.code.size = c.code.size
  kept : ∀ pc, pc ∉ pcs → c'.code[pc]? = c.code[pc]?
  moved : ∀ pc ∈ pcs, ∃ i, c.code[pc]? = some i ∧ (i.op?.any Op.isJump) = true ∧
    -maxSBx ≤ (T : Int) - (pc + 1) ∧ (T : Int) - (pc + 1) ≤ maxSBx ∧
    c'.code[pc]? = some (i.withSBx (T - (pc + 1)))
  target : pcs ≠ [] → T ≤ c.code.size

theorem Retargets.nil (T : Nat) (c : Chunk) : Retargets [] T c c where
  eq := by cases c; rfl
  size := rfl
  kept _ _ := rfl
  moved _ h := nomatch h
  target h := absurd rfl h

theorem retargets_patchJump {pc T : Nat} {c' : Chunk} (hp : c.patchJump pc T = .ok c') :
    Retargets [pc] T c c' := by
  obtain ⟨j, hj, hpc, hjump, -, hle, lo, hi, rfl⟩ := patchJump_eq_retarget hp
  have hpc' : pc = j := by exact_mod_cast hpc
  subst hpc'
  refine ⟨rfl, by simp, fun pc' hne => ?_, fun pc' hmem => ?_, fun _ => by exact_mod_cast hle⟩
  · have hne' : pc ≠ pc' := fun h => hne (by simp [h])
    simp [retarget, hne']
  · rw [List.mem_singleton] at hmem
    subst hmem
    refine ⟨c.code[pc'], Array.getElem?_eq_getElem hj, ?_, lo, hi, by simp [retarget]⟩
    cases hop : c.code[pc'].op? <;> simp_all

theorem Retargets.cons {p : Nat} {ps : List Nat} {T : Nat} {c₁ c₂ : Chunk}
    (h₁ : Retargets [p] T c c₁) (h₂ : Retargets ps T c₁ c₂) : Retargets (p :: ps) T c c₂ := by
  refine ⟨?_, h₂.size.trans h₁.size, fun pc hpc => ?_, fun pc hpc => ?_, fun _ => ?_⟩
  · rw [h₂.eq, h₁.eq]
  · rw [h₂.kept pc (fun h => hpc (List.mem_cons_of_mem _ h)),
      h₁.kept pc (fun h => hpc (by simp [List.mem_singleton.1 h]))]
  · by_cases hp : pc = p
    · subst hp
      obtain ⟨i, hi, hj, lo, hi', h₁'⟩ := h₁.moved pc (List.mem_singleton_self _)
      refine ⟨i, hi, hj, lo, hi', ?_⟩
      by_cases hps : pc ∈ ps
      · obtain ⟨i₁, hi₁, -, -, -, h₂'⟩ := h₂.moved pc hps
        rw [h₁'] at hi₁
        cases hi₁
        rw [h₂', Instruction.withSBx_withSBx]
      · rw [h₂.kept pc hps, h₁']
    · have hps : pc ∈ ps := by
        rcases List.mem_cons.1 hpc with h | h
        · exact absurd h hp
        · exact h
      obtain ⟨i, hi, hj, lo, hi', h₂'⟩ := h₂.moved pc hps
      rw [h₁.kept pc (fun h => hp (List.mem_singleton.1 h))] at hi
      exact ⟨i, hi, hj, lo, hi', h₂'⟩
  · rcases ps with _ | ⟨q, qs⟩
    · exact h₁.target (List.cons_ne_nil _ _)
    · rw [← h₁.size]
      exact h₂.target (List.cons_ne_nil _ _)

theorem Retargets.confinedAt {pcs : List Nat} {T pc : Nat} {c' : Chunk}
    (ht : Retargets pcs T c c') (hpc : pc ∈ pcs) (hw : c.Waits R pc) (hlo : lo ≤ T)
    (hlo' : lo ≤ pc) {hi : Nat} (hhi : c.code.size ≤ hi) : c'.ConfinedAt R lo hi pc := by
  obtain ⟨i, hi₀, hj, lo', hi', h'⟩ := ht.moved pc hpc
  obtain ⟨i₀, hi₁, hs, -⟩ := hw
  rw [hi₀] at hi₁
  cases hi₁
  have hlt : pc < c.code.size := (Array.getElem?_eq_some_iff.1 hi₀).1
  have hT := ht.target (List.ne_nil_of_mem hpc)
  refine ⟨_, h', hs.withSBx hj _, fun δ hδ => ?_⟩
  rcases hδ with rfl | ⟨-, hsk⟩ | ⟨rfl, -⟩
  · omega
  · rw [Instruction.skips_of_jump (by rwa [Instruction.op?_withSBx])] at hsk
    cases hsk
  · rw [Instruction.sbx_withSBx _ _ lo' hi']
    omega

theorem Retargets.waits {pcs : List Nat} {T pc : Nat} {c' : Chunk} (ht : Retargets pcs T c c')
    (hw : c.Waits R pc) : c'.Waits R pc := by
  by_cases hpc : pc ∈ pcs
  · obtain ⟨i, hi₀, hj, -, -, h'⟩ := ht.moved pc hpc
    obtain ⟨i₀, hi₁, hs, -⟩ := hw
    rw [hi₀] at hi₁
    cases hi₁
    exact ⟨_, h', hs.withSBx hj _, by rwa [Instruction.op?_withSBx]⟩
  · exact hw.congr (ht.kept pc hpc)

theorem Confined.retargets {K K' pcs : List Nat} {T : Nat} {c' : Chunk}
    (h : c.Confined R lo K) (ht : Retargets pcs T c c') (hpcs : ∀ pc ∈ pcs, pc ∈ K)
    (hT : lo ≤ T) (hK' : ∀ j ∈ K', j ∈ K) (hK : ∀ j ∈ K, j ∉ pcs → j ∈ K') :
    c'.Confined R lo K' := by
  refine ⟨ht.size ▸ h.start, fun pc h₁ h₂ hj => ?_, fun j hj => ?_⟩
  · rw [ht.size] at h₂ ⊢
    by_cases hpc : pc ∈ pcs
    · exact ht.confinedAt hpc (h.waiting pc (hpcs pc hpc)).2.2 hT h₁ (Nat.le_refl _)
    · have hnK : pc ∉ K := fun hk => hj (hK pc hk hpc)
      exact (h.confined pc h₁ h₂ hnK).congr (ht.kept pc hpc)
  · obtain ⟨hlo, hlt, hw⟩ := h.waiting j (hK' j hj)
    exact ⟨hlo, ht.size ▸ hlt, ht.waits hw⟩

theorem Confined.skip_retargets {K F : List Nat} {c₂ : Chunk} (h : c.Confined R lo (K ++ F))
    {i i' : Instruction} (hi : (i.op?.any Op.isJump) = false) (hs : i.Spares R) (hp : i'.Plain)
    (hs' : i'.Spares R) (s s' : Span) (ht : Retargets F (c.code.size + 1) (c.emit i s) c₂) :
    (c₂.emit i' s').Confined R lo K := by
  have hF : ∀ j ∈ F, j < c.code.size := fun j hj =>
    (h.waiting j (List.mem_append_right _ hj)).2.1
  have hsize₂ : c₂.code.size = c.code.size + 1 := by rw [ht.size]; simp [emit]
  have hsize : (c₂.emit i' s').code.size = c.code.size + 2 := by simp [emit, hsize₂]
  have hget₂ : ∀ pc, pc ∉ F → pc < c.code.size → c₂.code[pc]? = c.code[pc]? := fun pc hF' hpc => by
    rw [ht.kept pc hF']
    simp [emit, Array.getElem?_push, Nat.ne_of_lt hpc]
  have hget : ∀ pc < c.code.size + 1, (c₂.emit i' s').code[pc]? = c₂.code[pc]? :=
    fun pc hpc => by simp [emit, Array.getElem?_push, hsize₂, Nat.ne_of_lt hpc]
  -- the jumps `F` waited in `c` and wait, unchanged, in `c.emit i s`
  have hwF : ∀ j ∈ F, (c.emit i s).Waits R j := fun j hj =>
    (h.waiting j (List.mem_append_right _ hj)).2.2.congr
      (by simp [emit, Array.getElem?_push, Nat.ne_of_lt (hF j hj)])
  refine ⟨by have := h.start; omega, fun pc h₁ h₂ hj => ?_, fun j hj => ?_⟩
  · rw [hsize] at h₂ ⊢
    by_cases hpc : pc < c.code.size
    · by_cases hpF : pc ∈ F
      · exact (ht.confinedAt hpF (hwF pc hpF) (by have := h.start; omega) h₁
          (show (c.emit i s).code.size ≤ c.code.size + 1 by simp [emit])).mono (fun _ h => h) (Nat.le_refl _) (by omega) |>.congr (hget pc (by omega))
      · have hnK : pc ∉ K ++ F := by simp [hj, hpF]
        exact (h.confined pc h₁ hpc hnK).mono (fun _ h => h) (Nat.le_refl _) (by omega)
          |>.congr ((hget pc (by omega)).trans (hget₂ pc hpF hpc))
    · by_cases hpc' : pc = c.code.size
      · subst hpc'
        have hnF : c.code.size ∉ F := fun h => Nat.lt_irrefl _ (hF _ h)
        refine ⟨i, ?_, hs, fun δ hδ => ?_⟩
        · rw [hget _ (by omega), ht.kept _ hnF]
          simp [emit]
        · rcases hδ with rfl | ⟨rfl, -⟩ | ⟨-, hj'⟩
          · omega
          · omega
          · rw [hi] at hj'; cases hj'
      · have hpc'' : pc = c.code.size + 1 := by omega
        subst hpc''
        refine ⟨i', by simp only [emit]; rw [← hsize₂, Array.getElem?_push_size], hs',
          fun δ hδ => ?_⟩
        rcases hδ with rfl | ⟨-, hsk⟩ | ⟨-, hj'⟩
        · omega
        · rw [hp.1] at hsk; cases hsk
        · rw [hp.2] at hj'; cases hj'
  · obtain ⟨hlo, hlt, hw⟩ := h.waiting j (List.mem_append_left _ hj)
    have hw' : (c.emit i s).Waits R j :=
      hw.congr (by simp [emit, Array.getElem?_push, Nat.ne_of_lt hlt])
    exact ⟨hlo, by omega, (ht.waits hw').congr (hget j (by omega))⟩

theorem Confined.nest {J : List Nat} (h : c.Confined R lo J)
    (hin : c'.Confined R' c.code.size []) (hbelow : ∀ pc < c.code.size, c'.code[pc]? = c.code[pc]?)
    (hR : ∀ reg, R reg → R' reg) : c'.Confined R lo J := by
  refine ⟨Nat.le_trans h.start hin.start, fun pc h₁ h₂ hj => ?_, fun j hj => ?_⟩
  · by_cases hpc : pc < c.code.size
    · exact ((h.confined pc h₁ hpc hj).mono (fun _ h => h) (Nat.le_refl _) hin.start).congr
        (hbelow pc hpc)
    · exact (hin.confined pc (by omega) h₂ List.not_mem_nil).mono hR h.start (Nat.le_refl _)
  · obtain ⟨hlo, hlt, hw⟩ := h.waiting j hj
    exact ⟨hlo, Nat.lt_of_lt_of_le hlt hin.start, hw.congr (hbelow j hlt)⟩

end Chunk

end Bytecode

namespace Compiler

open Bytecode

/-! ## Frames that respect a set of registers -/

/-- Scopes nested as the compiler opens them, innermost first: each begins at or below the next
free register of the scope inside it, and binds its names to registers below that. -/
def Scope.Nested : List Scope → Nat → Prop
  | [], _ => True
  | s :: rest, next => s.base ≤ next ∧ (∀ p ∈ s.names, p.2 < next) ∧ Scope.Nested rest s.base

theorem Scope.Nested.mono : ∀ {ss : List Scope} {n n' : Nat}, Scope.Nested ss n → n ≤ n' →
    Scope.Nested ss n'
  | [], _, _, _, _ => trivial
  | _ :: _, _, _, ⟨hb, hn, hr⟩, hle => ⟨by omega, fun p hp => by have := hn p hp; omega, hr⟩

theorem Scope.Nested.lt : ∀ {ss : List Scope} {n : Nat}, Scope.Nested ss n →
    ∀ s ∈ ss, ∀ p ∈ s.names, p.2 < n
  | [], _, _, _, hs, _, _ => nomatch hs
  | _ :: _, _, ⟨hb, hn, hr⟩, s, hs, p, hp => by
    rcases List.mem_cons.1 hs with rfl | hs
    · exact hn p hp
    · have := hr.lt s hs p hp
      omega

/-- A frame in the zone of the registers `R`: the next free register and all after it lie
outside `R`, its scopes are nested, and its registers stay within the limit. -/
structure Frame.Zone (R : Nat → Prop) (f : Frame) : Prop where
  registers : f.chunk.registers ≤ registerLimit
  next_le : f.next ≤ registerLimit
  free : ∀ reg, f.next ≤ reg → ¬R reg
  nested : Scope.Nested f.scopes f.next

def Frame.NamesSpare (R : Nat → Prop) (f : Frame) : Prop :=
  ∀ s ∈ f.scopes, ∀ p ∈ s.names, ¬R p.2

/-- An enclosing function kept as it was but for its captures. -/
structure Frame.Kept (f f' : Frame) : Prop where
  code : f'.chunk.code = f.chunk.code
  scopes : f'.scopes = f.scopes
  next : f'.next = f.next
  registers : f'.chunk.registers = f.chunk.registers

/-- Frame `f'` is the innermost function `f` after compile steps that respect `R` and keep the
code below `lo`: the scopes outside the innermost one are the same and the innermost begins
where it did, the next free register and the code only grew, the frame is still in the zone of
`R`, and names that spared a set of registers free in `f` still spare it. -/
structure Frame.Moved (R : Nat → Prop) (lo : Nat) (f f' : Frame) : Prop where
  tail : f'.scopes.tail = f.scopes.tail
  base : f'.scopes.head?.map Scope.base = f.scopes.head?.map Scope.base
  next_le : f.next ≤ f'.next
  grows : f.chunk.code.size ≤ f'.chunk.code.size
  below : ∀ pc < lo, f'.chunk.code[pc]? = f.chunk.code[pc]?
  zone : f'.Zone R
  names : ∀ S : Nat → Prop, (∀ reg, f.next ≤ reg → ¬S reg) → f.NamesSpare S → f'.NamesSpare S

namespace Frame

variable {R : Nat → Prop} {lo : Nat} {f f' f'' : Frame}

theorem Kept.refl (f : Frame) : f.Kept f := ⟨rfl, rfl, rfl, rfl⟩

theorem Kept.trans (h : f.Kept f') (h' : f'.Kept f'') : f.Kept f'' :=
  ⟨h'.code.trans h.code, h'.scopes.trans h.scopes, h'.next.trans h.next,
    h'.registers.trans h.registers⟩

theorem kept_refl (fs : List Frame) : List.Forall₂ Frame.Kept fs fs :=
  List.forall₂_same.2 fun f _ => .refl f

theorem kept_trans {fs fs' fs'' : List Frame} (h : List.Forall₂ Frame.Kept fs fs')
    (h' : List.Forall₂ Frame.Kept fs' fs'') : List.Forall₂ Frame.Kept fs fs'' :=
  forall₂_trans h h' Kept.trans

theorem Zone.congr (h : f.Zone R) (hs : f'.scopes = f.scopes) (hn : f'.next = f.next)
    (hr : f'.chunk.registers = f.chunk.registers) : f'.Zone R :=
  ⟨hr ▸ h.registers, hn ▸ h.next_le, hn ▸ h.free, hs ▸ hn ▸ h.nested⟩

theorem Zone.mono {R' : Nat → Prop} (h : f.Zone R') (hR : ∀ reg, R reg → R' reg) : f.Zone R :=
  ⟨h.registers, h.next_le, fun reg hreg hr => h.free reg hreg (hR reg hr), h.nested⟩

theorem NamesSpare.congr (h : f.NamesSpare R) (hs : f'.scopes = f.scopes) : f'.NamesSpare R :=
  fun s hs' => h s (hs ▸ hs')

theorem Zone.bound_lt (h : f.Zone R) {s : Scope} (hs : s ∈ f.scopes) {p : String × Nat}
    (hp : p ∈ s.names) : p.2 < registerLimit :=
  Nat.lt_of_lt_of_le (h.nested.lt s hs p hp) h.next_le

theorem Moved.refl (h : f.Zone R) : f.Moved R lo f :=
  ⟨rfl, rfl, Nat.le_refl _, Nat.le_refl _, fun _ _ => rfl, h, fun _ _ => id⟩

theorem Moved.trans (h : f.Moved R lo f') (h' : f'.Moved R lo f'') : f.Moved R lo f'' :=
  ⟨h'.tail.trans h.tail, h'.base.trans h.base, Nat.le_trans h.next_le h'.next_le,
    Nat.le_trans h.grows h'.grows, fun pc hpc => (h'.below pc hpc).trans (h.below pc hpc),
    h'.zone, fun S hS hs => h'.names S (fun reg hreg => hS reg (by have := h.next_le; omega))
      (h.names S hS hs)⟩

theorem Moved.namesSpare (h : f.Moved R lo f') (hz : f.Zone R) (hs : f.NamesSpare R) :
    f'.NamesSpare R :=
  h.names R hz.free hs

theorem Moved.of_chunk (h : f.Zone R) (hs : f'.scopes = f.scopes) (hn : f'.next = f.next)
    (hr : f'.chunk.registers = f.chunk.registers) (hg : f.chunk.code.size ≤ f'.chunk.code.size)
    (hb : ∀ pc < f.chunk.code.size, f'.chunk.code[pc]? = f.chunk.code[pc]?)
    (hlo : lo ≤ f.chunk.code.size) : f.Moved R lo f' :=
  ⟨by rw [hs], by rw [hs], Nat.le_of_eq hn.symm, hg, fun pc hpc => hb pc (by omega), h.congr hs hn hr,
    fun _ _ hn' => hn'.congr hs⟩

end Frame

theorem captureIn_kept {name : String} :
    ∀ {fs fs' : List Frame} {i : Nat}, captureIn name fs = some (i, fs') →
      List.Forall₂ Frame.Kept fs fs'
  | [], _, _, h => by cases h
  | f :: outer, fs', i, h => by
    rcases captureIn_eq_some h with
      ⟨-, rfl⟩ | ⟨-, parent, pp, c, outer', rfl, -, hc, -, rfl⟩
    · exact Frame.kept_refl _
    · refine .cons ⟨rfl, rfl, rfl, rfl⟩ ?_
      rcases hc with ⟨reg, -, -, rfl⟩ | ⟨-, j, hrec, -⟩
      · exact Frame.kept_refl _
      · exact captureIn_kept hrec

/-! ## The contract of a compile step -/

/-- The contract of a compile step on the region `[lo, size)` of the innermost function's code:
a run that ends without a report began without one, and from a frame where `P` holds, in the
zone of `R`, whose region is confined with the jumps `K` waiting, it ends in a frame moved from
it whose region is confined with the jumps `J a` waiting and where `Q a` holds, the enclosing
functions changed only in their captures. Faults are outside its scope. -/
def Confines {α : Type} (o : Options) (R : Nat → Prop) (lo : Nat) (K : List Nat)
    (P : Frame → Prop) (act : GenM α) (J : α → List Nat) (Q : α → Frame → Prop) : Prop :=
  ∀ r a r', (act.run o).run r = .ok (a, r') → r'.reports = #[] → r.reports = #[] ∧
    ∀ f fs, r.frames = f :: fs → P f → f.Zone R → f.chunk.Confined R lo K →
      ∃ f' fs', r'.frames = f' :: fs' ∧ List.Forall₂ Frame.Kept fs fs' ∧ f.Moved R lo f' ∧
        f'.chunk.Confined R lo (J a) ∧ Q a f'

namespace Confines

variable {α β : Type} {o : Options} {R : Nat → Prop} {lo : Nat} {K : List Nat}
  {P P' : Frame → Prop} {J J' : α → List Nat} {Q Q' : α → Frame → Prop} {act : GenM α}

theorem bind {x : GenM α} {g : α → GenM β} {Jx : α → List Nat} {Qx : α → Frame → Prop}
    {J : β → List Nat} {Q : β → Frame → Prop}
    (hx : Confines o R lo K P x Jx Qx) (hg : ∀ a, Confines o R lo (Jx a) (Qx a) (g a) J Q) :
    Confines o R lo K P (x >>= g) J Q := by
  intro r b r' h hclean
  rw [Triple.bind_run] at h
  cases hx' : (x.run o).run r with
  | error e => rw [hx'] at h; cases h
  | ok p =>
    rw [hx'] at h
    obtain ⟨a, r₁⟩ := p
    obtain ⟨hclean₁, hg'⟩ := hg a r₁ b r' h hclean
    obtain ⟨hclean₀, hx''⟩ := hx r a r₁ hx' hclean₁
    refine ⟨hclean₀, fun f fs hr hp hz hc => ?_⟩
    obtain ⟨f₁, fs₁, hr₁, hk₁, hm₁, hc₁, hq₁⟩ := hx'' f fs hr hp hz hc
    obtain ⟨f₂, fs₂, hr₂, hk₂, hm₂, hc₂, hq₂⟩ := hg' f₁ fs₁ hr₁ hq₁ hm₁.zone hc₁
    exact ⟨f₂, fs₂, hr₂, Frame.kept_trans hk₁ hk₂, hm₁.trans hm₂, hc₂, hq₂⟩

theorem pure {a : α} (hJ : J a = K) (h : ∀ f, P f → Q a f) :
    Confines o R lo K P (Pure.pure a) J Q := by
  intro r b r' hrun hclean
  cases hrun
  refine ⟨hclean, fun f fs hr hp hz hc => ⟨f, fs, hr, Frame.kept_refl fs, .refl hz, ?_, h f hp⟩⟩
  rwa [hJ]

theorem mono (hP : ∀ f, P' f → P f) (h : Confines o R lo K P act J Q)
    (hQ : ∀ a f, Q a f → Q' a f) : Confines o R lo K P' act J Q' := by
  intro r a r' hrun hclean
  obtain ⟨h₀, h₁⟩ := h r a r' hrun hclean
  refine ⟨h₀, fun f fs hr hp hz hc => ?_⟩
  obtain ⟨f', fs', hr', hk, hm, hc', hq⟩ := h₁ f fs hr (hP f hp) hz hc
  exact ⟨f', fs', hr', hk, hm, hc', hQ a f' hq⟩

theorem post (h : Confines o R lo K P act J Q) (hQ : ∀ a f, Q a f → Q' a f) :
    Confines o R lo K P act J Q' :=
  mono (fun _ hp => hp) h hQ

theorem pre (hP : ∀ f, P' f → P f) (h : Confines o R lo K P act J Q) :
    Confines o R lo K P' act J Q :=
  mono hP h fun _ _ hq => hq

theorem jumps (h : Confines o R lo K P act J Q) (hJ : ∀ a j, j ∈ J a ↔ j ∈ J' a) :
    Confines o R lo K P act J' Q := by
  intro r a r' hrun hclean
  obtain ⟨h₀, h₁⟩ := h r a r' hrun hclean
  refine ⟨h₀, fun f fs hr hp hz hc => ?_⟩
  obtain ⟨f', fs', hr', hk, hm, hc', hq⟩ := h₁ f fs hr hp hz hc
  exact ⟨f', fs', hr', hk, hm, hc'.congr (hJ a), hq⟩

theorem pure_and {c : Prop} (h : Confines o R lo K P act J Q) :
    Confines o R lo K (fun f => c ∧ P f) act J (fun a f => c ∧ Q a f) := by
  intro r a r' hrun hclean
  obtain ⟨h₀, h₁⟩ := h r a r' hrun hclean
  refine ⟨h₀, fun f fs hr hp hz hc => ?_⟩
  obtain ⟨f', fs', hr', hk, hm, hc', hq⟩ := h₁ f fs hr hp.2 hz hc
  exact ⟨f', fs', hr', hk, hm, hc', hp.1, hq⟩

theorem names (h : Confines o R lo K P act J Q) :
    Confines o R lo K (fun f => P f ∧ f.NamesSpare R) act J
      (fun a f => Q a f ∧ f.NamesSpare R) := by
  intro r a r' hrun hclean
  obtain ⟨h₀, h₁⟩ := h r a r' hrun hclean
  refine ⟨h₀, fun f fs hr hp hz hc => ?_⟩
  obtain ⟨f', fs', hr', hk, hm, hc', hq⟩ := h₁ f fs hr hp.1 hz hc
  exact ⟨f', fs', hr', hk, hm, hc', hq, hm.namesSpare hz hp.2⟩

theorem ite {c : Prop} [Decidable c] {x y : GenM α} (hx : c → Confines o R lo K P x J Q)
    (hy : ¬c → Confines o R lo K P y J Q) : Confines o R lo K P (if c then x else y) J Q := by
  by_cases hc : c
  · rw [if_pos hc]
    exact hx hc
  · rw [if_neg hc]
    exact hy hc

theorem throw {e : Fault} : Confines o R lo K P (throw e : GenM α) J Q := by
  intro r a r' hrun
  cases hrun

theorem throw_bind {e : Fault} {g : α → GenM β} {J : β → List Nat} {Q : β → Frame → Prop} :
    Confines o R lo K P ((MonadExcept.throw e : GenM α) >>= g) J Q := by
  intro r a r' hrun
  cases hrun

theorem read {g : Options → GenM α} (h : Confines o R lo K P (g o) J Q) :
    Confines o R lo K P (MonadReader.read >>= g) J Q :=
  fun r a r' hrun => h r a r' hrun

theorem listening_bind {g : Bool → GenM α} (kind : Kind)
    (h : ∀ b, Confines o R lo K P (g b) J Q) : Confines o R lo K P (listening kind >>= g) J Q :=
  fun r a r' hrun => h _ r a r' hrun

theorem forM {γ : Type} {xs : List γ} {g : γ → GenM PUnit} {I : Frame → Prop}
    (h : ∀ x ∈ xs, Confines o R lo K I (g x) (fun _ => K) fun _ => I) :
    Confines o R lo K I (xs.forM g) (fun _ => K) fun _ => I := by
  induction xs with
  | nil => exact pure rfl fun _ hi => hi
  | cons x rest ih =>
    exact bind (h x (List.mem_cons_self ..)) fun _ =>
      ih fun y hy => h y (List.mem_cons_of_mem _ hy)

theorem foldlM {γ : Type} {xs : List γ} {g : β → γ → GenM β} {init : β} {W : β → List Nat}
    {I : β → Frame → Prop} (h : ∀ acc, ∀ x ∈ xs, Confines o R lo (W acc) (I acc) (g acc x) W I) :
    Confines o R lo (W init) (I init) (xs.foldlM g init) W I := by
  induction xs generalizing init with
  | nil => exact pure rfl fun _ hi => hi
  | cons x rest ih =>
    exact bind (h init x (List.mem_cons_self ..)) fun acc =>
      ih fun acc' y hy => h acc' y (List.mem_cons_of_mem _ hy)

theorem and_pure {c : Prop} (h : Confines o R lo K P act J Q) :
    Confines o R lo K (fun f => P f ∧ c) act J (fun a f => Q a f ∧ c) :=
  (pure_and (c := c) h).mono (fun _ h => ⟨h.2, h.1⟩) fun _ _ h => ⟨h.2, h.1⟩

theorem zone_post (h : Confines o R lo K P act J Q) :
    Confines o R lo K P act J (fun a f => Q a f ∧ f.Zone R) := by
  intro r a r' hrun hclean
  obtain ⟨h₀, h₁⟩ := h r a r' hrun hclean
  refine ⟨h₀, fun f fs hr hp hz hc => ?_⟩
  obtain ⟨f', fs', hr', hk, hm, hc', hq⟩ := h₁ f fs hr hp hz hc
  exact ⟨f', fs', hr', hk, hm, hc', hq, hm.zone⟩

theorem when_bind {β : Type} {c : Prop} [Decidable c] {x : GenM PUnit} {g : PUnit → GenM β}
    {J : β → List Nat} {Q : β → Frame → Prop}
    (hx : c → Confines o R lo K P x (fun _ => K) fun _ => P) (hg : Confines o R lo K P (g ⟨⟩) J Q) :
    Confines o R lo K P (if c then x >>= g else g ⟨⟩) J Q :=
  ite (fun h => (hx h).bind fun _ => hg) fun _ => hg

theorem ite_bind {β : Type} {c : Prop} [Decidable c] {x y : GenM α} {g : α → GenM β}
    {Jx : α → List Nat} {Qx : α → Frame → Prop} {J : β → List Nat} {Q : β → Frame → Prop}
    (hx : c → Confines o R lo K P x Jx Qx) (hy : ¬c → Confines o R lo K P y Jx Qx)
    (hg : ∀ a, Confines o R lo (Jx a) (Qx a) (g a) J Q) :
    Confines o R lo K P (if c then x >>= g else y >>= g) J Q :=
  ite (fun h => (hx h).bind hg) fun h => (hy h).bind hg

theorem pure_perm {a : α} (hJ : ∀ j, j ∈ J a ↔ j ∈ K) (h : ∀ f, P f → Q a f) :
    Confines o R lo K P (Pure.pure a) J Q := by
  intro r b r' hrun hclean
  cases hrun
  exact ⟨hclean, fun f fs hr hp hz hc => ⟨f, fs, hr, Frame.kept_refl fs, .refl hz,
    hc.congr fun j => (hJ j).symm, h f hp⟩⟩

theorem from_eq {K' : List Nat} (hK : K' = K) (h : Confines o R lo K' P act J Q) :
    Confines o R lo K P act J Q :=
  hK ▸ h

theorem pure_zone {a : α} (hJ : J a = K) (h : ∀ f, P f → f.Zone R → Q a f) :
    Confines o R lo K P (Pure.pure a) J Q := by
  intro r b r' hrun hclean
  cases hrun
  refine ⟨hclean, fun f fs hr hp hz hc => ⟨f, fs, hr, Frame.kept_refl fs, .refl hz, ?_, h f hp hz⟩⟩
  rwa [hJ]

theorem lift {n : Nat} {Q : Nat → α → Frame → Prop}
    (h : ∀ m, n ≤ m → Confines o R lo K (fun f => f.next = m ∧ P f) act J (Q m)) :
    Confines o R lo K (fun f => n ≤ f.next ∧ P f) act J (fun a f => ∃ m, n ≤ m ∧ Q m a f) := by
  intro r a r' hrun hclean
  refine ⟨(h n (Nat.le_refl n) r a r' hrun hclean).1, fun f fs hr hp hz hc => ?_⟩
  obtain ⟨f', fs', hr', hk, hm, hc', hq⟩ :=
    (h f.next hp.1 r a r' hrun hclean).2 f fs hr ⟨rfl, hp.2⟩ hz hc
  exact ⟨f', fs', hr', hk, hm, hc', f.next, hp.1, hq⟩

theorem forIn_count {γ : Type} {xs : List γ} {g : γ → PUnit → GenM (ForInStep PUnit)}
    {I : Nat → Frame → Prop}
    (h : ∀ j x, Confines o R lo K (I j) (g x ⟨⟩) (fun _ => K)
      fun step f => step = .yield ⟨⟩ ∧ I (j + 1) f) :
    ∀ j, Confines o R lo K (I j) (forIn xs ⟨⟩ g) (fun _ => K) fun _ => I (j + xs.length) := by
  induction xs with
  | nil => exact fun j => pure rfl fun _ hi => hi
  | cons x rest ih =>
    intro j
    simp only [List.forIn_cons]
    refine bind (h j x) fun step => ?_
    cases step with
    | done b => exact pure rfl fun _ hs => nomatch hs.1
    | yield b =>
      refine pre (fun _ hs => hs.2) ((ih (j + 1)).post fun _ _ hi => ?_)
      simpa [Nat.add_assoc, Nat.add_comm 1] using hi

theorem of_head (val : Frame → α) {g : Frame → Frame}
    (hrun : ∀ r a r', (act.run o).run r = .ok (a, r') → ∃ f fs, r.frames = f :: fs ∧
      a = val f ∧ r'.frames = g f :: fs ∧ r'.reports = r.reports)
    (hf : ∀ f, P f → f.Zone R → f.chunk.Confined R lo K →
      f.Moved R lo (g f) ∧ (g f).chunk.Confined R lo (J (val f)) ∧ Q (val f) (g f)) :
    Confines o R lo K P act J Q := by
  intro r a r' h hclean
  obtain ⟨f, fs, hr, rfl, hr', hrep⟩ := hrun r a r' h
  refine ⟨hrep ▸ hclean, fun f₀ fs₀ hr₀ hp hz hc => ?_⟩
  rw [hr] at hr₀
  obtain ⟨rfl, rfl⟩ := List.cons.inj hr₀
  obtain ⟨hm, hc', hq⟩ := hf f hp hz hc
  exact ⟨g f, fs, hr', Frame.kept_refl fs, hm, hc', hq⟩

theorem of_reports (hrep : ∀ r a r', (act.run o).run r = .ok (a, r') → r'.reports ≠ #[]) :
    Confines o R lo K P act J Q :=
  fun r a r' hrun hclean => absurd hclean (hrep r a r' hrun)

theorem vacuous {K' : List Nat} {P₀ : Frame → Prop} {J₀ : α → List Nat} {Q₀ : α → Frame → Prop}
    (h : Confines o R lo K' P₀ act J₀ Q₀) : Confines o R lo K (fun _ => False) act J Q :=
  fun r a r' hrun hclean => ⟨(h r a r' hrun hclean).1, fun _ _ _ hp => hp.elim⟩

theorem spare {S : Nat → Prop} (hS : ∀ f, P f → ∀ reg, f.next ≤ reg → ¬S reg)
    (h : Confines o R lo K P act J Q) :
    Confines o R lo K (fun f => P f ∧ f.NamesSpare S) act J
      (fun a f => Q a f ∧ f.NamesSpare S) := by
  intro r a r' hrun hclean
  obtain ⟨h₀, h₁⟩ := h r a r' hrun hclean
  refine ⟨h₀, fun f fs hr hp hz hc => ?_⟩
  obtain ⟨f', fs', hr', hk, hm, hc', hq⟩ := h₁ f fs hr hp.1 hz hc
  exact ⟨f', fs', hr', hk, hm, hc', hq, hm.names S (hS f hp.1) hp.2⟩

theorem nest {R' : Nat → Prop} {lo' : Nat} {Q : α → Frame → Prop}
    (hR : ∀ reg, R reg → R' reg) (h : Confines o R' lo' [] P act (fun _ => []) Q) :
    Confines o R lo K (fun f => P f ∧ f.chunk.code.size = lo' ∧ ∀ reg, f.next ≤ reg → ¬R' reg)
      act (fun _ => K) Q := by
  intro r a r' hrun hclean
  obtain ⟨h₀, h₁⟩ := h r a r' hrun hclean
  refine ⟨h₀, fun f fs hr ⟨hp, hsize, hfree⟩ hz hc => ?_⟩
  have hz' : f.Zone R' := ⟨hz.registers, hz.next_le, hfree, hz.nested⟩
  obtain ⟨f', fs', hr', hk, hm, hc', hq⟩ :=
    h₁ f fs hr hp hz' (hsize ▸ Chunk.confined_empty f.chunk R')
  have hlo : lo ≤ lo' := hsize ▸ hc.start
  refine ⟨f', fs', hr', hk, ⟨hm.tail, hm.base, hm.next_le, hm.grows,
    fun pc hpc => hm.below pc (by omega), hm.zone.mono hR, hm.names⟩,
    hc.nest (hsize ▸ hc') (fun pc hpc => hm.below pc (by omega)) hR, hq⟩

end Confines

/-! ## Steps of name resolution and emission -/

namespace Frame

variable {R : Nat → Prop} {lo : Nat} {K : List Nat} {f : Frame}

theorem Moved.emit (hz : f.Zone R) (hc : f.chunk.Confined R lo K) (i : Instruction) (s : Span) :
    f.Moved R lo { f with chunk := f.chunk.emit i s } :=
  .of_chunk hz rfl rfl rfl (by simp [Chunk.emit]) (fun pc hpc => by
    simp [Chunk.emit, Array.getElem?_push, Nat.ne_of_lt hpc]) hc.start

theorem Moved.of_code (hz : f.Zone R) (hc : f.chunk.Confined R lo K) {f' : Frame}
    (hcode : f'.chunk.code = f.chunk.code) (hs : f'.scopes = f.scopes) (hn : f'.next = f.next)
    (hr : f'.chunk.registers = f.chunk.registers) : f.Moved R lo f' :=
  .of_chunk hz hs hn hr (Nat.le_of_eq (by rw [hcode])) (fun _ _ => by rw [hcode]) hc.start

end Frame

namespace Confines

variable {α : Type} {o : Options} {R : Nat → Prop} {lo : Nat} {K : List Nat} {n : Nat}
  {P : Frame → Prop}

theorem frame : Confines o R lo K P (liftM Resolver.frame : GenM Frame) (fun _ => K)
    (fun g f => P f ∧ g = f) := by
  refine of_head (id) (g := id) (fun r a r' hrun => ?_)
    fun f hp hz hc => ⟨.refl hz, hc, hp, rfl⟩
  rw [Triple.liftM_run] at hrun
  cases hr : r.frames with
  | nil => rw [Resolver.frame_run_nil hr] at hrun; cases hrun
  | cons f fs =>
    rw [Resolver.frame_run hr] at hrun
    cases hrun
    exact ⟨_, _, rfl, rfl, hr, rfl⟩

theorem chunk : Confines o R lo K P (liftM Resolver.chunk : GenM Chunk) (fun _ => K)
    (fun c f => P f ∧ c = f.chunk) := by
  have h : (liftM Resolver.chunk : GenM Chunk) =
      liftM Resolver.frame >>= fun g => Pure.pure g.chunk := rfl
  rw [h]
  exact frame.bind fun g => pure rfl fun _ ⟨hp, hg⟩ => ⟨hp, hg ▸ rfl⟩

theorem chunkCount (count : Chunk → Nat) :
    Confines o R lo K P (liftM (Resolver.chunkCount count) : GenM Nat) (fun _ => K)
      (fun x f => P f ∧ x = count f.chunk) := by
  refine of_head (fun f => count f.chunk) (g := id) (fun r a r' hrun => ?_)
    fun f hp hz hc => ⟨.refl hz, hc, hp, rfl⟩
  rw [Triple.liftM_run] at hrun
  cases hr : r.frames with
  | nil => rw [Resolver.chunkCount_run_nil hr] at hrun; cases hrun
  | cons f fs =>
    rw [Resolver.chunkCount_run hr] at hrun
    cases hrun
    exact ⟨_, _, rfl, rfl, hr, rfl⟩

theorem inFunction : Confines o R lo K P (liftM Resolver.inFunction : GenM Bool) (fun _ => K)
    (fun b f => P f ∧ b = !f.module) := by
  have h : (liftM Resolver.inFunction : GenM Bool) =
      liftM Resolver.frame >>= fun g => Pure.pure !g.module := rfl
  rw [h]
  exact frame.bind fun g => pure rfl fun _ ⟨hp, hg⟩ => ⟨hp, hg ▸ rfl⟩

theorem modifyFrame (g : Frame → Frame) (hc : ∀ f, (g f).chunk.code = f.chunk.code)
    (hs : ∀ f, (g f).scopes = f.scopes) (hn : ∀ f, (g f).next = f.next)
    (hr : ∀ f, (g f).chunk.registers = f.chunk.registers) :
    Confines o R lo K (fun f => n ≤ f.next) (liftM (Resolver.modifyFrame g) : GenM Unit)
      (fun _ => K) (fun _ f => n ≤ f.next) := by
  refine of_head (fun _ => ()) (g := g) (fun r a r' hrun => ?_) fun f hp hz hcf =>
    ⟨.of_code hz hcf (hc f) (hs f) (hn f) (hr f), hcf.of_code (hc f), le_of_le_of_eq hp (hn f).symm⟩
  rw [Triple.liftM_run] at hrun
  cases hr' : r.frames with
  | nil => rw [Resolver.modifyFrame_run_nil hr'] at hrun; cases hrun
  | cons f fs =>
    rw [Resolver.modifyFrame_run hr'] at hrun
    cases hrun
    exact ⟨f, fs, rfl, rfl, rfl, rfl⟩

theorem modifyChunk (g : Chunk → Chunk) (hc : ∀ c, (g c).code = c.code)
    (hr : ∀ c, (g c).registers = c.registers) :
    Confines o R lo K (fun f => n ≤ f.next) (liftM (Resolver.modifyChunk g) : GenM Unit)
      (fun _ => K) (fun _ f => n ≤ f.next) :=
  modifyFrame _ (fun f => hc f.chunk) (fun _ => rfl) (fun _ => rfl) (fun f => hr f.chunk)

theorem emit {i : Instruction} (hp : i.Plain) (s : Span) :
    Confines o R lo K (fun f => n ≤ f.next ∧ i.Spares R) (Compiler.emit i s) (fun _ => K)
      (fun pc f => n ≤ f.next ∧ pc + 1 = f.chunk.code.size) := by
  refine of_head (fun f => f.chunk.code.size)
    (g := fun f => { f with chunk := f.chunk.emit i s }) (fun r a r' hrun => ?_)
    fun f hp' hz hc => ⟨.emit hz hc i s, hc.emit_plain hp hp'.2 s, hp'.1, by simp [Chunk.emit]⟩
  cases hr : r.frames with
  | nil => rw [emit_run_nil hr] at hrun; cases hrun
  | cons f fs =>
    rw [emit_run hr] at hrun
    cases hrun
    exact ⟨f, fs, rfl, rfl, rfl, rfl⟩

theorem emitABC {op : Op} {a b c : Nat} (hp : (Instruction.abc op.code a b c).Plain) (s : Span) :
    Confines o R lo K (fun f => n ≤ f.next ∧ (Instruction.abc op.code a b c).Spares R)
      (emitABC op a b c s) (fun _ => K) (fun _ f => n ≤ f.next) :=
  (emit hp s).bind fun _ => pure rfl fun _ h => h.1

theorem emitABx {op : Op} {a bx : Nat} (hp : (Instruction.abx op.code a bx).Plain) (s : Span) :
    Confines o R lo K (fun f => n ≤ f.next ∧ (Instruction.abx op.code a bx).Spares R)
      (emitABx op a bx s) (fun _ => K) (fun _ f => n ≤ f.next) :=
  (emit hp s).bind fun _ => pure rfl fun _ h => h.1

theorem openJump {op : Op} {a : Nat} (hj : op.isJump = true) (s : Span) :
    Confines o R lo K (fun f => n ≤ f.next ∧ (Instruction.asbx op.code a 0).Spares R)
      (openJump op a s) (fun pc => K ++ [pc])
      (fun pc f => n ≤ f.next ∧ pc + 1 = f.chunk.code.size) := by
  unfold Compiler.openJump
  refine (pre (fun _ h => ⟨h.2, h.1⟩) (pure_and (modifyFrame
    (fun f => { f with openJumps := f.openJumps + 1 }) (fun _ => rfl) (fun _ => rfl)
    (fun _ => rfl) (fun _ => rfl)))).bind fun _ => ?_
  refine of_head (fun f => f.chunk.code.size)
    (g := fun f => { f with chunk := f.chunk.emit (Instruction.asbx op.code a 0) s })
    (fun r a r' hrun => ?_) fun f hp' hz hc =>
      ⟨.emit hz hc _ s, hc.emit_waiting (by simp [hj]) hp'.1 s, hp'.2, by simp [Chunk.emit]⟩
  cases hr : r.frames with
  | nil => rw [emit_run_nil hr] at hrun; cases hrun
  | cons f fs =>
    rw [emit_run hr] at hrun
    cases hrun
    exact ⟨f, fs, rfl, rfl, rfl, rfl⟩

theorem jump (s : Span) :
    Confines o R lo K (fun f => n ≤ f.next) (jump s) (fun pc => K ++ [pc])
      (fun pc f => n ≤ f.next ∧ pc + 1 = f.chunk.code.size) :=
  pre (fun _ h => ⟨h, Instruction.spares_jmp 0⟩) (openJump rfl s)

theorem testJump {op : Op} {a b c : Nat} (hj : op.isJump = false) (s t : Span) :
    Confines o R lo K (fun f => n ≤ f.next ∧ (Instruction.abc op.code a b c).Spares R)
      (Compiler.emitABC op a b c s >>= fun _ => Compiler.jump t)
      (fun pc => K ++ [pc]) (fun pc f => n ≤ f.next ∧ pc + 1 = f.chunk.code.size) := by
  refine of_head (fun f => f.chunk.code.size + 1)
    (g := fun f => { f with
      chunk := ((f.chunk.emit (Instruction.abc op.code a b c) s).emit waitingJump t),
      openJumps := f.openJumps + 1 }) (fun r x r' hrun => ?_)
    fun f hp' hz hc => ⟨.of_chunk hz rfl rfl rfl (by simp [Chunk.emit]; omega) (fun pc hpc => by
      simp [Chunk.emit, Array.getElem?_push, Nat.ne_of_lt hpc,
        Nat.ne_of_lt (Nat.lt_succ_of_lt hpc)]) hc.start,
      hc.emit_test (by simp [hj]) hp'.2 rfl (Instruction.spares_jmp 0) s t, hp'.1,
      by simp [Chunk.emit]⟩
  cases hr : r.frames with
  | nil => simp [Compiler.emitABC, emit_run_nil hr] at hrun
  | cons f fs =>
    simp only [Triple.bind_run, Compiler.emitABC, emit_run hr, Triple.run_pure_bind,
      ReaderT.run_pure, StateT.run_pure] at hrun
    rw [jump_run (r := { r with frames := { f with chunk := f.chunk.emit _ s } :: fs }) rfl]
      at hrun
    cases hrun
    exact ⟨f, fs, rfl, by simp [Chunk.emit], rfl, rfl⟩

theorem testJump_bind {β : Type} {op : Op} {a b c : Nat} {g : Nat → GenM β}
    {J : β → List Nat} {Q : β → Frame → Prop} (hj : op.isJump = false) (s t : Span)
    (hg : ∀ j, Confines o R lo (K ++ [j]) (fun f => n ≤ f.next ∧ j + 1 = f.chunk.code.size) (g j)
      J Q) :
    Confines o R lo K (fun f => n ≤ f.next ∧ (Instruction.abc op.code a b c).Spares R)
      (Compiler.emitABC op a b c s >>= fun _ => Compiler.jump t >>= g) J Q := by
  rw [← bind_assoc]
  exact (testJump hj s t).bind hg

theorem here : Confines o R lo K (fun f => n ≤ f.next) Compiler.here (fun _ => K)
    (fun pc f => n ≤ f.next ∧ pc = f.chunk.code.size ∧ lo ≤ pc) := by
  refine of_head (fun f => f.chunk.code.size) (g := id) (fun r a r' hrun => ?_)
    fun f hp hz hc => ⟨.refl hz, hc, hp, rfl, hc.start⟩
  simp only [Compiler.here, Triple.bind_run, Triple.liftM_run] at hrun
  cases hr : r.frames with
  | nil => rw [Resolver.chunk_run_nil hr] at hrun; cases hrun
  | cons f fs =>
    rw [Resolver.chunk_run hr] at hrun
    cases hrun
    exact ⟨_, _, rfl, rfl, hr, rfl⟩

theorem errorAt {J : Unit → List Nat} {Q : Unit → Frame → Prop} (s : Span) (m : Message)
    (args : List Text.Arg) : Confines o R lo K P (errorAt s m args) J Q :=
  of_reports fun r a r' hrun => by
    cases hrun
    simp

theorem errorAt_bind {β : Type} {g : Unit → GenM β} {J : β → List Nat} {Q : β → Frame → Prop}
    {K₀ : List Nat} {P₀ : Frame → Prop} {J₀ : β → List Nat} {Q₀ : β → Frame → Prop} (s : Span)
    (m : Message) (args : List Text.Arg) (hg : Confines o R lo K₀ P₀ (g ()) J₀ Q₀) :
    Confines o R lo K P (Compiler.errorAt s m args >>= g) J Q :=
  (errorAt (J := fun _ => K) (Q := fun _ _ => False) s m args).bind fun _ => hg.vacuous

theorem patch_run {pcs : List Nat} {T : Nat} :
    ∀ {r : Resolver} {a : Unit} {r' : Resolver}, ((Compiler.patch pcs T).run o).run r = .ok (a, r') →
      r'.reports = r.reports ∧ ∀ f fs, r.frames = f :: fs → ∃ g, r'.frames = g :: fs ∧
        g.scopes = f.scopes ∧ g.next = f.next ∧ g.chunk.registers = f.chunk.registers ∧
        Chunk.Retargets pcs T f.chunk g.chunk := by
  induction pcs with
  | nil =>
    intro r a r' hrun
    cases hrun
    exact ⟨rfl, fun f fs hr => ⟨f, hr, rfl, rfl, rfl, .nil T f.chunk⟩⟩
  | cons p ps ih =>
    intro r a r' hrun
    unfold Compiler.patch at hrun
    rw [show ∀ g : Nat → GenM PUnit, (p :: ps).forM g = (g p >>= fun _ => ps.forM g) from
      fun _ => rfl, Triple.bind_run] at hrun
    cases hr : r.frames with
    | nil =>
      simp only [Triple.bind_run, Triple.liftM_run, Resolver.chunk_run_nil hr] at hrun
      cases hrun
    | cons f fs =>
      simp only [Triple.bind_run, Triple.liftM_run, Resolver.chunk_run hr,
        Triple.run_pure_bind] at hrun
      split at hrun
      · rename_i c' hp
        rw [Triple.liftM_run, Resolver.modifyFrame_run hr] at hrun
        simp only [Triple.run_pure_bind] at hrun
        obtain ⟨hrep, h⟩ := ih hrun
        refine ⟨hrep, fun f₀ fs₀ hr₀ => ?_⟩
        obtain ⟨rfl, rfl⟩ := List.cons.inj hr₀
        obtain ⟨g, hr', hs, hn, hreg, ht⟩ := h _ _ rfl
        have hreg' : c'.registers = f.chunk.registers := by
          rw [(Chunk.retargets_patchJump hp).eq]
        exact ⟨g, hr', hs, hn, hreg.trans hreg', (Chunk.retargets_patchJump hp).cons ht⟩
      · cases hrun

theorem patch {pcs K' : List Nat} {T : Nat} (hpcs : ∀ pc ∈ pcs, pc ∈ K)
    (hK' : ∀ j ∈ K', j ∈ K) (hK : ∀ j ∈ K, j ∉ pcs → j ∈ K') :
    Confines o R lo K (fun f => n ≤ f.next ∧ lo ≤ T) (Compiler.patch pcs T) (fun _ => K')
      (fun _ f => n ≤ f.next) := by
  intro r a r' hrun hclean
  obtain ⟨hrep, h⟩ := patch_run hrun
  refine ⟨hrep ▸ hclean, fun f fs hr ⟨hn, hT⟩ hz hc => ?_⟩
  obtain ⟨g, hr', hs, hn', hreg, ht⟩ := h f fs hr
  -- the jumps patched wait in the region, so the code below it is kept
  have hbelow : ∀ pc < lo, g.chunk.code[pc]? = f.chunk.code[pc]? := fun pc hpc =>
    ht.kept pc fun hmem => absurd (hc.waiting pc (hpcs pc hmem)).1 (by omega)
  refine ⟨g, fs, hr', Frame.kept_refl fs, ⟨by rw [hs], by rw [hs], Nat.le_of_eq hn'.symm,
    Nat.le_of_eq ht.size.symm, hbelow, hz.congr hs hn' hreg, fun _ _ h => h.congr hs⟩,
    hc.retargets ht hpcs hT hK' hK, le_of_le_of_eq hn hn'.symm⟩

theorem patchHere {pcs K' : List Nat} (hpcs : ∀ pc ∈ pcs, pc ∈ K)
    (hK' : ∀ j ∈ K', j ∈ K) (hK : ∀ j ∈ K, j ∉ pcs → j ∈ K') :
    Confines o R lo K (fun f => n ≤ f.next) (Compiler.patchHere pcs) (fun _ => K')
      (fun _ f => n ≤ f.next) :=
  here.bind fun _ => pre (fun _ h => ⟨h.1, h.2.2⟩) (patch hpcs hK' hK)

theorem boolBySkip {F : List Nat} (dst : Nat) (s : Span) :
    Confines o R lo (K ++ F) (fun f => n ≤ f.next ∧ ¬R dst ∧ dst < 256)
      (Compiler.emitABC .loadBool dst 1 1 s >>= fun _ => Compiler.patchHere F >>= fun _ =>
        Compiler.emitABC .loadBool dst 0 0 s) (fun _ => K) (fun _ f => n ≤ f.next) := by
  intro r a r' hrun hclean
  cases hr : r.frames with
  | nil => simp [Compiler.emitABC, emit_run_nil hr] at hrun
  | cons f fs =>
    simp only [Compiler.emitABC, Triple.bind_run, emit_run hr, Triple.run_pure_bind,
      Compiler.patchHere, Compiler.here, Triple.liftM_run, ReaderT.run_pure, StateT.run_pure] at hrun
    rw [Resolver.chunk_run (r := { r with frames := { f with chunk := f.chunk.emit _ s } :: fs }) rfl] at hrun
    simp only [Triple.run_pure_bind] at hrun
    obtain ⟨⟨u, r₁⟩, hpatch, hlast⟩ := Triple.bind_eq_ok hrun
    obtain ⟨hrep, hpt⟩ := patch_run hpatch
    obtain ⟨g, hr₁, hgs, hgn, hgr, ht⟩ := hpt _ fs rfl
    rw [emit_run hr₁] at hlast
    cases hlast
    refine ⟨hrep ▸ hclean, fun f₀ fs₀ hr₀ hp hz hc => ?_⟩
    obtain ⟨hn, hd, hdl⟩ := hp
    obtain ⟨rfl, rfl⟩ := List.cons.inj hr₀
    have ht' : Chunk.Retargets F (f.chunk.code.size + 1)
        (f.chunk.emit (Instruction.abc Op.loadBool.code dst 1 1) s) g.chunk := by
      simpa [Chunk.nextPc, Chunk.emit] using ht
    have hF : ∀ j ∈ F, lo ≤ j := fun j hj => (hc.waiting j (List.mem_append_right _ hj)).1
    have hsize : g.chunk.code.size = f.chunk.code.size + 1 := by
      rw [ht'.size]
      simp [Chunk.emit]
    have hspare : ∀ b c : Nat, (Instruction.abc Op.loadBool.code dst b c).Spares R :=
      fun b c => Instruction.spares_abc .loadBool hdl b c (by decide) fun _ => hd
    refine ⟨_, fs, rfl, Frame.kept_refl fs, ⟨by simp [hgs], by simp [hgs], by simp [hgn],
      by simp only [Chunk.emit, Array.size_push, hsize]; omega, fun pc hpc => ?_, ?_,
      fun _ _ h => h.congr (by simp [hgs])⟩,
      hc.skip_retargets (by rw [Instruction.op?_abc]; rfl) (hspare 1 1)
        (Instruction.plain_of_op (Instruction.op?_abc _ _ _ _) rfl rfl
          fun _ => Instruction.c_abc_of_lt (by decide) _ _ _) (hspare 0 0) s s ht',
      by simpa [hgn] using hn⟩
    · have hpc' : pc ∉ F := fun h => absurd (hF pc h) (by omega)
      have hlt : pc < f.chunk.code.size := Nat.lt_of_lt_of_le hpc hc.start
      simp only [Chunk.emit, Array.getElem?_push, hsize]
      rw [if_neg (by omega), ht'.kept pc hpc']
      simp [Chunk.emit, Array.getElem?_push, Nat.ne_of_lt hlt]
    · exact hz.congr (by simp [hgs]) (by simp [hgn]) (by simp [Chunk.emit, hgr])

theorem alloc_keeping {S : List Scope → Prop} :
    Confines o R lo K (fun f => f.next = n ∧ S f.scopes) (liftM Resolver.alloc : GenM Nat)
      (fun _ => K) (fun t f => t = n ∧ f.next = n + 1 ∧ (∀ reg, n ≤ reg → ¬R reg) ∧
        t < registerLimit ∧ S f.scopes) := by
  intro r a r' hrun hclean
  rw [Triple.liftM_run] at hrun
  cases hr : r.frames with
  | nil => simp [Resolver.alloc, Resolver.frame_run_nil hr] at hrun
  | cons f fs =>
    simp only [Resolver.alloc, StateT.run_bind, Resolver.frame_run hr, pure_bind] at hrun
    split at hrun
    · split at hrun
      · -- the overflow is reported, so the run is not clean
        simp only [StateT.run_bind, Resolver.report_run, pure_bind, StateT.run_pure] at hrun
        obtain ⟨⟨x, r₁⟩, hmod, hrest⟩ := Triple.bind_eq_ok hrun
        cases hrest
        exact absurd ((Resolver.modifyChunk_reports hmod).symm.trans hclean) (by simp)
      · cases hrun
        refine ⟨hclean, fun f₀ fs₀ hr₀ _ hz _ => ?_⟩
        obtain ⟨rfl, rfl⟩ := List.cons.inj hr₀
        exact absurd hz.registers ‹_›
    · rename_i hfree
      simp [Resolver.modifyFrame_run hr] at hrun
      obtain ⟨rfl, rfl⟩ := hrun
      refine ⟨hclean, fun f₀ fs₀ hr₀ hp hz hc => ?_⟩
      obtain ⟨hn, hs⟩ := hp
      obtain ⟨rfl, rfl⟩ := List.cons.inj hr₀
      have hlt : f.next < registerLimit := Nat.lt_of_not_le hfree
      subst hn
      refine ⟨_, _, rfl, Frame.kept_refl _, ⟨rfl, rfl, Nat.le_succ _, Nat.le_refl _, fun _ _ => rfl,
        ⟨?_, hlt, fun reg hreg => hz.free reg (by simp at hreg; omega), hz.nested.mono (by simp)⟩,
        fun _ _ h => h⟩, hc.of_code rfl, rfl, rfl, hz.free, hlt, hs⟩
      have := hz.registers
      simp only [registerLimit] at hlt this ⊢
      omega

theorem alloc : Confines o R lo K (fun f => n ≤ f.next) (liftM Resolver.alloc : GenM Nat)
    (fun _ => K) (fun t f => n ≤ t ∧ f.next = t + 1 ∧ (∀ reg, t ≤ reg → ¬R reg) ∧
      t < registerLimit) :=
  (lift (P := fun _ => True) fun m _ => alloc_keeping (n := m) (S := fun _ => True)).mono
    (fun _ hn => ⟨hn, trivial⟩) fun _ _ ⟨_, hm, ht, hn, hfree, hlt, _⟩ => by
      subst ht
      exact ⟨hm, hn, hfree, hlt⟩

theorem temp : Confines o R lo K (fun f => n ≤ f.next) Compiler.temp
    (fun _ => K) (fun t f => n ≤ t ∧ f.next = t + 1 ∧ (∀ reg, t ≤ reg → ¬R reg) ∧
      t < registerLimit) :=
  alloc

theorem temps_keeping (k : Nat) {S : List Scope → Prop} :
    Confines o R lo K (fun f => f.next = n ∧ S f.scopes) (liftM (Resolver.temps k) : GenM Nat)
      (fun _ => K) (fun base f => f.next = n + k ∧ (∀ reg, n ≤ reg → ¬R reg) ∧
        (0 < k → base = n) ∧ S f.scopes) := by
  unfold Resolver.temps
  split
  · rename_i hk
    have hk' : k = 0 := by simpa using hk
    subst hk'
    refine pure_zone rfl fun f hp hz => ?_
    obtain ⟨hn, hs⟩ := hp
    exact ⟨hn, fun reg hreg => hz.free reg (by omega), fun h => absurd h (Nat.lt_irrefl 0), hs⟩
  · rename_i hk
    have hk' : k ≠ 0 := by simpa using hk
    rw [Triple.liftM_bind]
    refine alloc_keeping.bind fun base => ?_
    rw [Triple.liftM_bind, Std.Legacy.Range.forIn_eq_forIn_range', Triple.liftM_forIn]
    -- after `j` more passes, `j + 1` registers are handed out
    refine bind (pre ?_ ((forIn_count (I := fun j f => base = n ∧
        (∀ reg, n ≤ reg → ¬R reg) ∧ f.next = n + 1 + j ∧ S f.scopes) (fun j _ => ?_) 0).post ?_) :
        Confines o R lo K _ _ (fun _ => K) fun _ f => base = n ∧ (∀ reg, n ≤ reg → ¬R reg) ∧
          f.next = n + 1 + (k - 1) ∧ S f.scopes) fun _ => ?_
    · intro f hp
      obtain ⟨hb, hn, hfree, _, hs⟩ := hp
      exact ⟨hb, hfree, by omega, hs⟩
    · rw [Triple.liftM_bind]
      refine bind (pre (fun f h => ⟨⟨h.1, h.2.1⟩, h.2.2.1, h.2.2.2⟩)
        (pure_and (c := base = n ∧ ∀ reg, n ≤ reg → ¬R reg) alloc_keeping)) fun _ => ?_
      refine pure rfl fun f hp => ?_
      obtain ⟨⟨hb, hfree⟩, _, hn, _, _, hs⟩ := hp
      exact ⟨rfl, hb, hfree, by omega, hs⟩
    · intro _ f h
      simp only [List.length_range', Std.Legacy.Range.size] at h
      refine ⟨h.1, h.2.1, ?_, h.2.2.2⟩
      have := h.2.2.1
      omega
    · rw [Triple.liftM_pure]
      refine pure rfl fun f hp => ?_
      obtain ⟨hb, hfree, hn, hs⟩ := hp
      exact ⟨by omega, hfree, fun _ => hb, hs⟩

theorem temps (k : Nat) : Confines o R lo K (fun f => n ≤ f.next)
    (liftM (Resolver.temps k) : GenM Nat) (fun _ => K)
      (fun base f => n ≤ f.next ∧
        (0 < k → n ≤ base ∧ f.next = base + k ∧ ∀ reg, base ≤ reg → ¬R reg)) :=
  (lift (P := fun _ => True) fun m _ => temps_keeping k (n := m) (S := fun _ => True)).mono
    (fun _ hn => ⟨hn, trivial⟩) fun _ _ ⟨_, hm, hn, hfree, hb, _⟩ =>
      ⟨by omega, fun hk => by
        obtain rfl := hb hk
        exact ⟨hm, hn, hfree⟩⟩

theorem inScope {S : Frame → Prop}
    (hS : ∀ f, S f → S { f with scopes := { base := f.next } :: f.scopes }) {Q : α → Prop}
    {act : GenM α} {J : α → List Nat}
    (h : Confines o R lo K (fun f => n ≤ f.next ∧ S f) act J fun a _ => Q a) :
    Confines o R lo K (fun f => n ≤ f.next ∧ S f) (inScope act) J fun a f => n ≤ f.next ∧ Q a := by
  intro r a r' hrun hclean
  unfold Compiler.inScope at hrun
  rw [Triple.bind_run, Triple.liftM_run] at hrun
  cases hr : r.frames with
  | nil => rw [Resolver.beginScope, Resolver.modifyFrame_run_nil hr] at hrun; cases hrun
  | cons f fs =>
    rw [Resolver.beginScope, Resolver.modifyFrame_run hr] at hrun
    simp only [Triple.run_pure_bind] at hrun
    rw [Triple.bind_run] at hrun
    obtain ⟨⟨a₁, r₂⟩, hact, hrest⟩ := Triple.bind_eq_ok hrun
    rw [Triple.bind_run, Triple.liftM_run] at hrest
    -- leaving the scope: the innermost scope is dropped and its base becomes the next register
    cases hr₂ : r₂.frames with
    | nil =>
      simp only [Resolver.endScope, StateT.run_bind, Resolver.frame_run_nil hr₂] at hrest
      cases hrest
    | cons f₂ fs₂ =>
      simp only [Resolver.endScope, StateT.run_bind, Resolver.frame_run hr₂, pure_bind] at hrest
      split at hrest
      · rename_i sc rest hsc
        rw [Resolver.modifyFrame_run hr₂] at hrest
        cases hrest
        obtain ⟨hclean₁, h'⟩ := h _ _ _ hact hclean
        refine ⟨hclean₁, fun f₀ fs₀ hr₀ hp hz hc => ?_⟩
        obtain ⟨hn, hs⟩ := hp
        obtain ⟨rfl, rfl⟩ := List.cons.inj hr₀
        have hz₁ : Frame.Zone R { f with scopes := { base := f.next } :: f.scopes } :=
          ⟨hz.registers, hz.next_le, hz.free,
            ⟨Nat.le_refl _, ⟨fun _ h => (List.not_mem_nil h).elim, hz.nested⟩⟩⟩
        obtain ⟨f₂', fs₂', hr₂', hk, hm, hc₂, hq⟩ := h' _ fs rfl ⟨hn, hS f hs⟩ hz₁ hc
        rw [hr₂] at hr₂'
        obtain ⟨rfl, rfl⟩ := List.cons.inj hr₂'
        -- the scope left is the one entered
        have htail : rest = f.scopes := by simpa [hsc] using hm.tail
        have hbase : sc.base = f.next := by simpa [hsc] using hm.base
        subst htail
        refine ⟨_, _, rfl, hk, ⟨by simp, by simp, by simp [hbase], hm.grows, hm.below,
          ⟨hm.zone.registers, hbase ▸ hz.next_le, hbase ▸ hz.free, hbase ▸ hz.nested⟩,
          fun S hS hns => ?_⟩, hc₂, by simpa [hbase] using hn, hq⟩
        have hns₂ := hm.names S hS fun s' hs' => by
          rcases List.mem_cons.1 hs' with rfl | hs'
          · exact fun _ h => (List.not_mem_nil h).elim
          · exact hns s' hs'
        exact fun s' hs' => hns₂ s' (by rw [hsc]; exact List.mem_cons_of_mem _ hs')
      · cases hrest

theorem inScope_of {act : GenM α} {J : α → List Nat}
    (h : Confines o R lo K (fun f => n ≤ f.next) act J fun _ _ => True) :
    Confines o R lo K (fun f => n ≤ f.next) (Compiler.inScope act) J fun _ f => n ≤ f.next :=
  (inScope (S := fun _ => True) (fun _ _ => trivial) (Q := fun _ => True)
    (h.pre fun _ hn => hn.1)).mono (fun _ hn => ⟨hn, trivial⟩) fun _ _ h => h.1

theorem inScope_and {c : Prop} {act : GenM α} {J : α → List Nat}
    (h : Confines o R lo K (fun f => n ≤ f.next ∧ c) act J fun _ _ => True) :
    Confines o R lo K (fun f => n ≤ f.next ∧ c) (Compiler.inScope act) J
      fun _ f => n ≤ f.next ∧ c :=
  inScope (S := fun _ => c) (fun _ h => h) (Q := fun _ => c)
    ((and_pure (c := c) h).mono (fun _ h => ⟨h, h.2⟩) fun _ _ h => h.2)

theorem loadK (dst id : Nat) (s : Span) :
    Confines o R lo K (fun f => n ≤ f.next ∧ ¬R dst ∧ dst < 256) (loadK dst id s) (fun _ => K)
      (fun _ f => n ≤ f.next) := by
  have hload : ∀ bx : Nat, Confines o R lo K (fun f => n ≤ f.next ∧ ¬R dst ∧ dst < 256)
      (Compiler.emitABx .loadK dst bx s) (fun _ => K) (fun _ f => n ≤ f.next) := fun bx =>
    pre (fun _ ⟨hn, hd, hdl⟩ => ⟨hn, Instruction.spares_abx .loadK hdl bx (by decide) fun _ => hd⟩)
      (emitABx (Instruction.plain_of_op (Instruction.op?_abx Op.loadK dst bx) rfl rfl nofun) s)
  unfold Compiler.loadK
  refine ite (fun _ => ?_) fun _ => hload _
  exact chunk.bind fun _ => errorAt_bind _ _ _ (hload 0)

theorem inRegister (src : Nat) (s : Span) :
    Confines o R lo K (fun f => n ≤ f.next) (inRegister src s) (fun _ => K)
      (fun x f => n ≤ f.next ∧ x < registerLimit) := by
  unfold Compiler.inRegister
  refine ite (fun h => pure rfl fun _ hn => ⟨hn, h⟩) fun _ => temp.bind fun t => ?_
  refine (pre (fun f ⟨ht, hn, hfree, hlt⟩ => ⟨hlt, by omega, hfree t (Nat.le_refl _), by
    simp only [registerLimit] at hlt; omega⟩)
    (pure_and (c := t < registerLimit) (loadK t src s))).bind
    fun _ => pure rfl fun f ⟨ht, hn⟩ => ⟨hn, ht⟩

theorem rk (id : Nat) (s : Span) :
    Confines o R lo K (fun f => n ≤ f.next) (Compiler.rk id s) (fun _ => K)
      (fun _ f => n ≤ f.next) := by
  unfold Compiler.rk
  refine ite (fun _ => pure rfl fun _ h => h) fun _ => temp.bind fun t => ?_
  refine (pre (fun f ⟨ht, hn, hfree, hlt⟩ => ⟨by omega, hfree t (Nat.le_refl _), by
    simp only [registerLimit] at hlt; omega⟩) (loadK t id s)).bind
    fun _ => pure rfl fun f hn => hn

theorem intern (key : ConstKey) (v : Value) :
    Confines o R lo K (fun f => n ≤ f.next) (liftM (Resolver.intern key v) : GenM Nat)
      (fun _ => K) (fun _ f => n ≤ f.next) := by
  intro r a r' hrun hclean
  rw [Triple.liftM_run] at hrun
  cases hr : r.frames with
  | nil => simp [Resolver.intern, Resolver.frame_run_nil hr] at hrun
  | cons f fs =>
    simp only [Resolver.intern, StateT.run_bind, Resolver.frame_run hr, pure_bind] at hrun
    split at hrun
    · cases hrun
      refine ⟨hclean, fun f₀ fs₀ hr₀ hn hz hc => ?_⟩
      obtain ⟨rfl, rfl⟩ := List.cons.inj hr₀
      exact ⟨_, _, hr, Frame.kept_refl _, .refl hz, hc, hn⟩
    · simp only [StateT.run_bind, Resolver.modifyFrame_run hr, pure_bind] at hrun
      cases hrun
      refine ⟨hclean, fun f₀ fs₀ hr₀ hn hz hc => ?_⟩
      obtain ⟨rfl, rfl⟩ := List.cons.inj hr₀
      exact ⟨_, _, rfl, Frame.kept_refl _, .of_code hz hc rfl rfl rfl rfl, hc.of_code rfl, hn⟩

theorem numberId (x : Float) :
    Confines o R lo K (fun f => n ≤ f.next) (liftM (Resolver.numberId x) : GenM Nat) (fun _ => K)
      (fun _ f => n ≤ f.next) :=
  intern _ _

theorem textId (t : String) :
    Confines o R lo K (fun f => n ≤ f.next) (liftM (Resolver.textId t) : GenM Nat) (fun _ => K)
      (fun _ f => n ≤ f.next) :=
  intern _ _

theorem notify (nt : Notification) :
    Confines o R lo K (fun f => n ≤ f.next) (Compiler.notify nt) (fun _ => K)
      (fun _ f => n ≤ f.next) := by
  have hop := Instruction.op?_abx Op.notify 0
  refine of_head (fun _ => ())
    (g := fun f => { f with
      chunk := ({ f.chunk with notifications := f.chunk.notifications.push nt }.emit
        (Instruction.abx Op.notify.code 0 f.chunk.notifications.size) nt.span) })
    (fun r a r' hrun => ?_) fun f hn hz hc =>
      ⟨.of_chunk hz rfl rfl rfl (by simp [Chunk.emit]) (fun pc hpc => by
        simp [Chunk.emit, Array.getElem?_push, Nat.ne_of_lt hpc]) hc.start,
      (show Chunk.Confined R lo K { f.chunk with notifications := f.chunk.notifications.push nt }
        from hc.of_code rfl).emit_plain
        (Instruction.plain_of_op (hop _) rfl rfl nofun)
        (Instruction.spares_of_op (hop _) (by decide) fun h => absurd h (by decide)) _, hn⟩
  cases hr : r.frames with
  | nil => simp [Compiler.notify, Resolver.chunkCount_run_nil hr] at hrun
  | cons f fs =>
    rw [notify_run hr] at hrun
    cases hrun
    exact ⟨f, fs, rfl, rfl, rfl, rfl⟩

theorem step (s : Span) :
    Confines o R lo K (fun f => n ≤ f.next) (Compiler.step s) (fun _ => K)
      (fun _ f => n ≤ f.next) := by
  unfold Compiler.step
  refine listening_bind .singleStep fun _ => ite (fun _ => ?_) fun _ => pure rfl fun _ h => h
  refine frame.bind fun _ => ite (fun _ => ?_) fun _ => pure rfl fun _ h => h.1
  exact (pre (fun _ h => h.1) (modifyFrame (fun f => { f with lastLine := s.start.line })
    (fun _ => rfl) (fun _ => rfl) (fun _ => rfl) (fun _ => rfl))).bind fun _ => notify _

theorem notifyAssign (s : Span) (name : String) (storage : Int) (value : Nat) :
    Confines o R lo K (fun f => n ≤ f.next) (Compiler.notifyAssign s name storage value)
      (fun _ => K) (fun _ f => n ≤ f.next) := by
  unfold Compiler.notifyAssign
  exact listening_bind .assignment fun _ =>
    ite (fun _ => notify _) fun _ => pure rfl fun _ h => h

theorem globalSlot_keeps {name : String} {r r' : Resolver} {i : Nat}
    (h : (Resolver.globalSlot name).run r = .ok (i, r')) :
    r'.frames = r.frames ∧ r'.reports = r.reports := by
  simp only [Resolver.globalSlot, StateT.run_bind, StateT.run_get, pure_bind] at h
  split at h
  · cases h
    exact ⟨rfl, rfl⟩
  · simp only [StateT.run_bind, StateT.run_set, pure_bind, StateT.run_pure] at h
    cases h
    exact ⟨rfl, rfl⟩

theorem globalSlot (name : String) :
    Confines o R lo K P (liftM (Resolver.globalSlot name) : GenM Nat) (fun _ => K)
      (fun _ f => P f) := by
  intro r a r' hrun hclean
  rw [Triple.liftM_run] at hrun
  obtain ⟨hfr, hrep⟩ := globalSlot_keeps hrun
  refine ⟨hrep ▸ hclean, fun f fs hr hp hz hc => ⟨f, fs, hfr.trans hr, Frame.kept_refl fs,
    .refl hz, hc, hp⟩⟩

theorem find (name : String) :
    Confines o R lo K (fun f => n ≤ f.next) (liftM (Resolver.find name) : GenM Variable)
      (fun _ => K) (fun v f => n ≤ f.next ∧
        (v.place = .register → ∃ s ∈ f.scopes, (name, v.index) ∈ s.names)) := by
  intro r a r' hrun hclean
  rw [Triple.liftM_run] at hrun
  cases hr : r.frames with
  | nil => simp [Resolver.find, Resolver.frame_run_nil hr] at hrun
  | cons f fs =>
    simp only [Resolver.find, StateT.run_bind, Resolver.frame_run hr, pure_bind] at hrun
    split at hrun
    · -- a register of the innermost function
      rename_i reg hreg
      cases hrun
      refine ⟨hclean, fun f₀ fs₀ hr₀ hn hz hc => ?_⟩
      obtain ⟨rfl, rfl⟩ := List.cons.inj hr₀
      obtain ⟨s, hs, hl⟩ := List.exists_of_findSome?_eq_some hreg
      exact ⟨_, _, hr, Frame.kept_refl _, .refl hz, hc, hn, fun _ => ⟨s, hs,
        mem_of_lookup_eq_some hl⟩⟩
    · simp only [StateT.run_bind, StateT.run_get, pure_bind] at hrun
      split at hrun
      · -- a capture: the open functions gain captures only
        rename_i i frames hcap
        simp only [StateT.run_bind, StateT.run_modify, pure_bind, StateT.run_pure] at hrun
        cases hrun
        refine ⟨hclean, fun f₀ fs₀ hr₀ hn hz hc => ?_⟩
        obtain ⟨rfl, rfl⟩ := List.cons.inj hr₀
        have hk := captureIn_kept hcap
        rw [hr] at hk
        obtain ⟨f', fs', hkf, hks, rfl⟩ := List.forall₂_cons_left_iff.1 hk
        exact ⟨f', fs', rfl, hks, .of_code hz hc hkf.code hkf.scopes hkf.next hkf.registers,
          hc.of_code hkf.code, le_of_le_of_eq hn hkf.next.symm, fun h => by cases h⟩
      · -- a global
        rename_i hnone
        obtain ⟨⟨i, r₁⟩, hg, hrest⟩ := Triple.bind_eq_ok hrun
        cases hrest
        obtain ⟨hfr, hrep⟩ := globalSlot_keeps hg
        refine ⟨hrep ▸ hclean, fun f₀ fs₀ hr₀ hn hz hc => ?_⟩
        obtain ⟨rfl, rfl⟩ := List.cons.inj hr₀
        exact ⟨_, _, hfr.trans hr, Frame.kept_refl _, .refl hz, hc, hn, fun h => by cases h⟩

theorem storageOf (name : String) :
    Confines o R lo K (fun f => n ≤ f.next) (storageOf name) (fun _ => K)
      (fun _ f => n ≤ f.next) :=
  (find name).bind fun _ => pure rfl fun _ h => h.1

theorem define (name : String) {b : Bool} :
    Confines o R lo K (fun f => f.next = n ∧ f.module = b)
      (liftM (Resolver.define name) : GenM Variable) (fun _ => K)
      (fun v f => (b = true → v.place = .global ∧ f.next = n) ∧
        (v.place = .register → v.index = n ∧ f.next = n + 1 ∧ ¬R n ∧ n < registerLimit)) := by
  intro r a r' hrun hclean
  rw [Triple.liftM_run] at hrun
  cases hr : r.frames with
  | nil => simp [Resolver.define, Resolver.frame_run_nil hr] at hrun
  | cons f fs =>
    simp only [Resolver.define, StateT.run_bind, Resolver.frame_run hr, pure_bind] at hrun
    split at hrun
    · -- the top level: a global slot, and the frames are as they were
      obtain ⟨⟨i, r₁⟩, hg, hrest⟩ := Triple.bind_eq_ok hrun
      cases hrest
      obtain ⟨hfr, hrep⟩ := globalSlot_keeps hg
      refine ⟨hrep ▸ hclean, fun f₀ fs₀ hr₀ ⟨hn, _⟩ hz hc => ?_⟩
      obtain ⟨rfl, rfl⟩ := List.cons.inj hr₀
      exact ⟨f, fs, hfr.trans hr, Frame.kept_refl _, .refl hz, hc, fun _ => ⟨rfl, hn⟩, nofun⟩
    · -- a function: the next free register, then bound in the innermost scope; the new name
      -- is the register that was free, so it spares every set that the free registers spare
      rename_i hmod
      rw [StateT.run_bind] at hrun
      obtain ⟨⟨reg, r₁⟩, halloc, hrest⟩ := Triple.bind_eq_ok hrun
      have halloc' : ((liftM Resolver.alloc : GenM Nat).run o).run r = .ok (reg, r₁) := by
        rw [Triple.liftM_run]
        exact halloc
      simp only [StateT.run_bind] at hrest
      cases hr₁ : r₁.frames with
      | nil => simp [Resolver.frame_run_nil hr₁] at hrest
      | cons f₁ fs₁ =>
        simp only [Resolver.frame_run hr₁, pure_bind] at hrest
        split at hrest
        · rename_i sc rest hsc
          simp only [StateT.run_bind, Resolver.modifyFrame_run hr₁, pure_bind,
            StateT.run_pure] at hrest
          cases hrest
          obtain ⟨hclean₀, halloc''⟩ := (alloc_keeping (n := n) (S := fun _ => True) :
            Confines o R lo K _ _ _ _) r reg r₁ halloc' hclean
          refine ⟨hclean₀, fun f₀ fs₀ hr₀ ⟨hn, hb⟩ hz hc => ?_⟩
          obtain ⟨f₁', fs₁', hr₁', hk, hm, hc₁, rfl, hn₁, hfree, hlt, -⟩ :=
            halloc'' f₀ fs₀ (hr.trans hr₀) ⟨hn, trivial⟩ hz hc
          rw [hr₁] at hr₁'
          obtain ⟨rfl, rfl⟩ := List.cons.inj hr₁'
          obtain ⟨rfl, rfl⟩ := List.cons.inj hr₀
          have hnest := hm.zone.nested
          rw [hsc] at hnest
          obtain ⟨hb', hnames, hrest'⟩ := hnest
          have hspare := hm.names
          refine ⟨_, _, rfl, hk, ⟨by simpa [hsc] using hm.tail, by simpa [hsc] using hm.base,
            by simp [hn₁, hn], hm.grows, hm.below, ⟨hm.zone.registers, hm.zone.next_le,
              hm.zone.free, hb', fun p hp => ?_, hrest'⟩, fun S hS hns s' hs' => ?_⟩,
            hc₁.of_code rfl, fun hbt => absurd (hb.trans hbt) hmod, fun _ =>
              ⟨rfl, hn₁, hfree _ (Nat.le_refl _), hlt⟩⟩
          · rcases List.mem_cons.1 hp with rfl | hp
            · simp [hn₁]
            · exact hnames p hp
          · rcases List.mem_cons.1 hs' with rfl | hs'
            · intro p hp
              rcases List.mem_cons.1 hp with rfl | hp
              · exact hS _ (Nat.le_of_eq hn)
              · exact hspare S hS hns sc (by simp [hsc]) p hp
            · exact hspare S hS hns s' (by simp [hsc, hs'])
        · cases hrest

theorem targetOf (name : String) (s : Span) :
    Confines o R lo K (fun f => n ≤ f.next ∧ f.NamesSpare R) (targetOf name s) (fun _ => K)
      (fun v f => n ≤ f.next ∧ f.NamesSpare R ∧
        (v.place = .register → ¬R v.index ∧ v.index < registerLimit)) := by
  unfold Compiler.targetOf
  refine inFunction.bind fun b => ite (fun hb => ?_) fun hb => ?_
  · -- the top level: a global slot
    refine (lift (P := fun f => f.module = true ∧ f.NamesSpare R) fun m _ =>
      (names (define (n := m) name (b := true))).pre fun f ⟨hm, hb, hns⟩ => ⟨⟨hm, hb⟩, hns⟩).mono
      (fun f ⟨⟨hn, hns⟩, hbm⟩ => ⟨hn, by simp_all, hns⟩) fun v f ⟨m, hm, ⟨hg, _⟩, hns⟩ => ?_
    obtain ⟨hplace, hn⟩ := hg rfl
    exact ⟨le_of_le_of_eq hm hn.symm, hns, fun h => by rw [hplace] at h; cases h⟩
  · refine (pre (fun f h => h.1) (names (find name))).bind fun v => ?_
    refine ite (fun _ => throw_bind) fun hv => ?_
    refine pure_zone rfl fun f ⟨⟨hn, hbound⟩, hns⟩ hz => ⟨hn, hns, fun hreg => ?_⟩
    obtain ⟨s', hs', hp⟩ := hbound hreg
    exact ⟨hns s' hs' _ hp, hz.bound_lt hs' hp⟩

end Confines

end Compiler

end ScriptMachine
