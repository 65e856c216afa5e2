import Mathlib
import ScriptMachine.Value.Access
import ScriptMachine.Proofs.Machine.Controls
/-!
# Ranges are integer progressions

A range holds a start, a stop and a step as signed 64-bit words and computes with them in
wrapping word arithmetic. When the length's numerator stays within the word
(`Progression.Fits`), this is the arithmetic of the integers the words stand for: the length
counts the terms `start + i * step` before the stop, indexing gives them, and membership holds
exactly of them (`ranges_are_progressions`). Past those bounds the words wrap.
-/

namespace ScriptMachine

namespace Progression

variable {r : Progression}

def Before (r : Progression) (x : Int) : Prop :=
  (0 < r.step.toInt ∧ x < r.stop.toInt) ∨ (r.step.toInt < 0 ∧ r.stop.toInt < x)

def term (r : Progression) (i : Int) : Int := r.start.toInt + i * r.step.toInt

/-- The length's numerator stays within the word: `stop - start + step - 1` going up and
`start - stop - step - 1` going down are below `2^63`. -/
def Fits (r : Progression) : Prop :=
  (0 < r.step.toInt → r.start.toInt < r.stop.toInt →
    r.stop.toInt - r.start.toInt + r.step.toInt - 1 < 2 ^ 63) ∧
  (r.step.toInt < 0 → r.stop.toInt < r.start.toInt →
    r.start.toInt - r.stop.toInt - r.step.toInt - 1 < 2 ^ 63)

instance : DecidablePred Fits := fun r => by
  unfold Fits
  infer_instance

/-! ## Word arithmetic -/

theorem toInt_eq_of_bmod {w : Int64} {x : Int} (hw : w.toInt = x.bmod (2 ^ 64))
    (lo : -2 ^ 63 ≤ x) (hi : x < 2 ^ 63) : w.toInt = x := by
  rw [hw]
  exact Int.bmod_eq_of_le lo hi

theorem toInt_up (a b c : Int64) :
    (a - b + c - 1).toInt = (a.toInt - b.toInt + c.toInt - 1).bmod (2 ^ 64) := by
  simp only [Int64.toInt_sub, Int64.toInt_add, Int64.toInt_one, Int.bmod_add_bmod,
    Int.bmod_sub_bmod]

theorem toInt_down (a b c : Int64) :
    (a - b - c - 1).toInt = (a.toInt - b.toInt - c.toInt - 1).bmod (2 ^ 64) := by
  simp only [Int64.toInt_sub, Int64.toInt_one, Int.bmod_sub_bmod]

theorem toInt_get (r : Progression) (i : Int) :
    (r.get (Int64.ofInt i)).toInt = (r.term i).bmod (2 ^ 64) := by
  simp only [get, term, Int64.toInt_add, Int64.toInt_mul, Int64.toInt_ofInt, Int.add_bmod_bmod,
    Int.bmod_mul_bmod]
  rfl

theorem lt_ceilDiv_iff {d k i : Int} (hk : 0 < k) : i < (d + k - 1) / k ↔ i * k < d := by
  rw [Int.lt_iff_add_one_le, Int.le_ediv_iff_mul_le hk, add_mul, one_mul]
  constructor <;> intro h <;> linarith

/-! ## The length counts the terms before the stop -/

theorem length_up (hf : r.Fits) (hk : 0 < r.step.toInt) (hst : r.start.toInt < r.stop.toInt) :
    r.length.toInt =
      (r.stop.toInt - r.start.toInt + r.step.toInt - 1) / r.step.toInt := by
  have hnum := toInt_eq_of_bmod (toInt_up r.stop r.start r.step) (by omega) (hf.1 hk hst)
  have hne : r.step ≠ -1 := fun he => by simp [he] at hk
  have hgt : r.step > 0 := Int64.lt_iff_toInt_lt.2 hk
  have hlt : r.start < r.stop := Int64.lt_iff_toInt_lt.2 hst
  simp only [length, hgt, hlt, decide_true, Bool.and_self, if_true]
  rw [Int64.toInt_div_of_ne_right _ _ hne, hnum, Int.tdiv_eq_ediv_of_nonneg (by omega)]

theorem length_down (hf : r.Fits) (hk : r.step.toInt < 0) (hst : r.stop.toInt < r.start.toInt) :
    r.length.toInt =
      (r.start.toInt - r.stop.toInt + -r.step.toInt - 1) / -r.step.toInt := by
  have hnum := toInt_eq_of_bmod (toInt_down r.start r.stop r.step) (by omega) (hf.2 hk hst)
  -- the step is not the least word, whose negation wraps
  have hneg : (-r.step).toInt = -r.step.toInt :=
    toInt_eq_of_bmod (Int64.toInt_neg r.step) (by omega) (by have := hf.2 hk hst; omega)
  have hne : -r.step ≠ -1 := fun he => by
    have := congrArg Int64.toInt he
    simp [hneg] at this
    omega
  have hlt : r.step < 0 := Int64.lt_iff_toInt_lt.2 hk
  have hgt : r.start > r.stop := Int64.lt_iff_toInt_lt.2 hst
  have hnot : ¬ r.step > 0 := fun h => absurd (Int64.lt_iff_toInt_lt.1 h) (by simp; omega)
  simp only [length, hnot, hlt, hgt, decide_true, decide_false, Bool.false_and, Bool.and_self,
    if_true, Bool.false_eq_true, if_false]
  rw [Int64.toInt_div_of_ne_right _ _ hne, hnum, hneg, Int.tdiv_eq_ediv_of_nonneg (by omega)]
  ring_nf

theorem length_empty (h0 : ¬ r.Before r.start.toInt) : r.length.toInt = 0 := by
  have hup : ¬ (r.step > 0 ∧ r.start < r.stop) := fun ⟨hk, hst⟩ =>
    h0 (.inl ⟨Int64.lt_iff_toInt_lt.1 hk, Int64.lt_iff_toInt_lt.1 hst⟩)
  have hdown : ¬ (r.step < 0 ∧ r.start > r.stop) := fun ⟨hk, hst⟩ =>
    h0 (.inr ⟨Int64.lt_iff_toInt_lt.1 hk, Int64.lt_iff_toInt_lt.1 hst⟩)
  simp only [length]
  rw [if_neg (by simpa using hup), if_neg (by simpa using hdown)]
  rfl

theorem not_before_term (h0 : ¬ r.Before r.start.toInt) (i : Nat) : ¬ r.Before (r.term i) := by
  unfold Before at h0 ⊢
  unfold term
  have hi : (0 : Int) ≤ i := Int.natCast_nonneg i
  rintro (⟨hk, hlt⟩ | ⟨hk, hlt⟩)
  · have : 0 ≤ (i : Int) * r.step.toInt := mul_nonneg hi hk.le
    exact h0 (.inl ⟨hk, by linarith⟩)
  · have : (i : Int) * r.step.toInt ≤ 0 := mul_nonpos_of_nonneg_of_nonpos hi hk.le
    exact h0 (.inr ⟨hk, by linarith⟩)

/-- The length is not negative, and `i` is below it exactly when the `i`-th term lies before the
stop. -/
theorem lt_length_iff (hf : r.Fits) :
    0 ≤ r.length.toInt ∧ ∀ i : Nat, (i : Int) < r.length.toInt ↔ r.Before (r.term i) := by
  by_cases h0 : r.Before r.start.toInt
  · rcases h0 with ⟨hk, hst⟩ | ⟨hk, hst⟩
    · -- going up: the `i`-th term is before the stop when `i * step < stop - start`
      rw [length_up hf hk hst]
      refine ⟨Int.ediv_nonneg (by omega) hk.le, fun i => ?_⟩
      rw [lt_ceilDiv_iff hk]
      simp only [Before, term]
      constructor
      · intro h
        exact .inl ⟨hk, by linarith⟩
      · rintro (⟨-, h⟩ | ⟨hk', -⟩)
        · linarith
        · omega
    · -- going down: the same with the distance and the step negated
      rw [length_down hf hk hst]
      refine ⟨Int.ediv_nonneg (by omega) (by omega), fun i => ?_⟩
      rw [lt_ceilDiv_iff (by omega)]
      simp only [Before, term]
      constructor
      · intro h
        exact .inr ⟨hk, by linarith⟩
      · rintro (⟨hk', -⟩ | ⟨-, h⟩)
        · omega
        · linarith
  · rw [length_empty h0]
    exact ⟨le_refl 0, fun i => ⟨fun h => by omega, fun h => absurd h (not_before_term h0 i)⟩⟩

theorem term_bounds {i : Nat} (hb : r.Before (r.term i)) :
    -2 ^ 63 ≤ r.term i ∧ r.term i < 2 ^ 63 := by
  have hs := Int64.le_toInt r.start
  have hs' := Int64.toInt_lt r.start
  have ht := Int64.le_toInt r.stop
  have ht' := Int64.toInt_lt r.stop
  have hi : (0 : Int) ≤ i := Int.natCast_nonneg i
  rcases hb with ⟨hk, hlt⟩ | ⟨hk, hlt⟩
  · have : 0 ≤ (i : Int) * r.step.toInt := mul_nonneg hi hk.le
    unfold term at hlt ⊢
    constructor <;> linarith
  · have : (i : Int) * r.step.toInt ≤ 0 := mul_nonpos_of_nonneg_of_nonpos hi hk.le
    unfold term at hlt ⊢
    constructor <;> linarith

theorem get_eq_term (hf : r.Fits) {i : Nat} (hi : (i : Int) < r.length.toInt) :
    (r.get (Int64.ofInt i)).toInt = r.term i := by
  have hb := ((lt_length_iff hf).2 i).1 hi
  exact toInt_eq_of_bmod (toInt_get r i) (term_bounds hb).1 (term_bounds hb).2

/-! ## Membership -/

theorem tdiv_mem_iff {d k len : Int} (hk : k ≠ 0) (lo : -2 ^ 63 ≤ d) (hi : d < 2 ^ 63)
    (hlen : len < 2 ^ 63) :
    (d.tmod k = 0 ∧ 0 ≤ (d.tdiv k).bmod (2 ^ 64) ∧ (d.tdiv k).bmod (2 ^ 64) < len) ↔
      ∃ i : Nat, (i : Int) < len ∧ d = i * k := by
  constructor
  · rintro ⟨hm, h0, hl⟩
    have hq : d = d.tdiv k * k := (Int.tdiv_mul_cancel_of_tmod_eq_zero hm).symm
    have habs := Int.natAbs_tdiv_le_natAbs d k
    by_cases hq' : d.tdiv k < 2 ^ 63
    · have hb : (d.tdiv k).bmod (2 ^ 64) = d.tdiv k := Int.bmod_eq_of_le (by omega) hq'
      rw [hb] at h0 hl
      exact ⟨(d.tdiv k).toNat, by omega, by rw [Int.toNat_of_nonneg h0]; exact hq⟩
    · -- the quotient is `2^63`, which a word reads back as `-2^63`
      have htop : d.tdiv k = 2 ^ 63 := by omega
      rw [htop] at h0
      exact absurd h0 (by decide)
  · rintro ⟨i, hil, rfl⟩
    have hb : ((i : Int) * k).tdiv k = i := Int.mul_tdiv_cancel i hk
    have hi' : (0 : Int) ≤ i := Int.natCast_nonneg i
    rw [hb, Int.bmod_eq_of_le (by omega) (by omega)]
    exact ⟨Int.mul_tmod_left i k, hi', hil⟩

theorem step_ne_zero (hf : r.Fits) (hpos : 0 < r.length.toInt) : r.step.toInt ≠ 0 := by
  have hb := ((lt_length_iff hf).2 0).1 hpos
  rcases hb with ⟨hk, -⟩ | ⟨hk, -⟩ <;> omega

/-- A number is in a range exactly when it is a whole number (as the range reads it, truncated
to a word) equal to one of the terms before the stop, provided that word's distance from the
start is itself a word. Membership never fails. -/
theorem contains_range (hf : r.Fits) {h : Heap} {item : Value}
    (lo : -2 ^ 63 ≤ (Numeric.truncWord item.scalar).toInt - r.start.toInt)
    (hi : (Numeric.truncWord item.scalar).toInt - r.start.toInt < 2 ^ 63) :
    ∃ b, h.contains (.range r) item = .ok b ∧
      (b = true ↔ item.isScalar = true ∧
        (item.scalar == wordToFloat (Numeric.truncWord item.scalar)) = true ∧
        ∃ i : Nat, (i : Int) < r.length.toInt ∧
          (Numeric.truncWord item.scalar).toInt = r.term i) := by
  cases hs : item.isScalar
  · exact ⟨false, by simp [Heap.contains, hs], by simp⟩
  cases hw : (item.scalar == wordToFloat (Numeric.truncWord item.scalar))
  · exact ⟨false, by simp [Heap.contains, hs, hw, bne], by simp⟩
  -- a whole number: the answer is the word arithmetic on its word `n`
  simp only [Heap.contains, hs, hw, bne, Bool.not_true, Bool.or_self, Bool.false_eq_true,
    if_false, true_and]
  generalize Numeric.truncWord item.scalar = n at lo hi ⊢
  obtain ⟨hnn, hiff⟩ := lt_length_iff hf
  have hd : (n - r.start).toInt = n.toInt - r.start.toInt :=
    toInt_eq_of_bmod (Int64.toInt_sub _ _) lo hi
  have hlen : r.length.toInt < 2 ^ 63 := Int64.toInt_lt r.length
  have hterm : ∀ i : Nat, n.toInt = r.term i ↔ n.toInt - r.start.toInt = i * r.step.toInt :=
    fun i => by unfold term; constructor <;> intro h <;> linarith
  simp only [hterm]
  have hzero : (r.length == 0) = true ↔ r.length.toInt = 0 := by
    rw [beq_iff_eq, ← Int64.toInt_inj, Int64.toInt_zero]
  have hrem : (!((n - r.start) % r.step == 0)) = true ↔
      (n.toInt - r.start.toInt).tmod r.step.toInt ≠ 0 := by
    rw [Bool.not_eq_true', beq_eq_false_iff_ne, ne_eq, ← Int64.toInt_inj, Int64.toInt_mod, hd,
      Int64.toInt_zero]
  have hquot : ((n - r.start) / r.step).toInt =
      ((n.toInt - r.start.toInt).tdiv r.step.toInt).bmod (2 ^ 64) := by
    rw [Int64.toInt_div, hd]
  split
  · -- an empty range, or a number the step does not reach: not a member
    rename_i hc
    refine ⟨false, rfl, ?_⟩
    simp only [Bool.false_eq_true, false_iff, not_exists, not_and]
    intro i hil hdi
    have hk := step_ne_zero hf (by omega)
    have hmem := (tdiv_mem_iff hk lo hi hlen).2 ⟨i, hil, hdi⟩
    rw [Bool.or_eq_true, hzero, hrem] at hc
    rcases hc with hc | hc
    · omega
    · exact hc hmem.1
  · -- a nonempty range the step reaches: the quotient is the position
    rename_i hc
    rw [Bool.or_eq_true, hzero, hrem] at hc
    simp only [not_or, not_not] at hc
    have hk := step_ne_zero hf (by omega)
    refine ⟨_, rfl, ?_⟩
    rw [← tdiv_mem_iff hk lo hi hlen, Bool.and_eq_true, decide_eq_true_eq, decide_eq_true_eq,
      ge_iff_le, Int64.le_iff_toInt_le, Int64.lt_iff_toInt_lt, Int64.toInt_zero, hquot]
    exact ⟨fun h => ⟨hc.2, h⟩, fun h => h.2⟩

/-! ## Indexing, truth, length and collecting -/

theorem position_eq_ok_iff {h : Heap} {c key : Value} {size : Int} {p : Nat}
    (hs : key.isScalar = true) (ht : (Numeric.truncate key.scalar == key.scalar) = true) :
    h.position c key size = .ok p ↔ (p : Int) < size ∧
      ((Numeric.truncWord key.scalar).toInt = p ∨
        (Numeric.truncWord key.scalar).toInt = p - size) := by
  simp only [Heap.position, hs, ht, bne, Bool.not_true, Bool.or_self, Bool.false_eq_true,
    if_false]
  generalize (Numeric.truncWord key.scalar).toInt = j
  by_cases hj : j < 0
  · simp only [hj, if_true]
    split
    · rename_i hout
      simp only [Bool.or_eq_true, decide_eq_true_eq] at hout
      simp only [reduceCtorEq, false_iff, not_and, not_or]
      omega
    · rename_i hout
      simp only [Bool.or_eq_true, decide_eq_true_eq, not_or, not_le] at hout
      simp only [Except.ok.injEq]
      omega
  · simp only [hj, if_false]
    split
    · rename_i hout
      simp only [Bool.or_eq_true, decide_eq_true_eq, false_or] at hout
      simp only [reduceCtorEq, false_iff, not_and, not_or]
      omega
    · rename_i hout
      simp only [Bool.or_eq_true, decide_eq_true_eq, not_or, not_le] at hout
      simp only [Except.ok.injEq]
      omega

/-- Indexing a range by a whole number gives the double of the term at the position it names. -/
theorem index_range_eq_ok_iff {h : Heap} {key v : Value} (hs : key.isScalar = true)
    (ht : (Numeric.truncate key.scalar == key.scalar) = true) :
    h.index (.range r) key = .ok v ↔ ∃ i : Nat, (i : Int) < r.length.toInt ∧
      ((Numeric.truncWord key.scalar).toInt = i ∨
        (Numeric.truncWord key.scalar).toInt = i - r.length.toInt) ∧
      v = .num (wordToFloat (r.get (Int64.ofInt i))) := by
  simp only [Heap.index]
  constructor
  · intro hv
    cases hp : h.position (.range r) key r.length.toInt with
    | error e => rw [hp] at hv; cases hv
    | ok p =>
      rw [hp] at hv
      cases hv
      exact ⟨p, ((position_eq_ok_iff hs ht).1 hp).1, ((position_eq_ok_iff hs ht).1 hp).2, rfl⟩
  · rintro ⟨i, hil, hj, rfl⟩
    rw [(position_eq_ok_iff hs ht).2 ⟨hil, hj⟩]
    rfl

theorem truthy_range (hf : r.Fits) {h : Heap} :
    h.truthy (.range r) = true ↔ r.Before r.start.toInt := by
  have hfirst := (lt_length_iff hf).2 0
  simp only [term, Nat.cast_zero, zero_mul, add_zero] at hfirst
  rw [← hfirst]
  simp [Heap.truthy, Int64.lt_iff_toInt_lt]

theorem length_of_mapM_eq_ok {ε α β : Type} {f : α → Except ε β} :
    ∀ {l : List α} {l' : List β}, l.mapM f = .ok l' → l'.length = l.length
  | [], l', hl => by cases hl; rfl
  | x :: l, l', hl => by
    rw [List.mapM_cons] at hl
    cases hx : f x with
    | error e => rw [hx] at hl; cases hl
    | ok y =>
      cases hm : l.mapM f with
      | error e => rw [hx, hm] at hl; cases hl
      | ok ys =>
        rw [hx, hm] at hl
        cases hl
        simp [length_of_mapM_eq_ok hm]

theorem length_range {h : Heap} : h.length (.range r) = .ok r.length.toInt := rfl

theorem unpack_range (hf : r.Fits) {h : Heap} :
    (∀ items, h.unpack (.range r) = .ok items → items.size = r.length.toInt.toNat) ∧
      (h.unpack (.range r) = .error .tooMany → maxCollected < r.length.toInt) := by
  have hnn := (lt_length_iff hf).1
  -- past the length, which is found, collecting is the count check and then the elements
  have hunpack : ∀ {res : Except CollectError (Array Value)}, h.unpack (.range r) = res →
      (if (decide (r.length.toInt < 0) || decide (r.length.toInt.toNat > maxCollected)) = true
        then (throw .tooMany >>= fun (_ : PUnit) => (do
          let items ← ((List.range r.length.toInt.toNat).mapM fun (i : Nat) =>
            h.elementAt (.range r) i).mapError .runtime
          pure items.toArray))
        else do
          let items ← ((List.range r.length.toInt.toNat).mapM fun (i : Nat) =>
            h.elementAt (.range r) i).mapError .runtime
          pure items.toArray) = res := by
    intro res he
    simp only [Heap.unpack, length_range] at he
    exact he
  constructor
  · intro items he
    have he := hunpack he
    split at he
    · cases he
    · cases hm : (List.range r.length.toInt.toNat).mapM fun (i : Nat) => h.elementAt (.range r) i
      · rw [hm] at he
        cases he
      · rw [hm] at he
        cases he
        simp [length_of_mapM_eq_ok hm]
  · intro he
    have he := hunpack he
    split at he
    · rename_i hc
      simp only [Bool.or_eq_true, decide_eq_true_eq] at hc
      omega
    · cases hm : (List.range r.length.toInt.toNat).mapM fun (i : Nat) => h.elementAt (.range r) i
      · rw [hm] at he
        cases he
      · rw [hm] at he
        cases he

/-- A range behaves as the integer progression it denotes: its length counts the terms before
the stop, which it computes exactly, and indexing, membership, truth testing, `len()` and
collecting the elements agree with it. -/
structure Behaves (h : Heap) (r : Progression) : Prop where
  length_nonneg : 0 ≤ r.length.toInt
  lt_length : ∀ i : Nat, (i : Int) < r.length.toInt ↔ r.Before (r.term i)
  get : ∀ i : Nat, (i : Int) < r.length.toInt → (r.get (Int64.ofInt i)).toInt = r.term i
  index : ∀ key v, key.isScalar = true → (Numeric.truncate key.scalar == key.scalar) = true →
    (h.index (.range r) key = .ok v ↔ ∃ i : Nat, (i : Int) < r.length.toInt ∧
      ((Numeric.truncWord key.scalar).toInt = i ∨
        (Numeric.truncWord key.scalar).toInt = i - r.length.toInt) ∧
      ∃ w : Int64, w.toInt = r.term i ∧ v = .num (wordToFloat w))
  contains : ∀ item, -2 ^ 63 ≤ (Numeric.truncWord item.scalar).toInt - r.start.toInt →
    (Numeric.truncWord item.scalar).toInt - r.start.toInt < 2 ^ 63 →
    ∃ b, h.contains (.range r) item = .ok b ∧
      (b = true ↔ item.isScalar = true ∧
        (item.scalar == wordToFloat (Numeric.truncWord item.scalar)) = true ∧
        ∃ i : Nat, (i : Int) < r.length.toInt ∧ (Numeric.truncWord item.scalar).toInt = r.term i)
  truthy : h.truthy (.range r) = true ↔ r.Before r.start.toInt
  len : h.length (.range r) = .ok r.length.toInt
  unpack : ∀ items, h.unpack (.range r) = .ok items → items.size = r.length.toInt.toNat
  unpack_refused : h.unpack (.range r) = .error .tooMany → maxCollected < r.length.toInt

end Progression

/-- A range whose length formula does not overflow behaves as the integer progression it
denotes. -/
theorem ranges_are_progressions {r : Progression} (hf : r.Fits) (h : Heap) : r.Behaves h where
  length_nonneg := (Progression.lt_length_iff hf).1
  lt_length := (Progression.lt_length_iff hf).2
  get _ hi := Progression.get_eq_term hf hi
  index key v hs ht := by
    rw [Progression.index_range_eq_ok_iff hs ht]
    -- the word at the position named is the term there, computed exactly
    constructor
    · rintro ⟨i, hil, hj, rfl⟩
      exact ⟨i, hil, hj, _, Progression.get_eq_term hf hil, rfl⟩
    · rintro ⟨i, hil, hj, w, hw, rfl⟩
      have hget : r.get (Int64.ofInt i) = w :=
        Int64.toInt_inj.1 ((Progression.get_eq_term hf hil).trans hw.symm)
      exact ⟨i, hil, hj, by rw [hget]⟩
  contains _ lo hi := Progression.contains_range hf lo hi
  truthy := Progression.truthy_range hf
  len := Progression.length_range
  unpack := (Progression.unpack_range hf).1
  unpack_refused := (Progression.unpack_range hf).2

/-- `range(0, 10, 3)`: its length formula fits. -/
theorem ranges_are_progressions_up_by_three :
    Progression.Fits ⟨0, 10, 3⟩ ∧ Progression.Behaves {} ⟨0, 10, 3⟩ :=
  ⟨by decide, ranges_are_progressions (by decide) {}⟩

end ScriptMachine
