import Mathlib
/-!
# Doubles other than NaN are totally ordered

`<` and `==` on doubles follow IEEE 754: NaN is unordered and equal to nothing, the two zeros are
equal, and otherwise doubles compare as the numbers they stand for. Every double has a rank in a
lexicographic order: its class (negative infinity, negative numbers, zeros, positive numbers,
positive infinity), then exponent and significand, read backwards below zero (`rank`). On doubles
other than NaN, `<` is the order of ranks (`lt_iff_rank_lt`) and `==` equality of ranks
(`beq_iff_rank_eq`), so `<` is a strict total order and `==` the equivalence it leaves.
-/

namespace ScriptMachine.Doubles

open Float.Model

/-- The place of an unpacked double in the order of doubles. NaN has no place and is put last. -/
def unpackedRank : UnpackedFloat → Lex (Int × Lex (Int × Int))
  | .infinity .negative => toLex (0, toLex (0, 0))
  | .finite .negative m e _ => toLex (1, toLex (-e, -(m : Int)))
  | .zero _ => toLex (2, toLex (0, 0))
  | .finite .positive m e _ => toLex (3, toLex (e, (m : Int)))
  | .infinity .positive => toLex (4, toLex (0, 0))
  | .notANumber => toLex (5, toLex (0, 0))

def rank (x : Float) : Lex (Int × Lex (Int × Int)) := unpackedRank x.toModel.unpack

theorem unpacked_lt_iff {u v : UnpackedFloat} (hu : u ≠ .notANumber) (hv : v ≠ .notANumber) :
    u.lt v = true ↔ unpackedRank u < unpackedRank v := by
  rcases u with ⟨_ | _⟩ | _ | ⟨_ | _⟩ | ⟨_ | _, m, e, hm⟩ <;>
  rcases v with ⟨_ | _⟩ | _ | ⟨_ | _⟩ | ⟨_ | _, m', e', hm'⟩ <;>
  simp_all [UnpackedFloat.lt, UnpackedFloat.compare, unpackedRank, Prod.Lex.toLex_lt_toLex,
    Ordering.then_eq_lt, Ordering.then_eq_gt, Ordering.swap_eq_lt, Int.compare_eq_lt,
    Nat.compare_eq_lt, Int.compare_eq_gt, Nat.compare_eq_gt] <;>
  first | omega | decide

theorem unpacked_beq_iff {u v : UnpackedFloat} (hu : u ≠ .notANumber) (hv : v ≠ .notANumber) :
    u.beq v = true ↔ unpackedRank u = unpackedRank v := by
  rcases u with ⟨_ | _⟩ | _ | ⟨_ | _⟩ | ⟨_ | _, m, e, hm⟩ <;>
  rcases v with ⟨_ | _⟩ | _ | ⟨_ | _⟩ | ⟨_ | _, m', e', hm'⟩ <;>
  simp_all [UnpackedFloat.beq, UnpackedFloat.compare, unpackedRank, Ordering.then_eq_eq,
    Ordering.swap_eq_eq] <;>
  first | omega | decide

theorem isNaN_eq_false_iff (x : Float) : x.isNaN = false ↔ x.toModel.unpack ≠ .notANumber := by
  simp only [Float.isNaN, Float.Model.isNaN]
  cases x.toModel.unpack <;> simp [UnpackedFloat.isNaN]

variable {x y : Float}

theorem lt_iff_rank_lt (hx : x.isNaN = false) (hy : y.isNaN = false) : x < y ↔ rank x < rank y := by
  rw [rank, rank, ← unpacked_lt_iff ((isNaN_eq_false_iff x).1 hx) ((isNaN_eq_false_iff y).1 hy)]
  change Float.lt x y = true ↔ _
  simp only [Float.lt, decide_eq_true_eq]
  rfl

theorem beq_iff_rank_eq (hx : x.isNaN = false) (hy : y.isNaN = false) :
    (x == y) = true ↔ rank x = rank y := by
  rw [rank, rank, ← unpacked_beq_iff ((isNaN_eq_false_iff x).1 hx) ((isNaN_eq_false_iff y).1 hy)]
  rfl

end ScriptMachine.Doubles
