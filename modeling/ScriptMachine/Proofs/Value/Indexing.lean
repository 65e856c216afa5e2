import Mathlib
import ScriptMachine.Proofs.Value.Whole
import ScriptMachine.Proofs.Value.Progressions
import ScriptMachine.Proofs.Value.Dicts
/-!
# Indexing a sequence

Texts, lists, tuples and ranges are indexed by position. A key is read through the number it
stands for (`Numeric.value?`): a key naming an integer `j` of `[-n, n)` reads position `j`, or
`j + n` when `j` counts from the end (`Names`). A key that is no number or truth value, NaN, or a
fraction is refused; an infinity or an integer outside `[-n, n)` is out of range.
-/

namespace ScriptMachine

open Numeric

namespace Numeric

variable {x : Float}

def IsFraction (x : Float) : Prop := ∃ q : ℚ, value? x = some q ∧ ∀ j : ℤ, q ≠ j

theorem value?_of_isInf (h : x.isInf = true) : value? x = none := by
  obtain ⟨s, hs⟩ := isInf_iff_unpack.1 h
  simp [value?, hs, unpackedValue?]

theorem value?_of_isNaN (h : x.isNaN = true) : value? x = none := by
  simp [value?, isNaN_iff_unpack.1 h, unpackedValue?]

theorem truncate_beq_false (h : x.isNaN = true ∨ IsFraction x) : (truncate x == x) = false := by
  rw [Bool.eq_false_iff, ne_eq, truncate_beq_self]
  rintro (hinf | ⟨j, hj⟩)
  · rcases h with hnan | ⟨q, hq, -⟩
    · obtain ⟨s, hs⟩ := isInf_iff_unpack.1 hinf
      rw [isNaN_iff_unpack, hs] at hnan
      cases hnan
    · rw [value?_of_isInf hinf] at hq; cases hq
  · rcases h with hnan | ⟨q, hq, hne⟩
    · rw [value?_of_isNaN hnan] at hj; cases hj
    · rw [hj] at hq
      exact hne j (Option.some.inj hq).symm

theorem int_eq_of_value {j j' : ℤ} (hj : value? x = some (j : ℚ))
    (hj' : value? x = some (j' : ℚ)) : j' = j := by
  rw [hj] at hj'
  exact_mod_cast (Option.some.inj hj').symm

end Numeric

namespace Heap

variable {h : Heap} {c key : Value} {size : Int}

/-! ## Positions -/

/-- Index value `key` names position `p` of a sequence of `n` elements: it is a number or truth
value standing for an integer `j` in `[-n, n)`, and `p` is `j`, or `j + n` for a negative `j`,
which counts from the end. -/
def Names (n : Int) (key : Value) (p : Nat) : Prop :=
  key.isScalar = true ∧ ∃ j : ℤ, value? key.scalar = some (j : ℚ) ∧ -n ≤ j ∧ j < n ∧
    (p : ℤ) = if j < 0 then j + n else j

theorem position_of_invalid
    (hk : key.isScalar = false ∨ key.scalar.isNaN = true ∨ IsFraction key.scalar) :
    h.position c key size =
      .error (runtimeError .invalidIndex [.text (h.typeName c), .text (h.typeName key)]) := by
  have hcheck : (!key.isScalar || Numeric.truncate key.scalar != key.scalar) = true := by
    rcases hk with hs | hk
    · simp [hs]
    · simp [bne, truncate_beq_false hk]
  simp only [position, hcheck, if_true]

theorem position_of_accepted (hs : key.isScalar = true)
    (hw : (Numeric.truncate key.scalar == key.scalar) = true) :
    h.position c key size =
      let i := (Numeric.truncWord key.scalar).toInt
      let i := if i < 0 then i + size else i
      if i < 0 || i ≥ size then .error (runtimeError .outOfRange [.text (h.repr key)])
      else .ok i.toNat := by
  simp only [position, hs, hw, bne, Bool.not_true, Bool.or_self, Bool.false_eq_true, if_false]

theorem position_of_word_outside (hs : key.isScalar = true)
    (hw : (Numeric.truncate key.scalar == key.scalar) = true)
    (hout : (Numeric.truncWord key.scalar).toInt < -size ∨
      size ≤ (Numeric.truncWord key.scalar).toInt) :
    h.position c key size = .error (runtimeError .outOfRange [.text (h.repr key)]) := by
  rw [position_of_accepted hs hw]
  generalize (Numeric.truncWord key.scalar).toInt = i at hout
  have hcounted :
      (if i < 0 then i + size else i) < 0 ∨ (if i < 0 then i + size else i) ≥ size := by
    split_ifs <;> omega
  simp only [Bool.or_eq_true, decide_eq_true_eq]
  rw [if_pos hcounted]

theorem position_of_nonpos (hsize : size ≤ 0) : h.position c key size = h.position c key 0 := by
  by_cases hs : key.isScalar = true
  · by_cases hw : (Numeric.truncate key.scalar == key.scalar) = true
    · -- every word is out of range on either side
      rw [position_of_word_outside hs hw (by omega), position_of_word_outside hs hw (by omega)]
    · simp only [position, hs, Bool.not_true, Bool.false_or]
      rw [Bool.not_eq_true] at hw
      simp [bne, hw]
  · simp only [position, hs]
    simp

theorem not_position_of_least (hn : size < 2 ^ 63) (hs : key.isScalar = true)
    (hw : (Numeric.truncate key.scalar == key.scalar) = true)
    (hmin : Numeric.truncWord key.scalar = Int64.minValue) :
    h.position c key size = .error (runtimeError .outOfRange [.text (h.repr key)]) :=
  -- the least word counted from the end stays negative
  position_of_word_outside hs hw (by rw [hmin, Int64.toInt_minValue]; omega)

theorem not_names_of_isInf {n : Int} {p : Nat} (hinf : key.scalar.isInf = true) :
    ¬ Names n key p := by
  rintro ⟨-, j, hj, -⟩
  rw [value?_of_isInf hinf] at hj
  cases hj

theorem position_eq_ok_iff_of_word (hs : key.isScalar = true)
    (hw : (Numeric.truncate key.scalar == key.scalar) = true) {j : ℤ}
    (hj : value? key.scalar = some (j : ℚ)) (lo : -2 ^ 63 ≤ j) (hi : j < 2 ^ 63) {p : Nat} :
    h.position c key size = .ok p ↔ Names size key p := by
  rw [Progression.position_eq_ok_iff hs hw, truncWord_of_isWhole hj lo hi]
  constructor
  · rintro ⟨hp, hpj | hpj⟩
    · exact ⟨hs, j, hj, by omega, by omega, by rw [if_neg (by omega)]; omega⟩
    · exact ⟨hs, j, hj, by omega, by omega, by rw [if_pos (by omega)]; omega⟩
  · rintro ⟨-, j', hj', hlo, hhi, hp⟩
    obtain rfl := int_eq_of_value hj hj'
    split_ifs at hp with hneg
    · exact ⟨by omega, .inr (by omega)⟩
    · exact ⟨by omega, .inl (by omega)⟩

theorem position_eq_ok_iff_names (hn : size < 2 ^ 63) {p : Nat} :
    h.position c key size = .ok p ↔ Names size key p := by
  by_cases hs : key.isScalar = true
  · by_cases hw : (Numeric.truncate key.scalar == key.scalar) = true
    · rcases (truncate_beq_self key.scalar).1 hw with hinf | ⟨j, hj⟩
      · -- an infinity is out of range
        rw [not_position_of_least hn hs hw (truncWord_of_isInf hinf)]
        simp only [reduceCtorEq, false_iff]
        exact not_names_of_isInf hinf
      · by_cases hword : -2 ^ 63 ≤ j ∧ j < 2 ^ 63
        · exact position_eq_ok_iff_of_word hs hw hj hword.1 hword.2
        · -- an integer outside the word's range is out of range too
          rw [not_position_of_least hn hs hw (truncWord_of_outside hj (by omega))]
          simp only [reduceCtorEq, false_iff]
          rintro ⟨-, j', hj', hlo, hhi, -⟩
          have := int_eq_of_value hj hj'
          omega
    · -- a fraction or NaN is refused
      rw [Bool.not_eq_true] at hw
      simp only [position, hs, bne, hw, Bool.not_false, Bool.or_true, if_true, reduceCtorEq,
        false_iff]
      rintro ⟨-, j, hj, -⟩
      rw [(truncate_beq_self key.scalar).2 (.inr ⟨j, hj⟩)] at hw
      cases hw
  · simp only [position, hs, Bool.not_false, Bool.true_or, if_true, reduceCtorEq, false_iff]
    exact fun hnames => hs hnames.1

theorem position_of_outside (hn : size < 2 ^ 63) (hs : key.isScalar = true)
    (hk : key.scalar.isInf = true ∨
      ∃ j : ℤ, value? key.scalar = some (j : ℚ) ∧ (j < -size ∨ size ≤ j)) :
    h.position c key size = .error (runtimeError .outOfRange [.text (h.repr key)]) := by
  rcases hk with hinf | ⟨j, hj, hout⟩
  · exact not_position_of_least hn hs ((truncate_beq_self _).2 (.inl hinf))
      (truncWord_of_isInf hinf)
  · have hw := (truncate_beq_self key.scalar).2 (.inr ⟨j, hj⟩)
    by_cases hword : -2 ^ 63 ≤ j ∧ j < 2 ^ 63
    · exact position_of_word_outside hs hw (by rwa [truncWord_of_isWhole hj hword.1 hword.2])
    · exact not_position_of_least hn hs hw (truncWord_of_outside hj (by omega))

theorem Names.lt {n : Nat} {p : Nat} (hp : Names n key p) : p < n := by
  obtain ⟨-, j, -, hlo, hhi, hpj⟩ := hp
  split_ifs at hpj <;> omega

/-! ## Reading -/

/-- The elements a sequence holds, in order: the characters of a text, each as a text of its
own; the terms `start + i · step` of a range, in word arithmetic, for each `i` below its length;
the elements of a list or a tuple. Other values hold no sequence. -/
def elements? (h : Heap) : Value → Option (List Value)
  | .str s => some (s.toList.map fun ch => .str (String.singleton ch))
  | .range r => some ((List.range r.length.toInt.toNat).map fun (i : Nat) =>
      .num (wordToFloat (r.get (Int64.ofInt i))))
  | v => (h.items? v).map Array.toList

/-- How indexing the sequence `c`, holding the elements `es`, behaves. -/
structure IndexLaws (h : Heap) (c : Value) (es : List Value) : Prop where
  /-- Indexing succeeds exactly at a key naming a position, with the element there. -/
  ok : ∀ key v, h.index c key = .ok v ↔ ∃ p, Names es.length key p ∧ es[p]? = some v
  /-- A key that is no number or truth value, NaN, or a fraction is refused as an index. -/
  invalid : ∀ key, key.isScalar = false ∨ key.scalar.isNaN = true ∨ IsFraction key.scalar →
    h.index c key =
      .error (runtimeError .invalidIndex [.text (h.typeName c), .text (h.typeName key)])
  /-- An infinite key, or an integral one outside `[-n, n)`, is out of range. -/
  outOfRange : ∀ key, key.isScalar = true → (key.scalar.isInf = true ∨
      ∃ j : ℤ, value? key.scalar = some (j : ℚ) ∧ (j < -es.length ∨ es.length ≤ j)) →
    h.index c key = .error (runtimeError .outOfRange [.text (h.repr key)])

theorem map_eq_ok_iff {ε α β : Type} {f : α → β} {r : Except ε α} {b : β} :
    r.map f = .ok b ↔ ∃ a, r = .ok a ∧ f a = b := by
  cases r with
  | error e => simp [Except.map]
  | ok a => simp [Except.map]

theorem IndexLaws.of_position {es : List Value} {f : Nat → Value} (hsize : max size 0 = es.length)
    (hn : es.length < 2 ^ 63) (hidx : ∀ key, h.index c key = (h.position c key size).map f)
    (hf : ∀ p, p < es.length → es[p]? = some (f p)) : IndexLaws h c es := by
  have hpos : ∀ key, h.position c key size = h.position c key es.length := by
    intro key
    by_cases h0 : 0 ≤ size
    · rw [show size = es.length by omega]
    · rw [position_of_nonpos (by omega), show (es.length : Int) = 0 by omega]
  refine ⟨fun key v => ?_, fun key hk => ?_, fun key hs hk => ?_⟩
  · rw [hidx, hpos, map_eq_ok_iff]
    constructor
    · rintro ⟨p, hp, rfl⟩
      have hnames := (position_eq_ok_iff_names (by omega)).1 hp
      exact ⟨p, hnames, hf p hnames.lt⟩
    · rintro ⟨p, hnames, hv⟩
      have hlt : p < es.length := hnames.lt
      refine ⟨p, (position_eq_ok_iff_names (by omega)).2 hnames, ?_⟩
      rw [hf p hlt] at hv
      exact Option.some.inj hv
  · rw [hidx, hpos, position_of_invalid hk]
    rfl
  · rw [hidx, hpos, position_of_outside (by omega) hs hk]
    rfl

theorem index_str (s : String) : h.index (.str s) key =
    (h.position (.str s) key s.toList.length).map fun i => .str (s.toList.getD i ' ').toString :=
  rfl

theorem index_range (r : Progression) : h.index (.range r) key =
    (h.position (.range r) key r.length.toInt).map fun (i : Nat) =>
      .num (wordToFloat (r.get (Int64.ofInt i))) := by
  -- the position is widened to an integer before the term is computed
  rcases hp : h.position (.range r) key r.length.toInt with e | p <;>
    simp only [index, hp] <;> rfl

theorem index_items {xs : Array Value} (hx : h.items? c = some xs) :
    h.index c key = (h.position c key xs.size).map fun i => xs.getD i .none := by
  cases c with
  | ref loc =>
    simp only [items?, objOf?] at hx
    rcases hg : h.get? loc with _ | ys | ys | d | cl <;>
      simp only [hg, reduceCtorEq, Option.some.injEq] at hx <;>
      (subst hx; simp only [index, hg])
  | _ => simp [items?, objOf?] at hx

theorem IndexLaws.of_elements {es : List Value} (hc : h.elements? c = some es)
    (hn : es.length < 2 ^ 63) : IndexLaws h c es := by
  cases c with
  | str s =>
    cases hc
    refine IndexLaws.of_position (by simp) hn (fun _ => index_str s) fun p hp => ?_
    simp only [List.length_map] at hp
    simp [List.getD_eq_getElem?_getD, hp, Char.toString]
  | range r =>
    cases hc
    refine IndexLaws.of_position (by rw [List.length_map, List.length_range]; omega) hn
      (fun _ => index_range r) fun p hp => ?_
    simp only [List.length_map, List.length_range] at hp
    rw [List.getElem?_map, List.getElem?_range hp]
    rfl
  | _ =>
    simp only [elements?, Option.map_eq_some_iff] at hc
    obtain ⟨xs, hx, rfl⟩ := hc
    refine IndexLaws.of_position (by simp) hn (fun _ => index_items hx) fun p hp => ?_
    simp only [Array.length_toList] at hp
    simp [Array.getD_eq_getD_getElem?, hp]

/-! ## Writing -/

/-- How assigning into the list `xs` at location `loc` behaves. -/
structure AssignLaws (h : Heap) (loc : Nat) (xs : Array Value) : Prop where
  /-- At a key naming a position, the element there is replaced: the list keeps its length and
  every other element, and every other location is left as it was. -/
  written : ∀ key v p, Names xs.size key p → ∃ h' ys,
    h.setIndex (.ref loc) key v = .ok h' ∧ h'.get? loc = some (.list ys) ∧
    (∀ l, l ≠ loc → h'.get? l = h.get? l) ∧
    ys.size = xs.size ∧ ys[p]? = some v ∧ ∀ q, q ≠ p → ys[q]? = xs[q]?
  /-- Assignment succeeds only at a key naming a position. -/
  only : ∀ key v h', h.setIndex (.ref loc) key v = .ok h' → ∃ p, Names xs.size key p
  /-- A key that is no number or truth value, NaN, or a fraction is refused as an index. -/
  invalid : ∀ key v,
    key.isScalar = false ∨ key.scalar.isNaN = true ∨ IsFraction key.scalar →
      h.setIndex (.ref loc) key v =
        .error (runtimeError .invalidIndex [.text (h.typeName (.ref loc)), .text (h.typeName key)])
  /-- An infinite key, or an integral one outside `[-n, n)`, is out of range. -/
  outOfRange : ∀ key v, key.isScalar = true → (key.scalar.isInf = true ∨
      ∃ j : ℤ, value? key.scalar = some (j : ℚ) ∧ (j < -xs.size ∨ xs.size ≤ j)) →
    h.setIndex (.ref loc) key v = .error (runtimeError .outOfRange [.text (h.repr key)])

theorem setIndex_list {loc : Nat} {xs : Array Value} {v : Value}
    (hx : h.get? loc = some (.list xs)) : h.setIndex (.ref loc) key v =
      (h.position (.ref loc) key xs.size).map fun i => h.set loc (.list (xs.set! i v)) := by
  simp only [setIndex, hx]

theorem AssignLaws.of_list {loc : Nat} {xs : Array Value} (hx : h.get? loc = some (.list xs))
    (hn : xs.size < 2 ^ 63) : AssignLaws h loc xs := by
  have hloc := lt_of_get? hx
  refine ⟨fun key v p hp => ?_, fun key v h' hok => ?_, fun key v hk => ?_,
    fun key v hs hk => ?_⟩
  · refine ⟨_, xs.set! p v, ?_, get?_set_self hloc, fun l hl => get?_set_ne (Ne.symm hl), ?_⟩
    · rw [setIndex_list hx, (position_eq_ok_iff_names (by omega)).2 hp]
      rfl
    · have hlt : p < xs.size := hp.lt
      simp only [Array.set!_eq_setIfInBounds, Array.size_setIfInBounds,
        Array.getElem?_setIfInBounds_self_of_lt hlt, true_and]
      exact fun q hq => Array.getElem?_setIfInBounds_ne (Ne.symm hq)
  · rw [setIndex_list hx, map_eq_ok_iff] at hok
    obtain ⟨p, hp, -⟩ := hok
    exact ⟨p, (position_eq_ok_iff_names (by omega)).1 hp⟩
  · rw [setIndex_list hx, position_of_invalid hk]
    rfl
  · rw [setIndex_list hx, position_of_outside (by omega) hs hk]
    rfl

/-- The sequences that cannot be changed: texts, ranges and tuples. -/
def Immutable (h : Heap) : Value → Prop
  | .str _ | .range _ => True
  | .ref loc => ∃ xs, h.get? loc = some (.tuple xs)
  | _ => False

theorem setIndex_of_immutable {v : Value} (hc : h.Immutable c) :
    h.setIndex c key v = .error (runtimeError .notSupportAssignment [.text (h.typeName c)]) := by
  cases c with
  | str s => rfl
  | range r => rfl
  | ref loc =>
    obtain ⟨xs, hx⟩ := hc
    simp only [setIndex, hx]
  | _ => exact hc.elim

/-! ## The laws -/

/-- The laws of indexing a sequence: a list, a tuple, a text or a range of `n` elements is read at
exactly the keys naming a position of `[-n, n)`, keys that are no whole number being refused and
whole or infinite keys outside it out of range; a list is written at exactly those keys, the
element there alone changing; a text, a range or a tuple is never written. The element count
stays below `2^63`, the bound a signed word puts on it. -/
theorem sequence_index_laws (h : Heap) :
    (∀ c es, h.elements? c = some es → es.length < 2 ^ 63 → IndexLaws h c es) ∧
    (∀ loc xs, h.get? loc = some (.list xs) → xs.size < 2 ^ 63 → AssignLaws h loc xs) ∧
    (∀ c key v, h.Immutable c →
      h.setIndex c key v = .error (runtimeError .notSupportAssignment [.text (h.typeName c)])) :=
  ⟨fun _ _ hc hn => IndexLaws.of_elements hc hn, fun _ _ hx hn => AssignLaws.of_list hx hn,
    fun _ _ _ hc => setIndex_of_immutable hc⟩

def pairHeap : Heap := ⟨#[.list #[.num 10, .num 20]]⟩

theorem sequence_index_laws_pair :
    IndexLaws pairHeap (.ref 0) [.num 10, .num 20] ∧ AssignLaws pairHeap 0 #[.num 10, .num 20] ∧
      pairHeap.setIndex (.str "ab") (.num 0) .none =
        .error (runtimeError .notSupportAssignment [.text "str"]) :=
  ⟨(sequence_index_laws pairHeap).1 _ _ rfl (by decide),
    (sequence_index_laws pairHeap).2.1 _ _ rfl (by decide),
    (sequence_index_laws pairHeap).2.2 _ _ _ trivial⟩

end Heap

end ScriptMachine
