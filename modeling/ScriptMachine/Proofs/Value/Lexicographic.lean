import Mathlib
/-!
# Lexicographic comparison keeps the laws of an order

The machine compares values three ways (negative, zero or positive) and may fail to compare
them at all; it also has an equality of its own. On a domain `S`, such an equality `eq` and
comparison `cmp` (a failure is `none`) obey the laws of an order (`OrderLaws`) when `eq` is an
equivalence, swapping the operands negates the comparison and keeps its failures, the comparison
is zero exactly on equal operands, equal operands compare alike, and "below" is transitive.
-/

namespace ScriptMachine

/-- Three-way comparison in a linear order: `-1` below, `1` above, `0` equal. -/
def threeWay {β : Type} [LinearOrder β] (x y : β) : Int :=
  if x < y then -1 else if y < x then 1 else 0

/-- The laws of an order for the equality `eq` and the comparison `cmp` on the domain `S`; a
comparison with no answer (`none`) is one that fails. -/
structure OrderLaws {α : Type} (S : α → Prop) (eq : α → α → Bool) (cmp : α → α → Option Int) :
    Prop where
  refl : ∀ {a}, S a → eq a a = true
  symm : ∀ {a b}, S a → S b → eq a b = true → eq b a = true
  trans : ∀ {a b c}, S a → S b → S c → eq a b = true → eq b c = true → eq a c = true
  swap : ∀ {a b}, S a → S b → cmp b a = (cmp a b).map Neg.neg
  zero : ∀ {a b}, S a → S b → (cmp a b = some 0 ↔ eq a b = true)
  congr : ∀ {a b c}, S a → S b → S c → eq a b = true → cmp a c = cmp b c
  lt_trans : ∀ {a b c r s}, S a → S b → S c → cmp a b = some r → r < 0 → cmp b c = some s →
    s < 0 → ∃ t < 0, cmp a c = some t

section LinearOrder

variable {β : Type} [LinearOrder β] {x y : β}

theorem threeWay_swap : threeWay y x = -threeWay x y := by
  unfold threeWay
  by_cases hxy : x < y
  · simp [hxy, lt_asymm hxy]
  · by_cases hyx : y < x <;> simp [hxy, hyx]

theorem threeWay_eq_zero : threeWay x y = 0 ↔ x = y := by
  unfold threeWay
  by_cases hxy : x < y
  · simp [hxy, ne_of_lt hxy]
  · by_cases hyx : y < x
    · simp [hxy, hyx, ne_of_gt hyx]
    · simp only [hxy, hyx, if_false, true_iff]
      exact le_antisymm (not_lt.1 hyx) (not_lt.1 hxy)

theorem threeWay_neg_iff : threeWay x y < 0 ↔ x < y := by
  unfold threeWay
  by_cases hxy : x < y
  · simp [hxy]
  · by_cases hyx : y < x <;> simp [hxy, hyx]

variable (β) in
/-- A linear order, compared three ways, obeys the laws of an order everywhere. -/
theorem OrderLaws.ofLinearOrder :
    OrderLaws (fun _ : β => True) (fun x y => decide (x = y)) (fun x y => some (threeWay x y)) where
  refl _ := by simp
  symm _ _ hxy := by simpa [eq_comm] using hxy
  trans _ _ _ hxy hyz := by simp_all
  swap _ _ := by rw [threeWay_swap]; rfl
  zero _ _ := by simp [threeWay_eq_zero]
  congr _ _ _ hxy := by simp_all
  lt_trans := fun {x y z _ _} _ _ _ hr hr0 hs hs0 => by
    simp only [Option.some.injEq] at hr hs
    subst hr hs
    have hxy : x < y := threeWay_neg_iff.1 hr0
    have hyz : y < z := threeWay_neg_iff.1 hs0
    exact ⟨_, threeWay_neg_iff.2 (lt_of_lt_of_le hxy (le_of_lt hyz)), rfl⟩

end LinearOrder

variable {α : Type} {S : α → Prop} {eq : α → α → Bool} {cmp : α → α → Option Int}

/-- Equality of lists element by element: same length, and each pair equal. -/
def seqEqual (eq : α → α → Bool) : List α → List α → Bool
  | [], [] => true
  | [], _ :: _ => false
  | _ :: _, [] => false
  | x :: xs, y :: ys => eq x y && seqEqual eq xs ys

/-- Lexicographic comparison: the first pair that is not equal decides; when one list runs out
first, the difference of the lengths does. -/
def lexCompare (eq : α → α → Bool) (cmp : α → α → Option Int) : List α → List α → Option Int
  | [], ys => some (-(ys.length : Int))
  | _ :: xs, [] => some ((xs.length : Int) + 1)
  | x :: xs, y :: ys => if eq x y then lexCompare eq cmp xs ys else cmp x y

theorem seqEqual_length {xs ys : List α} (he : seqEqual eq xs ys = true) :
    xs.length = ys.length := by
  induction xs generalizing ys with
  | nil => cases ys <;> simp_all [seqEqual]
  | cons x xs ih =>
    cases ys with
    | nil => simp [seqEqual] at he
    | cons y ys =>
      simp only [seqEqual, Bool.and_eq_true] at he
      simp [ih he.2]

theorem seqEqual_self {xs : List α} (hxs : ∀ x ∈ xs, eq x x = true) : seqEqual eq xs xs = true := by
  induction xs with
  | nil => rfl
  | cons x xs ih =>
    obtain ⟨hx, hxs⟩ := List.forall_mem_cons.1 hxs
    simp [seqEqual, hx, ih hxs]

theorem seqEqual_eq_zip (xs ys : List α) :
    seqEqual eq xs ys = (xs.length == ys.length && (xs.zip ys).all fun e => eq e.1 e.2) := by
  induction xs generalizing ys with
  | nil => cases ys <;> simp [seqEqual]
  | cons x xs ih =>
    cases ys with
    | nil => simp [seqEqual]
    | cons y ys => simp [seqEqual, ih, Bool.and_left_comm]

namespace OrderLaws

theorem of_empty (hS : ∀ a, ¬ S a) : OrderLaws S eq cmp where
  refl ha := absurd ha (hS _)
  symm ha := absurd ha (hS _)
  trans ha := absurd ha (hS _)
  swap ha := absurd ha (hS _)
  zero ha := absurd ha (hS _)
  congr ha := absurd ha (hS _)
  lt_trans ha := absurd ha (hS _)

variable (L : OrderLaws S eq cmp) {a b c : α}
include L

theorem congr_right (ha : S a) (hb : S b) (hc : S c) (hbc : eq b c = true) :
    cmp a b = cmp a c := by
  rw [L.swap hb ha, L.swap hc ha, L.congr hb hc ha hbc]

theorem eq_false_of_ne_zero {r : Int} (ha : S a) (hb : S b) (hr : cmp a b = some r)
    (hr0 : r ≠ 0) : eq a b = false := by
  by_contra hab
  have h0 := (L.zero ha hb).2 (by simpa using hab)
  rw [hr] at h0
  exact hr0 (Option.some.inj h0)

theorem le_trans {r s : Int} (ha : S a) (hb : S b) (hc : S c) (hr : cmp a b = some r)
    (hr0 : r ≤ 0) (hs : cmp b c = some s) (hs0 : s ≤ 0) : ∃ t ≤ 0, cmp a c = some t := by
  rcases Int.lt_or_eq_of_le hr0 with hr0 | rfl
  · rcases Int.lt_or_eq_of_le hs0 with hs0 | rfl
    · obtain ⟨t, ht, hac⟩ := L.lt_trans ha hb hc hr hr0 hs hs0
      exact ⟨t, Int.le_of_lt ht, hac⟩
    · exact ⟨r, Int.le_of_lt hr0, by rw [L.congr_right ha hb hc ((L.zero hb hc).1 hs)] at hr; exact hr⟩
  · exact ⟨s, hs0, by rw [L.congr ha hb hc ((L.zero ha hb).1 hr)]; exact hs⟩

section Lists

variable {xs ys zs : List α}

theorem seqEqual_refl (hxs : ∀ x ∈ xs, S x) : seqEqual eq xs xs = true :=
  seqEqual_self fun x hx => L.refl (hxs x hx)

theorem seqEqual_symm (hxs : ∀ x ∈ xs, S x) (hys : ∀ y ∈ ys, S y)
    (he : seqEqual eq xs ys = true) : seqEqual eq ys xs = true := by
  induction xs generalizing ys with
  | nil => cases ys <;> simp_all [seqEqual]
  | cons x xs ih =>
    cases ys with
    | nil => simp [seqEqual] at he
    | cons y ys =>
      obtain ⟨hx, hxs⟩ := List.forall_mem_cons.1 hxs
      obtain ⟨hy, hys⟩ := List.forall_mem_cons.1 hys
      simp only [seqEqual, Bool.and_eq_true] at he ⊢
      exact ⟨L.symm hx hy he.1, ih hxs hys he.2⟩

theorem seqEqual_trans (hxs : ∀ x ∈ xs, S x) (hys : ∀ y ∈ ys, S y) (hzs : ∀ z ∈ zs, S z)
    (hxy : seqEqual eq xs ys = true) (hyz : seqEqual eq ys zs = true) :
    seqEqual eq xs zs = true := by
  induction xs generalizing ys zs with
  | nil => cases ys <;> cases zs <;> simp_all [seqEqual]
  | cons x xs ih =>
    cases ys with
    | nil => simp [seqEqual] at hxy
    | cons y ys =>
      cases zs with
      | nil => simp [seqEqual] at hyz
      | cons z zs =>
        obtain ⟨hx, hxs⟩ := List.forall_mem_cons.1 hxs
        obtain ⟨hy, hys⟩ := List.forall_mem_cons.1 hys
        obtain ⟨hz, hzs⟩ := List.forall_mem_cons.1 hzs
        simp only [seqEqual, Bool.and_eq_true] at hxy hyz ⊢
        exact ⟨L.trans hx hy hz hxy.1 hyz.1, ih hxs hys hzs hxy.2 hyz.2⟩

theorem lexCompare_swap (hxs : ∀ x ∈ xs, S x) (hys : ∀ y ∈ ys, S y) :
    lexCompare eq cmp ys xs = (lexCompare eq cmp xs ys).map Neg.neg := by
  induction xs generalizing ys with
  | nil => cases ys <;> simp [lexCompare]
  | cons x xs ih =>
    cases ys with
    | nil => simp [lexCompare]
    | cons y ys =>
      obtain ⟨hx, hxs⟩ := List.forall_mem_cons.1 hxs
      obtain ⟨hy, hys⟩ := List.forall_mem_cons.1 hys
      by_cases hxy : eq x y = true
      · simp [lexCompare, hxy, L.symm hx hy hxy, ih hxs hys]
      · have hyx : eq y x ≠ true := fun hyx => hxy (L.symm hy hx hyx)
        simp [lexCompare, hxy, hyx, L.swap hx hy]

theorem lexCompare_eq_zero (hxs : ∀ x ∈ xs, S x) (hys : ∀ y ∈ ys, S y) :
    lexCompare eq cmp xs ys = some 0 ↔ seqEqual eq xs ys = true := by
  induction xs generalizing ys with
  | nil => cases ys <;> simp [lexCompare, seqEqual]; omega
  | cons x xs ih =>
    cases ys with
    | nil => simp [lexCompare, seqEqual]; omega
    | cons y ys =>
      obtain ⟨hx, hxs⟩ := List.forall_mem_cons.1 hxs
      obtain ⟨hy, hys⟩ := List.forall_mem_cons.1 hys
      by_cases hxy : eq x y = true
      · simp [lexCompare, seqEqual, hxy, ih hxs hys]
      · simp [lexCompare, seqEqual, hxy, L.zero hx hy]

theorem lexCompare_congr (hxs : ∀ x ∈ xs, S x) (hys : ∀ y ∈ ys, S y) (hzs : ∀ z ∈ zs, S z)
    (he : seqEqual eq xs ys = true) : lexCompare eq cmp xs zs = lexCompare eq cmp ys zs := by
  induction xs generalizing ys zs with
  | nil => cases ys <;> simp_all [seqEqual]
  | cons x xs ih =>
    cases ys with
    | nil => simp [seqEqual] at he
    | cons y ys =>
      obtain ⟨hx, hxs⟩ := List.forall_mem_cons.1 hxs
      obtain ⟨hy, hys⟩ := List.forall_mem_cons.1 hys
      simp only [seqEqual, Bool.and_eq_true] at he
      cases zs with
      | nil => simp [lexCompare, seqEqual_length he.2]
      | cons z zs =>
        obtain ⟨hz, hzs⟩ := List.forall_mem_cons.1 hzs
        -- `x` and `y` are equal, so they are equal to `z` together
        by_cases hxz : eq x z = true
        · have hyz := L.trans hy hx hz (L.symm hx hy he.1) hxz
          simp [lexCompare, hxz, hyz, ih hxs hys hzs he.2]
        · have hyz : eq y z ≠ true := fun hyz => hxz (L.trans hx hy hz he.1 hyz)
          simp [lexCompare, hxz, hyz, L.congr hx hy hz he.1]

theorem lexCompare_lt_trans {r s : Int} (hxs : ∀ x ∈ xs, S x) (hys : ∀ y ∈ ys, S y)
    (hzs : ∀ z ∈ zs, S z) (hr : lexCompare eq cmp xs ys = some r) (hr0 : r < 0)
    (hs : lexCompare eq cmp ys zs = some s) (hs0 : s < 0) :
    ∃ t < 0, lexCompare eq cmp xs zs = some t := by
  induction xs generalizing ys zs r s with
  | nil =>
    -- a list below `ys` is not empty: only the empty list runs out first
    cases zs with
    | nil => cases ys <;> simp [lexCompare] at hs <;> omega
    | cons z zs =>
      refine ⟨_, ?_, rfl⟩
      simp only [List.length_cons]
      omega
  | cons x xs ih =>
    cases ys with
    | nil => simp [lexCompare] at hr; omega
    | cons y ys =>
      cases zs with
      | nil => simp [lexCompare] at hs; omega
      | cons z zs =>
        obtain ⟨hx, hxs⟩ := List.forall_mem_cons.1 hxs
        obtain ⟨hy, hys⟩ := List.forall_mem_cons.1 hys
        obtain ⟨hz, hzs⟩ := List.forall_mem_cons.1 hzs
        -- the pair that decides `xs` against `zs` is the earlier of the two deciding pairs
        by_cases hxy : eq x y = true <;> by_cases hyz : eq y z = true
        · simp only [lexCompare, hxy, hyz, if_true] at hr hs
          simpa [lexCompare, L.trans hx hy hz hxy hyz] using ih hxs hys hzs hr hr0 hs hs0
        · have hxz : eq x z ≠ true := fun hxz => hyz (L.trans hy hx hz (L.symm hx hy hxy) hxz)
          simp only [lexCompare, hxy, hyz, if_true, if_false, Bool.false_eq_true] at hr hs
          exact ⟨s, hs0, by simp [lexCompare, hxz, L.congr hx hy hz hxy, hs]⟩
        · have hxz : eq x z ≠ true := fun hxz => hxy (L.trans hx hz hy hxz (L.symm hy hz hyz))
          simp only [lexCompare, hxy, hyz, if_true, if_false, Bool.false_eq_true] at hr hs
          exact ⟨r, hr0, by simp [lexCompare, hxz, ← L.congr_right hx hy hz hyz, hr]⟩
        · simp only [lexCompare, hxy, hyz, if_false, Bool.false_eq_true] at hr hs
          obtain ⟨t, ht, hxz⟩ := L.lt_trans hx hy hz hr hr0 hs hs0
          have hxz' := L.eq_false_of_ne_zero hx hz hxz (by omega)
          exact ⟨t, ht, by simp [lexCompare, hxz', hxz]⟩

end Lists

/-- Lists of a domain that obeys the laws, compared lexicographically, obey them too. -/
theorem lexicographic :
    OrderLaws (fun xs : List α => ∀ x ∈ xs, S x) (seqEqual eq) (lexCompare eq cmp) where
  refl := L.seqEqual_refl
  symm := L.seqEqual_symm
  trans := L.seqEqual_trans
  swap := L.lexCompare_swap
  zero := L.lexCompare_eq_zero
  congr := L.lexCompare_congr
  lt_trans := L.lexCompare_lt_trans

/-- A domain read through a partial map into a domain that obeys the laws obeys them, when its
equality and comparison are those of the images. -/
theorem comap {γ : Type} {T : γ → Prop} {eq' : γ → γ → Bool} {cmp' : γ → γ → Option Int}
    (f : γ → Option α) (hf : ∀ {a}, T a → ∃ x, f a = some x ∧ S x)
    (heq : ∀ {a b x y}, T a → T b → f a = some x → f b = some y → eq' a b = eq x y)
    (hcmp : ∀ {a b x y}, T a → T b → f a = some x → f b = some y → cmp' a b = cmp x y) :
    OrderLaws T eq' cmp' where
  refl ha := by
    obtain ⟨x, hfx, hx⟩ := hf ha
    rw [heq ha ha hfx hfx]
    exact L.refl hx
  symm ha hb hab := by
    obtain ⟨x, hfx, hx⟩ := hf ha
    obtain ⟨y, hfy, hy⟩ := hf hb
    rw [heq ha hb hfx hfy] at hab
    rw [heq hb ha hfy hfx]
    exact L.symm hx hy hab
  trans ha hb hc hab hbc := by
    obtain ⟨x, hfx, hx⟩ := hf ha
    obtain ⟨y, hfy, hy⟩ := hf hb
    obtain ⟨z, hfz, hz⟩ := hf hc
    rw [heq ha hb hfx hfy] at hab
    rw [heq hb hc hfy hfz] at hbc
    rw [heq ha hc hfx hfz]
    exact L.trans hx hy hz hab hbc
  swap ha hb := by
    obtain ⟨x, hfx, hx⟩ := hf ha
    obtain ⟨y, hfy, hy⟩ := hf hb
    rw [hcmp hb ha hfy hfx, hcmp ha hb hfx hfy]
    exact L.swap hx hy
  zero ha hb := by
    obtain ⟨x, hfx, hx⟩ := hf ha
    obtain ⟨y, hfy, hy⟩ := hf hb
    rw [hcmp ha hb hfx hfy, heq ha hb hfx hfy]
    exact L.zero hx hy
  congr ha hb hc hab := by
    obtain ⟨x, hfx, hx⟩ := hf ha
    obtain ⟨y, hfy, hy⟩ := hf hb
    obtain ⟨z, hfz, hz⟩ := hf hc
    rw [heq ha hb hfx hfy] at hab
    rw [hcmp ha hc hfx hfz, hcmp hb hc hfy hfz]
    exact L.congr hx hy hz hab
  lt_trans ha hb hc hab hr hbc hs := by
    obtain ⟨x, hfx, hx⟩ := hf ha
    obtain ⟨y, hfy, hy⟩ := hf hb
    obtain ⟨z, hfz, hz⟩ := hf hc
    rw [hcmp ha hb hfx hfy] at hab
    rw [hcmp hb hc hfy hfz] at hbc
    rw [hcmp ha hc hfx hfz]
    exact L.lt_trans hx hy hz hab hr hbc hs

end OrderLaws

end ScriptMachine
