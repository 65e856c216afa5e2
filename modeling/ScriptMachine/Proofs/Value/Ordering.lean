import ScriptMachine.Proofs.Value.Lexicographic
import ScriptMachine.Proofs.Value.Doubles
import ScriptMachine.Proofs.Value.Nesting
import ScriptMachine.Proofs.Value.KeyIdentity
/-!
# Comparison orders values consistently

`<`, `<=`, `>` and `>=` compare two values three ways (`Heap.compareWith`): truth values and
numbers by their doubles, texts by their characters, lists and tuples element by element, then
by length. On the values that hold no NaN and nest only these (`Heap.Orderable`), comparison and
`==` obey the laws of an order (`OrderLaws`, `ordering_consistent`).
-/

namespace ScriptMachine

/-- What comparison and equality look at in a value they can order: a truth value or number by
the place of its double, a text, or a list (`tuple = false`) or tuple by its elements. -/
inductive Form where
  | number (rank : Lex (Int × Lex (Int × Int)))
  | text (s : String)
  | sequence (tuple : Bool) (items : List Value)

namespace Form

/-- The elements of a list or tuple lie in `S`. -/
def Over (S : Value → Prop) : Form → Prop
  | sequence _ xs => ∀ x ∈ xs, S x
  | _ => True

/-- Equality of forms, with `eq` for the elements. -/
def equal (eq : Value → Value → Bool) : Form → Form → Bool
  | number r, number r' => decide (r = r')
  | text s, text s' => decide (s = s')
  | sequence k xs, sequence k' ys => k == k' && seqEqual eq xs ys
  | _, _ => false

/-- Comparison of forms, with `eq` and `cmp` for the elements: numbers with numbers, texts with
texts, lists with lists and tuples with tuples, and nothing else. -/
def compare (eq : Value → Value → Bool) (cmp : Value → Value → Option Int) :
    Form → Form → Option Int
  | number r, number r' => some (threeWay r r')
  | text s, text s' => some (threeWay s s')
  | sequence k xs, sequence k' ys => if k = k' then lexCompare eq cmp xs ys else none
  | _, _ => none

variable {S S' : Value → Prop} {eq : Value → Value → Bool} {cmp : Value → Value → Option Int}

theorem Over.mono {f : Form} (hf : f.Over S) (hS : ∀ x, S x → S' x) : f.Over S' := by
  cases f with
  | sequence k xs => exact fun x hx => hS x (hf x hx)
  | _ => trivial

/-- Forms obey the laws of an order when their elements do: numbers and texts by their linear
orders, lists and tuples lexicographically, and forms of two kinds are never equal and never
compared. -/
theorem orderLaws (L : OrderLaws S eq cmp) : OrderLaws (Over S) (equal eq) (compare eq cmp) where
  refl := by
    rintro (r | s | ⟨k, xs⟩) ha
    · simp [equal]
    · simp [equal]
    · simpa [equal] using L.lexicographic.refl ha
  symm := by
    rintro (r | s | ⟨k, xs⟩) (r' | s' | ⟨k', ys⟩) ha hb hab <;> simp [equal] at hab ⊢
    · exact hab.symm
    · exact hab.symm
    · exact ⟨hab.1.symm, L.lexicographic.symm ha hb hab.2⟩
  trans := by
    rintro (r | s | ⟨k, xs⟩) (r' | s' | ⟨k', ys⟩) (r'' | s'' | ⟨k'', zs⟩) ha hb hc hab hbc <;>
      simp [equal] at hab hbc ⊢
    · exact hab.trans hbc
    · exact hab.trans hbc
    · exact ⟨hab.1.trans hbc.1, L.lexicographic.trans ha hb hc hab.2 hbc.2⟩
  swap := by
    rintro (r | s | ⟨k, xs⟩) (r' | s' | ⟨k', ys⟩) ha hb <;> simp only [compare, Option.map_none]
    · exact (OrderLaws.ofLinearOrder (Lex (Int × Lex (Int × Int)))).swap trivial trivial
    · exact (OrderLaws.ofLinearOrder String).swap trivial trivial
    · by_cases hk : k = k'
      · subst hk
        simpa using L.lexicographic.swap ha hb
      · simp [hk, Ne.symm hk]
  zero := by
    rintro (r | s | ⟨k, xs⟩) (r' | s' | ⟨k', ys⟩) ha hb <;> simp only [compare, equal]
    -- forms of two kinds: no comparison and no equality
    all_goals try (simp; done)
    · exact (OrderLaws.ofLinearOrder (Lex (Int × Lex (Int × Int)))).zero trivial trivial
    · exact (OrderLaws.ofLinearOrder String).zero trivial trivial
    · by_cases hk : k = k'
      · subst hk
        simpa using L.lexicographic.zero ha hb
      · simp [hk]
  congr := by
    rintro (r | s | ⟨k, xs⟩) (r' | s' | ⟨k', ys⟩) c ha hb hc hab <;> simp [equal] at hab
    · subst hab
      rfl
    · subst hab
      rfl
    · obtain ⟨rfl, hxy⟩ := hab
      rcases c with r'' | s'' | ⟨k'', zs⟩ <;> simp only [compare]
      rw [L.lexicographic.congr ha hb hc hxy]
  lt_trans := by
    rintro (r | s | ⟨k, xs⟩) (r' | s' | ⟨k', ys⟩) (r'' | s'' | ⟨k'', zs⟩) t u ha hb hc hab ht hbc hu <;>
      simp only [compare, reduceCtorEq] at hab hbc ⊢
    · exact (OrderLaws.ofLinearOrder (Lex (Int × Lex (Int × Int)))).lt_trans trivial trivial
        trivial hab ht hbc hu
    · exact (OrderLaws.ofLinearOrder String).lt_trans trivial trivial trivial hab ht hbc hu
    · split_ifs at hab hbc with hk hk'
      subst hk hk'
      simpa using L.lexicographic.lt_trans ha hb hc hab ht hbc hu

end Form

theorem toOption_eq_some_iff {ε α : Type} {x : Except ε α} {r : α} :
    x.toOption = some r ↔ x = .ok r := by
  cases x <;> simp [Except.toOption]

theorem toOption_map {ε α β : Type} (g : α → β) (x : Except ε α) :
    (x.map g).toOption = x.toOption.map g := by
  cases x <;> rfl

namespace Heap

def formOf? (h : Heap) (v : Value) : Option Form :=
  if v.isScalar then some (.number (Doubles.rank v.scalar))
  else match v with
    | .str s => some (.text s)
    | .ref loc => match h.get? loc with
      | some (.list xs) => some (.sequence false xs.toList)
      | some (.tuple xs) => some (.sequence true xs.toList)
      | _ => none
    | _ => none

/-- `v` can be ordered nesting fewer than `n` deep: a truth value, a number other than NaN, a
text, or a list or tuple of values that can be ordered nesting fewer than `n - 1` deep. -/
def OrderableWithin (h : Heap) : Nat → Value → Prop
  | 0, _ => False
  | n + 1, v => (v.isScalar = true → v.scalar.isNaN = false) ∧
      ∃ f, h.formOf? v = some f ∧ f.Over (h.OrderableWithin n)

/-- `v` can be ordered: it holds no NaN, and it nests only truth values, numbers, texts, lists
and tuples, to some depth. -/
def Orderable (h : Heap) (v : Value) : Prop := ∃ n, h.OrderableWithin n v

variable {h : Heap} {n m : Nat} {v w a b : Value} {f fa fb : Form} {op : String}

theorem formOf?_cases (hf : h.formOf? v = some f) :
    (v.isScalar = true ∧ f = .number (Doubles.rank v.scalar)) ∨ (∃ s, v = .str s ∧ f = .text s) ∨
      (∃ loc xs, v = .ref loc ∧ h.get? loc = some (.list xs) ∧ f = .sequence false xs.toList) ∨
      (∃ loc xs, v = .ref loc ∧ h.get? loc = some (.tuple xs) ∧ f = .sequence true xs.toList) := by
  unfold formOf? at hf
  split_ifs at hf with hs
  · exact .inl ⟨hs, (Option.some.inj hf).symm⟩
  · cases v with
    | str s => exact .inr (.inl ⟨s, rfl, (Option.some.inj hf).symm⟩)
    | ref loc =>
      rcases hl : h.get? loc with _ | ⟨xs | xs | d | c⟩ <;> simp only [hl, reduceCtorEq] at hf
      · exact .inr (.inr (.inl ⟨loc, xs, rfl, hl, (Option.some.inj hf).symm⟩))
      · exact .inr (.inr (.inr ⟨loc, xs, rfl, hl, (Option.some.inj hf).symm⟩))
    | _ => simp at hf

theorem OrderableWithin.not_nan (hv : h.OrderableWithin (n + 1) v) (hs : v.isScalar = true) :
    v.scalar.isNaN = false :=
  hv.1 hs

theorem OrderableWithin.over (hv : h.OrderableWithin (n + 1) v) (hf : h.formOf? v = some f) :
    f.Over (h.OrderableWithin n) := by
  obtain ⟨f', hf', hov⟩ := hv.2
  rw [hf] at hf'
  cases hf'
  exact hov

theorem Child.mem_form (hw : h.Child w v) (hf : h.formOf? v = some f) :
    ∃ k xs, f = .sequence k xs ∧ w ∈ xs := by
  obtain ⟨loc, o, rfl, ho, hmem⟩ := hw
  rcases formOf?_cases hf with ⟨hs, -⟩ | ⟨s, hv, -⟩ | ⟨loc', xs, hv, hl, rfl⟩ |
      ⟨loc', xs, hv, hl, rfl⟩
  · simp [Value.isScalar] at hs
  · cases hv
  all_goals
    cases hv
    rw [ho] at hl
    cases hl
    exact ⟨_, _, rfl, hmem⟩

theorem child_of_mem_form {k : Bool} {xs : List Value} (hf : h.formOf? v = some (.sequence k xs))
    (hw : w ∈ xs) : h.Child w v := by
  rcases formOf?_cases hf with ⟨-, hf'⟩ | ⟨s, -, hf'⟩ | ⟨loc, ys, rfl, hl, hf'⟩ |
      ⟨loc, ys, rfl, hl, hf'⟩ <;> cases hf'
  · exact child_of_mem hl hw
  · exact child_of_mem hl hw

/-! ## Bounds on the depth -/

theorem OrderableWithin.mono : ∀ {n m : Nat} {v : Value},
    h.OrderableWithin n v → n ≤ m → h.OrderableWithin m v
  | 0, _, _, hv, _ => (hv : False).elim
  | _ + 1, 0, _, _, hnm => absurd hnm (by omega)
  | _ + 1, _ + 1, _, ⟨hnan, f, hf, hov⟩, hnm =>
    ⟨hnan, f, hf, hov.mono fun _ hx => hx.mono (by omega)⟩

theorem OrderableWithin.nested : ∀ {n : Nat} {v : Value},
    h.OrderableWithin n v → h.Nested n v
  | 0, _, hv => (hv : False).elim
  | _ + 1, _, ⟨_, _, hf, hov⟩ => .intro fun _ hw => by
    obtain ⟨k, xs, rfl, hmem⟩ := hw.mem_form hf
    exact (hov _ hmem).nested

theorem OrderableWithin.of_nested : ∀ {n m : Nat} {v : Value},
    h.OrderableWithin n v → h.Nested m v → h.OrderableWithin m v
  | 0, _, _, hv, _ => (hv : False).elim
  | _ + 1, _, _, ⟨hnan, f, hf, hov⟩, .intro hc => by
    refine ⟨hnan, f, hf, ?_⟩
    cases f with
    | sequence k xs => exact fun x hx => (hov x hx).of_nested (hc x (child_of_mem_form hf hx))
    | _ => trivial

theorem Orderable.within_depth (hv : h.Orderable v) : h.OrderableWithin h.depth v := by
  obtain ⟨n, hn⟩ := hv
  have hN : h.Nested (h.objects.size + 1) v := hn.nested.noCycleFrom.nested
  exact (hn.of_nested hN).mono (by simp only [Heap.depth]; omega)

/-! ## One level of equality and comparison -/

theorem OrderableWithin.equalWith_self (hv : h.OrderableWithin n v) : h.equalWith n v v = true := by
  cases n with
  | zero => exact (hv : False).elim
  | succ n =>
    obtain ⟨f, hf, -⟩ := hv.2
    rcases formOf?_cases hf with ⟨hs, -⟩ | ⟨s, rfl, -⟩ | ⟨loc, -, rfl, -, -⟩ | ⟨loc, -, rfl, -, -⟩
    · rw [equalWith_scalar hs hs]
      exact (Doubles.beq_iff_rank_eq (hv.not_nan hs) (hv.not_nan hs)).2 rfl
    · simp [equalWith, Value.isScalar]
    · exact equalWith_self_ref
    · exact equalWith_self_ref

theorem equalWith_scalar_left (ha : a.isScalar = true) (hb : b.isScalar = false) :
    h.equalWith (n + 1) a b = false := by
  cases a <;> cases b <;> simp_all [equalWith, Value.isScalar]

theorem equalWith_scalar_right (ha : a.isScalar = false) (hb : b.isScalar = true) :
    h.equalWith (n + 1) a b = false := by
  cases a <;> cases b <;> simp_all [equalWith, Value.isScalar]

theorem compareWith_scalar_left (ha : a.isScalar = true) (hb : b.isScalar = false) :
    (h.compareWith op (n + 1) a b).toOption = none := by
  cases a <;> cases b <;> simp_all [compareWith, Value.isScalar, Except.toOption]

theorem compareWith_scalar_right (ha : a.isScalar = false) (hb : b.isScalar = true) :
    (h.compareWith op (n + 1) a b).toOption = none := by
  cases a <;> cases b <;> simp_all [compareWith, Value.isScalar, Except.toOption]

theorem compareWith_scalar (ha : a.isScalar = true) (hb : b.isScalar = true)
    (hna : a.scalar.isNaN = false) (hnb : b.scalar.isNaN = false) :
    h.compareWith op (n + 1) a b = .ok (threeWay (Doubles.rank a.scalar) (Doubles.rank b.scalar)) := by
  simp only [compareWith, ha, hb, Bool.and_self, if_true, gt_iff_lt,
    Doubles.lt_iff_rank_lt hna hnb, Doubles.lt_iff_rank_lt hnb hna]
  rfl

theorem lexCompare_firstDifference {c : Value → Value → Except Diagnostic Int}
    {cmp : Value → Value → Option Int} : ∀ {xs ys : List Value},
      (∀ u ∈ xs, ∀ w ∈ ys, cmp u w = (c u w).toOption) →
      lexCompare (h.equalWith n) cmp xs ys =
        ((h.firstDifference n c xs ys).getD (.ok ((xs.length : Int) - ys.length))).toOption
  | [], ys, _ => by simp [lexCompare, firstDifference, Except.toOption]
  | x :: xs, [], _ => by simp [lexCompare, firstDifference, Except.toOption]
  | x :: xs, y :: ys, hc => by
    have hrest := lexCompare_firstDifference fun u (hu : u ∈ xs) w (hw : w ∈ ys) =>
      hc u (List.mem_cons_of_mem x hu) w (List.mem_cons_of_mem y hw)
    by_cases he : h.equalWith n x y = true
    · simp [lexCompare, firstDifference, he, hrest]
    · simp [lexCompare, firstDifference, he, hc x List.mem_cons_self y List.mem_cons_self]

/-- Values that can be ordered are equal as their forms are. -/
theorem equalWith_succ_form (ha : h.OrderableWithin (n + 1) a) (hb : h.OrderableWithin (n + 1) b)
    (hfa : h.formOf? a = some fa) (hfb : h.formOf? b = some fb) :
    h.equalWith (n + 1) a b = Form.equal (h.equalWith n) fa fb := by
  have hova := ha.over hfa
  rcases formOf?_cases hfa with ⟨hsa, rfl⟩ | ⟨s, rfl, rfl⟩ | ⟨x, p, rfl, hx, rfl⟩ |
      ⟨x, p, rfl, hx, rfl⟩ <;>
    rcases formOf?_cases hfb with ⟨hsb, rfl⟩ | ⟨t, rfl, rfl⟩ | ⟨y, q, rfl, hy, rfl⟩ |
      ⟨y, q, rfl, hy, rfl⟩
  · rw [equalWith_scalar hsa hsb, Bool.eq_iff_iff]
    simpa [Form.equal] using Doubles.beq_iff_rank_eq (ha.not_nan hsa) (hb.not_nan hsb)
  -- a truth value or number against another kind
  all_goals try (rw [equalWith_scalar_left hsa (by rfl)]; rfl)
  all_goals try (rw [equalWith_scalar_right (by rfl) hsb]; rfl)
  -- two texts, or a text and an object
  all_goals try (simp [equalWith, Value.isScalar, Form.equal, beq_eq_decide]; done)
  -- two objects: one object is equal to itself (and is not both a list and a tuple), two are
  -- equal element by element
  all_goals
    by_cases hxy : x = y
    · subst hxy
      rw [hx] at hy
      cases hy <;>
        simp [equalWith_self_ref, Form.equal, seqEqual_self fun u hu => (hova u hu).equalWith_self]
    · simp [equalWith, Value.isScalar, hxy, hx, hy, Form.equal, seqEqual_eq_zip]

/-- Values that can be ordered compare as their forms do, with any comparison of the elements
that agrees with the machine's on the values one level down. -/
theorem compareWith_succ_form {cmp : Value → Value → Option Int}
    (ha : h.OrderableWithin (n + 1) a) (hb : h.OrderableWithin (n + 1) b)
    (hfa : h.formOf? a = some fa) (hfb : h.formOf? b = some fb)
    (hc : ∀ u w, h.OrderableWithin n u → h.OrderableWithin n w →
      cmp u w = (h.compareWith op n u w).toOption) :
    (h.compareWith op (n + 1) a b).toOption = Form.compare (h.equalWith n) cmp fa fb := by
  have hova := ha.over hfa
  have hovb := hb.over hfb
  rcases formOf?_cases hfa with ⟨hsa, rfl⟩ | ⟨s, rfl, rfl⟩ | ⟨x, p, rfl, hx, rfl⟩ |
      ⟨x, p, rfl, hx, rfl⟩ <;>
    rcases formOf?_cases hfb with ⟨hsb, rfl⟩ | ⟨t, rfl, rfl⟩ | ⟨y, q, rfl, hy, rfl⟩ |
      ⟨y, q, rfl, hy, rfl⟩
  · rw [compareWith_scalar hsa hsb (ha.not_nan hsa) (hb.not_nan hsb)]
    rfl
  all_goals try (rw [compareWith_scalar_left hsa (by rfl)]; rfl)
  all_goals try (rw [compareWith_scalar_right (by rfl) hsb]; rfl)
  all_goals try (simp [compareWith, Value.isScalar, Form.compare, Except.toOption, threeWay]; done)
  -- a list and a tuple
  all_goals try (simp [compareWith, Value.isScalar, hx, hy, Form.compare, Except.toOption]; done)
  -- two lists or two tuples: the lexicographic comparison of their elements
  all_goals
    simp only [compareWith, Value.isScalar, hx, hy, Form.compare, Bool.false_and]
    rw [lexCompare_firstDifference fun u hu w hw => hc u w (hova u hu) (hovb w hw)]
    cases h.firstDifference n (h.compareWith op n) p.toList q.toList <;> simp

theorem orderLaws_within (op : String) : ∀ n,
    OrderLaws (h.OrderableWithin n) (h.equalWith n) fun a b => (h.compareWith op n a b).toOption
  | 0 => OrderLaws.of_empty fun _ ha => ha
  | n + 1 => (Form.orderLaws (orderLaws_within op n)).comap h.formOf? (fun ha => ha.2)
      (fun ha hb hfa hfb => equalWith_succ_form ha hb hfa hfb)
      (fun ha hb hfa hfb => compareWith_succ_form ha hb hfa hfb fun _ _ _ _ => rfl)

theorem compareWith_toOption_op (op' : String) : ∀ {n : Nat} {a b : Value},
    h.OrderableWithin n a → h.OrderableWithin n b →
      (h.compareWith op n a b).toOption = (h.compareWith op' n a b).toOption
  | 0, _, _, ha, _ => (ha : False).elim
  | _ + 1, _, _, ha, hb => by
    obtain ⟨fa, hfa, -⟩ := ha.2
    obtain ⟨fb, hfb, -⟩ := hb.2
    rw [compareWith_succ_form ha hb hfa hfb fun u w hu hw => (compareWith_toOption_op op' hu hw).symm,
      compareWith_succ_form ha hb hfa hfb fun _ _ _ _ => rfl]

/-! ## The operators -/

theorem less_eq_ok_true :
    h.less a b = .ok true ↔ ∃ r < 0, h.compareWith "<" h.depth a b = .ok r := by
  unfold less
  cases h.compareWith "<" h.depth a b <;> simp [Except.map]

theorem lessEqual_eq_ok_true :
    h.lessEqual a b = .ok true ↔ ∃ r ≤ 0, h.compareWith "<=" h.depth a b = .ok r := by
  unfold lessEqual
  cases h.compareWith "<=" h.depth a b <;> simp [Except.map]

variable {c : Value} (ha : h.Orderable a) (hb : h.Orderable b) (hc : h.Orderable c)
include ha hb

theorem compare_swap (op : String) :
    (h.compareWith op h.depth b a).toOption = (h.compareWith op h.depth a b).toOption.map Neg.neg :=
  (orderLaws_within op h.depth).swap ha.within_depth hb.within_depth

theorem compare_succeeds_iff (op : String) :
    (∃ r, h.compareWith op h.depth a b = .ok r) ↔ ∃ r, h.compareWith op h.depth b a = .ok r := by
  simp only [← toOption_eq_some_iff, ← Option.isSome_iff_exists, compare_swap ha hb op,
    Option.isSome_map]

theorem compare_eq_zero_iff (op : String) :
    h.compareWith op h.depth a b = .ok 0 ↔ h.equal a b = true := by
  rw [← toOption_eq_some_iff]
  exact (orderLaws_within op h.depth).zero ha.within_depth hb.within_depth

theorem greater_iff_less_swapped :
    (Machine.evalComparison h 1 a b).toOption = (h.less b a).toOption := by
  have hswap := compare_swap ha hb "<"
  rw [compareWith_toOption_op "<=" ha.within_depth hb.within_depth] at hswap
  simp only [Machine.evalComparison, less, lessEqual, toOption_map, hswap, Option.map_map]
  cases (h.compareWith "<=" h.depth a b).toOption with
  | none => rfl
  | some r => simp [← decide_not]

theorem greaterEqual_iff_lessEqual_swapped :
    (Machine.evalComparison h 3 a b).toOption = (h.lessEqual b a).toOption := by
  have hswap := compare_swap ha hb "<="
  rw [compareWith_toOption_op "<" ha.within_depth hb.within_depth] at hswap
  simp only [Machine.evalComparison, less, lessEqual, toOption_map, hswap, Option.map_map]
  cases (h.compareWith "<" h.depth a b).toOption with
  | none => rfl
  | some r => simp [← decide_not]

include hc

theorem less_trans (hab : h.less a b = .ok true) (hbc : h.less b c = .ok true) :
    h.less a c = .ok true := by
  obtain ⟨r, hr, hab⟩ := less_eq_ok_true.1 hab
  obtain ⟨s, hs, hbc⟩ := less_eq_ok_true.1 hbc
  obtain ⟨t, ht, hac⟩ := (orderLaws_within "<" h.depth).lt_trans ha.within_depth hb.within_depth
    hc.within_depth (toOption_eq_some_iff.2 hab) hr (toOption_eq_some_iff.2 hbc) hs
  exact less_eq_ok_true.2 ⟨t, ht, toOption_eq_some_iff.1 hac⟩

theorem lessEqual_trans (hab : h.lessEqual a b = .ok true) (hbc : h.lessEqual b c = .ok true) :
    h.lessEqual a c = .ok true := by
  obtain ⟨r, hr, hab⟩ := lessEqual_eq_ok_true.1 hab
  obtain ⟨s, hs, hbc⟩ := lessEqual_eq_ok_true.1 hbc
  obtain ⟨t, ht, hac⟩ := (orderLaws_within "<=" h.depth).le_trans ha.within_depth hb.within_depth
    hc.within_depth (toOption_eq_some_iff.2 hab) hr (toOption_eq_some_iff.2 hbc) hs
  exact lessEqual_eq_ok_true.2 ⟨t, ht, toOption_eq_some_iff.1 hac⟩

end Heap

/-- On values that hold no NaN and nest only truth values, numbers, texts, lists and tuples,
comparison is a consistent order: swapping the operands negates the comparison and keeps its
failures, so `>` is `<` swapped and `>=` is `<=` swapped; the comparison is zero exactly on
values equal under `==`; and `<` and `<=` are transitive. -/
theorem ordering_consistent {h : Heap} {a b c : Value} (op : String) (ha : h.Orderable a)
    (hb : h.Orderable b) (hc : h.Orderable c) :
    (h.compareWith op h.depth b a).toOption = (h.compareWith op h.depth a b).toOption.map Neg.neg ∧
      ((∃ r, h.compareWith op h.depth a b = .ok r) ↔ ∃ r, h.compareWith op h.depth b a = .ok r) ∧
      (Machine.evalComparison h 1 a b).toOption = (h.less b a).toOption ∧
      (Machine.evalComparison h 3 a b).toOption = (h.lessEqual b a).toOption ∧
      (h.compareWith op h.depth a b = .ok 0 ↔ h.equal a b = true) ∧
      (h.less a b = .ok true → h.less b c = .ok true → h.less a c = .ok true) ∧
      (h.lessEqual a b = .ok true → h.lessEqual b c = .ok true → h.lessEqual a c = .ok true) :=
  ⟨Heap.compare_swap ha hb op, Heap.compare_succeeds_iff ha hb op,
    Heap.greater_iff_less_swapped ha hb, Heap.greaterEqual_iff_lessEqual_swapped ha hb,
    Heap.compare_eq_zero_iff ha hb op, Heap.less_trans ha hb hc, Heap.lessEqual_trans ha hb hc⟩

def orderedLists : Heap := ⟨#[.list #[.num 1, .str "a"], .list #[.bool true, .str "b"]]⟩

theorem ordering_consistent_lists :
    orderedLists.Orderable (.ref 0) ∧ orderedLists.Orderable (.ref 1) ∧
      orderedLists.Orderable (.str "c") ∧
      ((orderedLists.compareWith "<" orderedLists.depth (.ref 1) (.ref 0)).toOption =
          (orderedLists.compareWith "<" orderedLists.depth (.ref 0) (.ref 1)).toOption.map Neg.neg ∧
        ((∃ r, orderedLists.compareWith "<" orderedLists.depth (.ref 0) (.ref 1) = .ok r) ↔
          ∃ r, orderedLists.compareWith "<" orderedLists.depth (.ref 1) (.ref 0) = .ok r) ∧
        (Machine.evalComparison orderedLists 1 (.ref 0) (.ref 1)).toOption =
          (orderedLists.less (.ref 1) (.ref 0)).toOption ∧
        (Machine.evalComparison orderedLists 3 (.ref 0) (.ref 1)).toOption =
          (orderedLists.lessEqual (.ref 1) (.ref 0)).toOption ∧
        (orderedLists.compareWith "<" orderedLists.depth (.ref 0) (.ref 1) = .ok 0 ↔
          orderedLists.equal (.ref 0) (.ref 1) = true) ∧
        (orderedLists.less (.ref 0) (.ref 1) = .ok true →
          orderedLists.less (.ref 1) (.str "c") = .ok true →
            orderedLists.less (.ref 0) (.str "c") = .ok true) ∧
        (orderedLists.lessEqual (.ref 0) (.ref 1) = .ok true →
          orderedLists.lessEqual (.ref 1) (.str "c") = .ok true →
            orderedLists.lessEqual (.ref 0) (.str "c") = .ok true)) := by
  have hnum : orderedLists.OrderableWithin 1 (.num 1) := ⟨fun _ => by decide, _, rfl, trivial⟩
  have hbool : orderedLists.OrderableWithin 1 (.bool true) := ⟨fun _ => by decide, _, rfl, trivial⟩
  have htext (s : String) : orderedLists.OrderableWithin 1 (.str s) :=
    ⟨fun hs => by simp [Value.isScalar] at hs, _, rfl, trivial⟩
  have h0 : orderedLists.Orderable (.ref 0) :=
    ⟨2, fun hs => by simp [Value.isScalar] at hs, _, rfl, by simp [Form.Over, hnum, htext]⟩
  have h1 : orderedLists.Orderable (.ref 1) :=
    ⟨2, fun hs => by simp [Value.isScalar] at hs, _, rfl, by simp [Form.Over, hbool, htext]⟩
  exact ⟨h0, h1, ⟨1, htext "c"⟩, ordering_consistent "<" h0 h1 ⟨1, htext "c"⟩⟩

end ScriptMachine
