import ScriptMachine.Proofs.Value.Keys
/-!
# Structural recursions end on values without cycles

Display, equality, order and dict keys recurse into the values an object holds: the elements of
a list or tuple, the keys and values of a dict (`Heap.Child`). They keep no record of where they
have been, so they end exactly when the values below stop: `Heap.Nested n v` says that every
chain of held values from `v` is shorter than `n`. A value nests to some depth exactly when no
value reachable from it holds itself (`Heap.noCycleFrom_iff_nested`), and then it nests at most
one level deeper than the heap has objects (`NoCycleFrom.nested`), since a chain of objects that
never comes back visits distinct locations.
-/

namespace ScriptMachine

/-- The values an object holds, which the structural recursions look into: the elements of a
list or tuple, and the keys and values of a dict. A function holds none. -/
def Obj.children : Obj → List Value
  | .list xs => xs.toList
  | .tuple xs => xs.toList
  | .dict d => d.keys.toList ++ d.vals.toList
  | .closure _ => []

namespace Heap

open Relation

/-- `w` is held by `v`: an element of the list or tuple `v`, or a key or value of the dict `v`. -/
def Child (h : Heap) (w v : Value) : Prop :=
  ∃ loc o, v = .ref loc ∧ h.get? loc = some o ∧ w ∈ o.children

/-- `v` nests fewer than `n` deep: every chain of values, each held by the one before and the
first by `v`, has fewer than `n` members. -/
inductive Nested (h : Heap) : Nat → Value → Prop
  | intro {n : Nat} {v : Value} (hc : ∀ w, h.Child w v → h.Nested n w) : h.Nested (n + 1) v

def NoCycleFrom (h : Heap) (v : Value) : Prop :=
  ∀ w, ReflTransGen h.Child w v → ¬ TransGen h.Child w w

variable {h : Heap} {n m : Nat} {v w : Value} {loc : Nat} {o : Obj}

theorem child_of_mem (ho : h.get? loc = some o) (hw : w ∈ o.children) : h.Child w (.ref loc) :=
  ⟨loc, o, rfl, ho, hw⟩

theorem pair_mem_children {d : Dict} {e : Value × Value} (he : e ∈ d.pairs) :
    e.1 ∈ (Obj.dict d).children ∧ e.2 ∈ (Obj.dict d).children :=
  ⟨List.mem_append_left _ (List.of_mem_zip he).1, List.mem_append_right _ (List.of_mem_zip he).2⟩

theorem value_mem_children_of_get? {d : Dict} {k : Key} (hg : d.get? k = some w) :
    w ∈ (Obj.dict d).children := by
  simp only [Dict.get?, Option.bind_eq_some_iff] at hg
  obtain ⟨i, -, hi⟩ := hg
  exact List.mem_append_right _ (Array.mem_toList_iff.2 (Array.mem_of_getElem? hi))

/-! ## Nesting depth -/

theorem Nested.mono (hv : h.Nested n v) (hnm : n ≤ m) : h.Nested m v := by
  induction hv generalizing m with
  | intro _ ih =>
    obtain ⟨m, rfl⟩ : ∃ k, m = k + 1 := ⟨m - 1, by omega⟩
    exact .intro fun w hw => ih w hw (by omega)

theorem Nested.held (hv : h.Nested n v) (hw : TransGen h.Child w v) :
    ∃ m < n, h.Nested m w := by
  induction hw generalizing n with
  | single hc =>
    cases hv with
    | intro hn => exact ⟨_, by omega, hn _ hc⟩
  | tail _ hc ih =>
    cases hv with
    | intro hn =>
      obtain ⟨m, hm, hw⟩ := ih (hn _ hc)
      exact ⟨m, by omega, hw⟩

theorem Nested.not_cycle (hv : h.Nested n v) : ¬ TransGen h.Child v v := by
  induction n using Nat.strong_induction_on generalizing v with
  | _ n ih =>
    intro hc
    obtain ⟨m, hmn, hm⟩ := hv.held hc
    exact ih m hmn hm hc

theorem Nested.noCycleFrom (hv : h.Nested n v) : h.NoCycleFrom v := by
  intro w hw
  rcases reflTransGen_iff_eq_or_transGen.1 hw with rfl | hw
  · exact hv.not_cycle
  · obtain ⟨m, -, hm⟩ := hv.held hw
    exact hm.not_cycle

/-! ## Chains of held objects are no longer than the heap -/

/-- `path` lists distinct locations of objects, each holding `v` directly or through others. -/
structure Descent (h : Heap) (v : Value) (path : List Nat) : Prop where
  nodup : path.Nodup
  lt : ∀ l ∈ path, l < h.objects.size
  above : ∀ l ∈ path, TransGen h.Child v (.ref l)

theorem Descent.nil : h.Descent v [] := ⟨List.nodup_nil, by simp, by simp⟩

theorem Descent.length_le {path : List Nat} (hd : h.Descent v path) :
    path.length ≤ h.objects.size := by
  have hsub : path ⊆ List.range h.objects.size := fun l hl => List.mem_range.2 (hd.lt l hl)
  simpa using hd.nodup.length_le_of_subset hsub

theorem Descent.cons {path : List Nat} (hd : h.Descent (.ref loc) path) (hfresh : loc ∉ path)
    (ho : h.get? loc = some o) (hw : w ∈ o.children) : h.Descent w (loc :: path) := by
  have hloc : loc < h.objects.size := by
    simp only [get?] at ho
    exact (Array.getElem?_eq_some_iff.1 ho).1
  have hc : h.Child w (.ref loc) := child_of_mem ho hw
  refine ⟨List.nodup_cons.2 ⟨hfresh, hd.nodup⟩, fun l hl => ?_, fun l hl => ?_⟩
  · rcases List.mem_cons.1 hl with rfl | hl
    · exact hloc
    · exact hd.lt l hl
  · rcases List.mem_cons.1 hl with rfl | hl
    · exact .single hc
    · exact TransGen.head hc (hd.above l hl)

theorem nested_of_descent :
    ∀ {k : Nat} {v : Value} {path : List Nat}, h.NoCycleFrom v → h.Descent v path →
      h.objects.size + 1 ≤ k + path.length → h.Nested k v
  | 0, _, _, _, hd, hk => absurd hd.length_le (by omega)
  | k + 1, v, path, hv, hd, hk => .intro fun w ⟨loc, o, hloc, ho, hw⟩ => by
    subst hloc
    -- the object is not on the path, or it would hold itself
    have hfresh : loc ∉ path := fun hmem => hv _ .refl (hd.above loc hmem)
    have hw' : h.NoCycleFrom w := fun u hu => hv u (hu.tail (child_of_mem ho hw))
    exact nested_of_descent hw' (hd.cons hfresh ho hw) (by simp only [List.length_cons]; omega)

/-- A value without cycles nests at most one level deeper than the heap has objects. -/
theorem NoCycleFrom.nested (hv : h.NoCycleFrom v) : h.Nested (h.objects.size + 1) v :=
  nested_of_descent hv Descent.nil (by simp)

theorem noCycleFrom_iff_nested : h.NoCycleFrom v ↔ ∃ n, h.Nested n v :=
  ⟨fun hv => ⟨_, hv.nested⟩, fun ⟨_, hv⟩ => hv.noCycleFrom⟩

/-! ## One level of each recursion -/

theorem all_congr_mem {α : Type} {l : List α} {f g : α → Bool} (hfg : ∀ x ∈ l, f x = g x) :
    l.all f = l.all g := by
  induction l with
  | nil => rfl
  | cons x l ih =>
    simp only [List.all_cons, hfg x List.mem_cons_self,
      ih fun y hy => hfg y (List.mem_cons_of_mem x hy)]

theorem zip_all_congr {p q : List Value} {f g : Value → Value → Bool}
    (hfg : ∀ u ∈ p, ∀ w ∈ q, f u w = g u w) :
    ((p.zip q).all fun e => f e.1 e.2) = (p.zip q).all fun e => g e.1 e.2 :=
  all_congr_mem fun _ he => hfg _ (List.of_mem_zip he).1 _ (List.of_mem_zip he).2

theorem reprWith_succ_congr (hk : ∀ w, h.Child w v → h.reprWith m w = h.reprWith n w) :
    h.reprWith (m + 1) v = h.reprWith (n + 1) v := by
  cases v with
  | ref loc =>
    cases ho : h.get? loc with
    | none => simp [reprWith, ho]
    | some o =>
      have hk' : ∀ w ∈ o.children, h.reprWith m w = h.reprWith n w :=
        fun w hw => hk w (child_of_mem ho hw)
      cases o with
      | list xs =>
        have hxs : ∀ w ∈ xs.toList, h.reprWith m w = h.reprWith n w := hk'
        simp only [reprWith, ho, List.map_congr_left hxs]
      | tuple xs =>
        have hxs : ∀ w ∈ xs.toList, h.reprWith m w = h.reprWith n w := hk'
        simp only [reprWith, ho, List.map_congr_left hxs]
      | dict d =>
        simp only [reprWith, ho]
        rw [List.map_congr_left fun e he => by
          rw [hk' _ (pair_mem_children he).1, hk' _ (pair_mem_children he).2]]
      | closure c => simp [reprWith, ho]
  | _ => rfl

theorem equalWith_succ_congr {a b : Value}
    (hk : ∀ u w, h.Child u a → h.Child w b → h.equalWith m u w = h.equalWith n u w) :
    h.equalWith (m + 1) a b = h.equalWith (n + 1) a b := by
  cases a <;> cases b <;> try rfl
  case ref.ref x y =>
    by_cases hxy : x = y
    · simp [equalWith, Value.isScalar, hxy]
    rcases hx : h.get? x with _ | ⟨p | p | p | c⟩ <;>
    rcases hy : h.get? y with _ | ⟨q | q | q | c'⟩ <;>
    simp [equalWith, Value.isScalar, hxy, hx, hy]
    -- two lists or two tuples: element by element
    all_goals try
      exact congrArg (_ && ·) (zip_all_congr fun u hu w hw =>
        hk u w (child_of_mem hx hu) (child_of_mem hy hw))
    -- two dicts: each value against the value under its key
    all_goals try
      refine congrArg (_ && ·) (all_congr_mem fun e he => ?_)
      cases h.keyOf e.1 with
      | error => rfl
      | ok k =>
        dsimp only
        cases hg : q.get? k with
        | none => rfl
        | some w =>
          exact hk _ _ (child_of_mem hx (pair_mem_children he).2)
            (child_of_mem hy (value_mem_children_of_get? hg))

theorem firstDifference_congr {c₁ c₂ : Value → Value → Except Diagnostic Int} :
    ∀ {xs ys : List Value},
      (∀ x ∈ xs, ∀ y ∈ ys, h.equalWith m x y = h.equalWith n x y ∧ c₁ x y = c₂ x y) →
      h.firstDifference m c₁ xs ys = h.firstDifference n c₂ xs ys
  | x :: xs, y :: ys, hc => by
    obtain ⟨he, hc'⟩ := hc x List.mem_cons_self y List.mem_cons_self
    have hrest := @firstDifference_congr c₁ c₂ xs ys fun x' hx' y' hy' =>
      hc x' (List.mem_cons_of_mem x hx') y' (List.mem_cons_of_mem y hy')
    simp only [firstDifference, he, hc', hrest]
  | [], _, _ => rfl
  | _ :: _, [], _ => rfl

theorem compareWith_succ_congr {op : String} {a b : Value}
    (hk : ∀ u w, h.Child u a → h.Child w b →
      h.equalWith m u w = h.equalWith n u w ∧ h.compareWith op m u w = h.compareWith op n u w) :
    h.compareWith op (m + 1) a b = h.compareWith op (n + 1) a b := by
  cases a <;> cases b <;> try rfl
  case ref.ref x y =>
    rcases hx : h.get? x with _ | ⟨p | p | p | c⟩ <;>
    rcases hy : h.get? y with _ | ⟨q | q | q | c'⟩ <;>
    simp [compareWith, Value.isScalar, hx, hy]
    -- two lists or two tuples: the first difference, compared alike
    all_goals rw [firstDifference_congr fun u (hu : u ∈ p.toList) w (hw : w ∈ q.toList) =>
      hk u w (child_of_mem hx hu) (child_of_mem hy hw)]

theorem keyWith_succ_congr (hk : ∀ w, h.Child w v → h.keyWith m w = h.keyWith n w) :
    h.keyWith (m + 1) v = h.keyWith (n + 1) v := by
  cases v with
  | ref loc =>
    cases ho : h.get? loc with
    | none => simp [keyWith, ho]
    | some o =>
      cases o with
      | tuple xs =>
        rw [keyWith_tuple ho, keyWith_tuple ho,
          Wire.mapM_congr_mem fun x (hx : x ∈ xs.toList) => hk x (child_of_mem ho hx)]
      | _ => simp [keyWith, ho]
  | _ => rfl

/-! ## Bounds past the depth change nothing -/

variable {a b : Value} {op : String}

theorem reprWith_stable (hv : h.Nested n v) (hnm : n ≤ m) : h.reprWith m v = h.reprWith n v := by
  induction hv generalizing m with
  | intro _ ih =>
    obtain ⟨m, rfl⟩ : ∃ k, m = k + 1 := ⟨m - 1, by omega⟩
    exact reprWith_succ_congr fun w hw => ih w hw (by omega)

theorem keyWith_stable_nested (hv : h.Nested n v) (hnm : n ≤ m) :
    h.keyWith m v = h.keyWith n v := by
  induction hv generalizing m with
  | intro _ ih =>
    obtain ⟨m, rfl⟩ : ∃ k, m = k + 1 := ⟨m - 1, by omega⟩
    exact keyWith_succ_congr fun w hw => ih w hw (by omega)

theorem equalWith_stable_left (ha : h.Nested n a) (hnm : n ≤ m) (b : Value) :
    h.equalWith m a b = h.equalWith n a b := by
  induction ha generalizing m b with
  | intro _ ih =>
    obtain ⟨m, rfl⟩ : ∃ k, m = k + 1 := ⟨m - 1, by omega⟩
    exact equalWith_succ_congr fun u w hu _ => ih u hu (by omega) w

theorem equalWith_stable_right (hb : h.Nested n b) (hnm : n ≤ m) (a : Value) :
    h.equalWith m a b = h.equalWith n a b := by
  induction hb generalizing m a with
  | intro _ ih =>
    obtain ⟨m, rfl⟩ : ∃ k, m = k + 1 := ⟨m - 1, by omega⟩
    exact equalWith_succ_congr fun u w _ hw => ih w hw (by omega) u

theorem compareWith_stable_left (ha : h.Nested n a) (hnm : n ≤ m) (b : Value) :
    h.compareWith op m a b = h.compareWith op n a b := by
  induction ha generalizing m b with
  | intro hc ih =>
    obtain ⟨m, rfl⟩ : ∃ k, m = k + 1 := ⟨m - 1, by omega⟩
    exact compareWith_succ_congr fun u w hu _ =>
      ⟨equalWith_stable_left (hc u hu) (by omega) w, ih u hu (by omega) w⟩

theorem compareWith_stable_right (hb : h.Nested n b) (hnm : n ≤ m) (a : Value) :
    h.compareWith op m a b = h.compareWith op n a b := by
  induction hb generalizing m a with
  | intro hc ih =>
    obtain ⟨m, rfl⟩ : ∃ k, m = k + 1 := ⟨m - 1, by omega⟩
    exact compareWith_succ_congr fun u w _ hw =>
      ⟨equalWith_stable_right (hc w hw) (by omega) u, ih w hw (by omega) u⟩

end Heap

/-! ## The recursions end exactly on values without cycles -/

def selfHoldingDict : Heap := ⟨#[.dict ⟨#[.str "k"], #[.ref 0], [(.str "k", 0)]⟩]⟩

theorem selfHoldingDict_display_grows (n : Nat) :
    (selfHoldingDict.reprWith (n + 1) (.ref 0)).length =
      (selfHoldingDict.reprWith n (.ref 0)).length + 7 := by
  have hk : (selfHoldingDict.reprWith n (.str "k")).length = 3 := by
    cases n <;> simp only [Heap.reprWith] <;> decide
  have hopen : "\x7b".length = 1 := by decide
  have hsep : ": ".length = 2 := by decide
  have hclose : "\x7d".length = 1 := by decide
  have hget : selfHoldingDict.get? 0 = some (.dict ⟨#[.str "k"], #[.ref 0], [(.str "k", 0)]⟩) := rfl
  simp [Heap.reprWith, hget, hk, hopen, hsep, hclose, Dict.pairs]
  omega

end ScriptMachine
