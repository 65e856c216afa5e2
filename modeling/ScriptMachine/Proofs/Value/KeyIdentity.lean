import Mathlib
import ScriptMachine.Machine.Natives
import ScriptMachine.Proofs.Machine.Controls
import ScriptMachine.Proofs.Value.Dicts
import ScriptMachine.Proofs.Wire.Floats
/-!
# Keys agree with equality

A dict finds an entry by the key of the value looked up, while `==` and `in` on lists compare
values (`Heap.equal`). The two agree on every hashable value whose numbers are *plain*, neither
NaN nor negative zero (`keyOf_eq_iff_equal`). They part on those two: a number's key is its bit
pattern, so `0` and `-0` are two keys though `0 == -0`, and all NaNs are one key though
`NaN != NaN`.
-/

namespace ScriptMachine

def PlainDouble (x : Float) : Prop := x.isNaN = false ∧ x.toBits ≠ 0x8000000000000000

/-- Two lists whose elements all map successfully map alike exactly when they pair up, for a test
on pairs that agrees with equal images. -/
theorem mapM_eq_iff_all_zip {ε α β : Type} {f : α → Except ε β} {r : α × α → Bool} :
    ∀ {xs ys : List α}, (∀ x ∈ xs, ∃ k, f x = .ok k) → (∀ y ∈ ys, ∃ k, f y = .ok k) →
      (∀ x ∈ xs, ∀ y ∈ ys, f x = f y ↔ r (x, y) = true) →
      (xs.mapM f = ys.mapM f ↔ xs.length = ys.length ∧ (xs.zip ys).all r = true)
  | [], [], _, _, _ => by simp
  | [], y :: ys, _, _, _ => by
    -- a map of a nonempty list never gives the empty list
    cases hy : f y <;> cases hm : ys.mapM f <;>
      simp [List.mapM_cons, hy, hm, bind, Except.bind, pure, Except.pure]
  | x :: xs, [], _, _, _ => by
    cases hx : f x <;> cases hm : xs.mapM f <;>
      simp [List.mapM_cons, hx, hm, bind, Except.bind, pure, Except.pure]
  | x :: xs, y :: ys, hxs, hys, hr => by
    obtain ⟨kx, hkx⟩ := hxs x List.mem_cons_self
    obtain ⟨ky, hky⟩ := hys y List.mem_cons_self
    have hxs' : ∀ x' ∈ xs, ∃ k, f x' = .ok k := fun x' hx' => hxs x' (List.mem_cons_of_mem x hx')
    have hys' : ∀ y' ∈ ys, ∃ k, f y' = .ok k := fun y' hy' => hys y' (List.mem_cons_of_mem y hy')
    obtain ⟨ks, hks, -⟩ := Wire.mapM_ok_of_forall (P := fun _ _ => True)
      fun x' hx' => (hxs' x' hx').imp fun k hk => ⟨hk, trivial⟩
    obtain ⟨ks', hks', -⟩ := Wire.mapM_ok_of_forall (P := fun _ _ => True)
      fun y' hy' => (hys' y' hy').imp fun k hk => ⟨hk, trivial⟩
    have hhead : kx = ky ↔ r (x, y) = true := by
      rw [← hr x List.mem_cons_self y List.mem_cons_self, hkx, hky, Except.ok.injEq]
    have htail : ks = ks' ↔ xs.length = ys.length ∧ (xs.zip ys).all r = true := by
      rw [← mapM_eq_iff_all_zip hxs' hys' fun x' hx' y' hy' =>
        hr x' (List.mem_cons_of_mem x hx') y' (List.mem_cons_of_mem y hy'), hks, hks',
        Except.ok.injEq]
    rw [List.mapM_cons, List.mapM_cons, hkx, hky, hks, hks']
    change Except.ok (kx :: ks) = Except.ok (ky :: ks') ↔ _
    rw [Except.ok.injEq, List.cons.injEq, hhead, htail]
    simp only [List.length_cons, Nat.add_right_cancel_iff, List.zip_cons_cons, List.all_cons,
      Bool.and_eq_true]
    exact and_left_comm

namespace Heap

open Relation

variable {h h' : Heap} {n : Nat} {a b v w : Value}

/-! ## Plain numbers -/

def PlainNumbers (h : Heap) (v : Value) : Prop :=
  ∀ x, ReflTransGen h.Inside (.num x) v → PlainDouble x

theorem PlainNumbers.inside (hp : h.PlainNumbers v) (hi : h.Inside w v) : h.PlainNumbers w :=
  fun x hx => hp x (hx.tail hi)

theorem PlainNumbers.scalar (hp : h.PlainNumbers v) (hs : v.isScalar = true) :
    PlainDouble v.scalar := by
  cases v with
  | bool b => cases b <;> constructor <;> decide
  | num x => exact hp x .refl
  | _ => simp [Value.isScalar] at hs

theorem eq_of_reach_leaf (hv : ∀ loc, v ≠ .ref loc) (hr : ReflTransGen h.Inside w v) : w = v := by
  induction hr using ReflTransGen.head_induction_on with
  | refl => rfl
  | head hi _ ih =>
    subst ih
    obtain ⟨loc, xs, rfl, -, -⟩ := hi
    exact absurd rfl (hv loc)

theorem PlainNumbers.num {x : Float} (hx : PlainDouble x) : h.PlainNumbers (.num x) := by
  intro y hy
  cases eq_of_reach_leaf (by simp) hy
  exact hx

theorem PlainNumbers.of_leaf (hv : ∀ loc, v ≠ .ref loc) (hn : ∀ x, v ≠ .num x) :
    h.PlainNumbers v := by
  intro x hx
  exact (hn x (eq_of_reach_leaf hv hx).symm).elim

theorem PlainNumbers.of_tuples (hp : h.PlainNumbers v)
    (ht : ∀ loc xs, h'.get? loc = some (.tuple xs) → h.get? loc = some (.tuple xs)) :
    h'.PlainNumbers v := by
  have hin : ∀ {u u'}, h'.Inside u u' → h.Inside u u' := by
    rintro u u' ⟨loc, xs, rfl, hxs, hu⟩
    exact ⟨loc, xs, rfl, ht loc xs hxs, hu⟩
  exact fun x hx => hp x (ReflTransGen.mono (fun _ _ => hin) _ _ hx)

/-! ## Keys and equality, case by case -/

theorem numKey_eq_num (x : Float) :
    numKey x = .num (if x.isNaN then 0x7FF8000000000000 else x.toBits) := by
  unfold numKey
  split <;> rfl

theorem numKey_eq_iff {x y : Float} (hx : PlainDouble x) (hy : PlainDouble y) :
    numKey x = numKey y ↔ (x == y) = true := by
  rw [Wire.beq_iff_eq_of_plain hx.1 hy.1 hx.2 hy.2]
  simp only [numKey, hx.1, hy.1, Bool.false_eq_true, if_false, Key.num.injEq]
  exact ⟨Wire.eq_of_toBits_eq, fun hxy => hxy ▸ rfl⟩

theorem keyWith_scalar (hs : v.isScalar = true) : h.keyWith (n + 1) v = .ok (numKey v.scalar) := by
  cases v <;> first | rfl | simp [Value.isScalar] at hs

theorem equalWith_scalar (ha : a.isScalar = true) (hb : b.isScalar = true) :
    h.equalWith (n + 1) a b = (a.scalar == b.scalar) := by
  simp [equalWith, ha, hb]

theorem equalWith_self_ref {loc : Nat} : h.equalWith (n + 1) (.ref loc) (.ref loc) = true := by
  simp [equalWith, Value.isScalar]

theorem equalWith_leaf_ref (hv : ∀ loc, v ≠ .ref loc) {loc : Nat} :
    h.equalWith (n + 1) v (.ref loc) = false := by
  cases v <;> simp_all [equalWith, Value.isScalar]

theorem equalWith_ref_leaf (hv : ∀ loc, v ≠ .ref loc) {loc : Nat} :
    h.equalWith (n + 1) (.ref loc) v = false := by
  cases v <;> simp_all [equalWith, Value.isScalar]

theorem equalWith_closure_left {x y : Nat} {c : Closure} (hc : h.get? x = some (.closure c)) :
    h.equalWith (n + 1) (.ref x) (.ref y) = (x == y) := by
  by_cases hxy : x = y
  · subst hxy
    simp [equalWith_self_ref]
  · simp [equalWith, Value.isScalar, hxy, hc]

theorem equalWith_closure_right {x y : Nat} {c : Closure} (hc : h.get? y = some (.closure c)) :
    h.equalWith (n + 1) (.ref x) (.ref y) = (x == y) := by
  by_cases hxy : x = y
  · subst hxy
    simp [equalWith_self_ref]
  · cases hx : h.get? x with
    | none => simp [equalWith, Value.isScalar, hxy, hx, hc]
    | some o => cases o <;> simp [equalWith, Value.isScalar, hxy, hx, hc]

theorem equalWith_tuples {x y : Nat} {p q : Array Value} (hx : h.get? x = some (.tuple p))
    (hy : h.get? y = some (.tuple q)) (hxy : x ≠ y) :
    h.equalWith (n + 1) (.ref x) (.ref y) =
      (p.size == q.size && (p.toList.zip q.toList).all fun (u, w) => h.equalWith n u w) := by
  simp [equalWith, Value.isScalar, hxy, hx, hy]

theorem keyWith_leaf_ne_ref (hv : ∀ loc, v ≠ .ref loc) {loc : Nat}
    (hw : h.Within (n + 1) (.ref loc)) : h.keyWith (n + 1) v ≠ h.keyWith (n + 1) (.ref loc) := by
  cases hw with
  | leaf _ hv' => exact absurd rfl (hv' loc)
  | closure _ hc =>
    rw [keyWith_closure hc]
    cases v <;> simp_all [keyWith, numKey_eq_num]
  | tuple _ ht _ =>
    rw [keyWith_tuple ht]
    cases hm : (List.mapM (h.keyWith n) _) <;>
      cases v <;> simp_all [keyWith, numKey_eq_num, Except.map]

theorem leaf_key_eq_iff (hva : ∀ loc, a ≠ .ref loc) (hvb : ∀ loc, b ≠ .ref loc)
    (pa : h.PlainNumbers a) (pb : h.PlainNumbers b) :
    h.keyWith (n + 1) a = h.keyWith (n + 1) b ↔ h.equalWith (n + 1) a b = true := by
  by_cases hs : a.isScalar = true ∧ b.isScalar = true
  · rw [keyWith_scalar hs.1, keyWith_scalar hs.2, equalWith_scalar hs.1 hs.2, Except.ok.injEq]
    exact numKey_eq_iff (pa.scalar hs.1) (pb.scalar hs.2)
  · -- a leaf that is no number has a key of its own kind, compared by content
    cases a <;> cases b <;> simp_all [keyWith, equalWith, Value.isScalar, numKey_eq_num]

theorem map_tuple_eq_iff {e e' : Except Diagnostic (List Key)} :
    e.map Key.tuple = e'.map Key.tuple ↔ e = e' := by
  cases e <;> cases e' <;> simp [Except.map]

/-! ## Keys agree with equality -/

/-- At any fuel, two values hashable within it whose numbers are plain have equal keys exactly
when they are equal. -/
theorem keyWith_eq_iff_equalWith :
    ∀ {n : Nat} {a b : Value}, h.Within n a → h.Within n b → h.PlainNumbers a →
      h.PlainNumbers b → (h.keyWith n a = h.keyWith n b ↔ h.equalWith n a b = true)
  | 0, _, _, ha, _, _, _ => nomatch ha
  | n + 1, a, b, ha, hb, pa, pb => by
    cases ha with
    | leaf _ hva =>
      by_cases hvb : ∀ loc, b ≠ .ref loc
      · exact leaf_key_eq_iff hva hvb pa pb
      · obtain ⟨loc, rfl⟩ : ∃ loc, b = .ref loc := by simpa using hvb
        rw [equalWith_leaf_ref hva]
        simpa using keyWith_leaf_ne_ref hva hb
    | @closure x c _ hc =>
      cases hb with
      | leaf _ hvb =>
        rw [equalWith_ref_leaf hvb]
        simpa [eq_comm] using keyWith_leaf_ne_ref hvb (.closure n hc)
      | closure _ hc' =>
        rw [keyWith_closure hc, keyWith_closure hc', equalWith_closure_left hc]
        simp
      | @tuple y ys _ ht _ =>
        -- a function and a tuple: two objects, with keys of two kinds
        have hxy : x ≠ y := by
          rintro rfl
          simp [hc] at ht
        rw [equalWith_closure_left hc, keyWith_closure hc, keyWith_tuple ht]
        cases ys.toList.mapM (h.keyWith n) <;> simp [hxy, Except.map]
    | @tuple x xs _ ht hxs =>
      cases hb with
      | leaf _ hvb =>
        rw [equalWith_ref_leaf hvb]
        simpa [eq_comm] using keyWith_leaf_ne_ref hvb (.tuple n ht hxs)
      | @closure y c _ hc =>
        have hxy : x ≠ y := by
          rintro rfl
          simp [hc] at ht
        rw [equalWith_closure_right hc, keyWith_closure hc, keyWith_tuple ht]
        cases xs.toList.mapM (h.keyWith n) <;> simp [hxy, Except.map]
      | @tuple y ys _ ht' hys =>
        by_cases hxy : x = y
        · subst hxy
          simp [equalWith_self_ref]
        · -- two tuples: their elements pair up, each pair by this lemma one level down
          have helems : ∀ u ∈ xs.toList, ∀ w ∈ ys.toList,
              h.keyWith n u = h.keyWith n w ↔ h.equalWith n u w = true := fun u hu w hw =>
            keyWith_eq_iff_equalWith (hxs u hu) (hys w hw) (pa.inside ⟨x, xs, rfl, ht, hu⟩)
              (pb.inside ⟨y, ys, rfl, ht', hw⟩)
          rw [keyWith_tuple ht, keyWith_tuple ht', equalWith_tuples ht ht' hxy, map_tuple_eq_iff,
            mapM_eq_iff_all_zip (r := fun p => h.equalWith n p.1 p.2)
              (fun u hu => (hxs u hu).keyWith_ok) (fun w hw => (hys w hw).keyWith_ok) helems]
          simp

/-- Dict key identity is equality, on hashable values whose numbers are neither NaN nor negative
zero. -/
theorem keyOf_eq_iff_equal (ha : h.Hashable a) (hb : h.Hashable b) (pa : h.PlainNumbers a)
    (pb : h.PlainNumbers b) : h.keyOf a = h.keyOf b ↔ h.equal a b = true := by
  obtain ⟨_, hwa⟩ := ha
  obtain ⟨_, hwb⟩ := hb
  exact keyWith_eq_iff_equalWith hwa.depth hwb.depth pa pb

/-! ## Lookups and membership -/

def PlainKeys (h : Heap) (d : Dict) : Prop := ∀ key ∈ d.keys.toList, h.PlainNumbers key

variable {loc : Nat} {d : Dict} {key : Value}

/-- In a sound dict with plain keys, looking up a hashable value with plain numbers gives the
value at the position of the key that equals it, and only that. -/
theorem index_eq_ok_iff_equal (hd : h.get? loc = some (.dict d)) (hs : d.Sound h)
    (hp : h.PlainKeys d) (hk : h.Hashable key) (pk : h.PlainNumbers key) {v : Value} :
    h.index (.ref loc) key = .ok v ↔
      ∃ i, ∃ hi : i < d.keys.size, h.equal key d.keys[i] = true ∧ d.vals[i]? = some v := by
  obtain ⟨k, hkk⟩ := keyOf_hashable hk
  rw [index_sound hd hs hkk]
  refine exists_congr fun i => exists_congr fun hi => and_congr_left fun _ => ?_
  have hmem := Array.getElem_mem_toList hi
  exact eq_comm.trans (keyOf_eq_iff_equal hk (hs.hashable _ hmem) pk (hp _ hmem))

theorem contains_dict (hd : h.get? loc = some (.dict d)) :
    h.contains (.ref loc) key = (h.keyOf key).map fun k => (d.find? k).isSome := by
  simp [contains, hd]

theorem contains_newList (xs : Array Value) :
    (h.newList xs).2.contains (h.newList xs).1 key =
      .ok (xs.any fun e => (h.newList xs).2.equal e key) := by
  simp [newList, Heap.alloc, contains, get?]

theorem unpack_dict (hd : h.get? loc = some (.dict d)) (hsize : d.size ≤ maxCollected) :
    h.unpack (.ref loc) = .ok d.keys := by
  have hlen : h.length (.ref loc) = .ok d.size := by simp [length, hd]
  have helem : ∀ i ∈ List.range d.size,
      h.elementAt (.ref loc) i = .ok (d.keys[i]?.getD .none) := by
    intro i hi
    have hi' : i < d.size := List.mem_range.1 hi
    simp [elementAt, dict?, objOf?, hd, hi']
  have hkeys : (List.range d.size).map (fun i => d.keys[i]?.getD .none) = d.keys.toList := by
    apply List.ext_getElem (by simp [Dict.size])
    intro i h1 h2
    have hi : i < d.keys.size := by simpa using h2
    simp [Array.getElem?_eq_getElem hi]
  have hitems : ((List.range d.size).mapM fun (i : Nat) => h.elementAt (.ref loc) i) =
      .ok d.keys.toList :=
    (Wire.mapM_eq_pure_map helem).trans (congrArg pure hkeys)
  have hfits : ((d.size : Int) < 0 || (d.size : Int).toNat > maxCollected) = false := by
    simp only [Int.toNat_natCast, Bool.or_eq_false_iff, decide_eq_false_iff_not]
    omega
  simp only [unpack, Machine.bind_eq_ok, Machine.mapError_eq_ok, hlen]
  refine ⟨_, rfl, ?_⟩
  rw [hfits, if_neg Bool.false_ne_true, Int.toNat_natCast]
  simp only [Machine.bind_eq_ok, Machine.mapError_eq_ok]
  exact ⟨_, hitems, rfl⟩

theorem find?_isSome_iff (hs : d.Sound h) {k : Key} :
    (d.find? k).isSome = true ↔ ∃ i, ∃ hi : i < d.keys.size, h.keyOf d.keys[i] = .ok k := by
  rw [Option.isSome_iff_exists]
  exact ⟨fun ⟨i, hi⟩ => ⟨i, (hs.indexed k i).1 hi⟩, fun ⟨i, hi⟩ => ⟨i, (hs.indexed k i).2 hi⟩⟩

/-- `key in list(d)` is `key in d`, for a sound dict with plain keys and a hashable key with plain
numbers: the list holds the dict's keys, and `==` on them agrees with their keys. -/
theorem contains_list_keys (hd : h.get? loc = some (.dict d)) (hs : d.Sound h)
    (hp : h.PlainKeys d) (hk : h.Hashable key) (pk : h.PlainNumbers key) :
    (h.newList d.keys).2.contains (h.newList d.keys).1 key = h.contains (.ref loc) key := by
  obtain ⟨k, hkk⟩ := keyOf_hashable hk
  have hkeep : h.KeepsKeys (h.newList d.keys).2 := KeepsKeys.alloc _
  have hnew : ∀ l xs, (h.newList d.keys).2.get? l = some (.tuple xs) →
      h.get? l = some (.tuple xs) := by
    intro l xs hl
    rcases get?_alloc _ hl with ⟨-, he⟩ | hl
    · cases he
    · exact hl
  -- the new list is no tuple, so keys and plain numbers are as they were
  have hequal : ∀ i (hi : i < d.keys.size),
      (h.newList d.keys).2.equal d.keys[i] key = true ↔ h.keyOf d.keys[i] = .ok k := by
    intro i hi
    have hmem := Array.getElem_mem_toList hi
    have hke := hs.hashable _ hmem
    rw [← keyOf_eq_iff_equal (hke.keep hkeep) (hk.keep hkeep) ((hp _ hmem).of_tuples hnew)
      (pk.of_tuples hnew), keyOf_keep hkeep hke, keyOf_keep hkeep hk, hkk]
  rw [contains_newList, contains_dict hd, hkk]
  change Except.ok _ = Except.ok _
  rw [Except.ok.injEq, Bool.eq_iff_iff, find?_isSome_iff hs, Array.any_eq_true]
  exact exists_congr fun i => exists_congr fun hi => hequal i hi

end Heap

theorem callNative_list_dict {α : Type} {m : Machine α} {loc : Nat} {d : Dict}
    (hd : m.heap.get? loc = some (.dict d)) (hsize : d.size ≤ maxCollected) :
    m.callNative "list" #[.ref loc] =
      .ok ((m.heap.newList d.keys).1, { m with heap := (m.heap.newList d.keys).2 }) := by
  have he : Machine.elementsOf m.heap "list" #[.ref loc] = .ok d.keys := by
    simp only [Machine.elementsOf]
    rw [Machine.mapError_eq_ok, Heap.unpack_dict hd hsize]
  simp [Machine.callNative, Machine.nativeArity, he]

/-- Dict key identity agrees with `==` on hashable values whose numbers are neither NaN nor
negative zero. Hence, in a sound dict with such keys, looking up such a value gives the value
stored under an equal key, and `key in d` agrees with `key in list(d)`. -/
theorem key_identity_matches_equality {α : Type} (m : Machine α) :
    (∀ a b, m.heap.Hashable a → m.heap.Hashable b → m.heap.PlainNumbers a →
      m.heap.PlainNumbers b → (m.heap.keyOf a = m.heap.keyOf b ↔ m.heap.equal a b = true)) ∧
    ∀ loc d key, m.heap.get? loc = some (.dict d) → d.Sound m.heap → m.heap.PlainKeys d →
      m.heap.Hashable key → m.heap.PlainNumbers key →
      (∀ v, m.heap.index (.ref loc) key = .ok v ↔
        ∃ i, ∃ hi : i < d.keys.size, m.heap.equal key d.keys[i] = true ∧ d.vals[i]? = some v) ∧
      (d.size ≤ maxCollected → ∃ lst m', m.callNative "list" #[.ref loc] = .ok (lst, m') ∧
        m'.heap.contains lst key = m.heap.contains (.ref loc) key) := by
  refine ⟨fun a b ha hb pa pb => Heap.keyOf_eq_iff_equal ha hb pa pb,
    fun loc d key hd hs hp hk pk => ⟨fun v => Heap.index_eq_ok_iff_equal hd hs hp hk pk, ?_⟩⟩
  intro hsize
  exact ⟨_, _, callNative_list_dict hd hsize, Heap.contains_list_keys hd hs hp hk pk⟩

/-- `True` finds the value stored under `1`. -/
theorem key_identity_matches_equality_true_one :
    ({ heap := ⟨#[.dict ⟨#[.num 1], #[.str "one"], [(Heap.numKey 1, 0)]⟩]⟩ } : Machine Unit).heap.index
      (.ref 0) (.bool true) = .ok (.str "one") := by
  have hnum : Heap.Hashable ⟨#[.dict ⟨#[.num 1], #[.str "one"], [(Heap.numKey 1, 0)]⟩]⟩ (.num 1) :=
    ⟨1, .leaf 0 (by simp)⟩
  -- the dict is the one storing `"one"` under `1` makes
  have hsound : Dict.Sound ⟨#[.dict ⟨#[.num 1], #[.str "one"], [(Heap.numKey 1, 0)]⟩]⟩
      ⟨#[.num 1], #[.str "one"], [(Heap.numKey 1, 0)]⟩ :=
    (Dict.Sound.empty.insert hnum rfl : Dict.Sound _
      (({} : Dict).insert (Heap.numKey 1) (.num 1) (.str "one")))
  have hplain : PlainDouble 1 := ⟨by decide, by decide⟩
  exact (((key_identity_matches_equality _).2 0 _ (.bool true) rfl hsound
    (by simpa [Heap.PlainKeys] using Heap.PlainNumbers.num hplain) ⟨1, .leaf 0 (by simp)⟩
    (Heap.PlainNumbers.of_leaf (by simp) (by simp))).1 _).2
    ⟨0, by decide, by decide, rfl⟩

end ScriptMachine
