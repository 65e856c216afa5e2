import ScriptMachine.Proofs.Value.Keys
/-!
# Dicts keep their representation invariant

A dict is its keys and its values in insertion order, and an index from hash keys to positions.
Its invariant in a heap (`Dict.Sound`): keys and values in step, every key hashable, and an index
with one entry per key, no hash key twice, that finds a hash key at a position exactly when the
key there has it. Then no two keys share a hash key (`Sound.eq_of_keyOf_eq`), and a lookup finds
the value at the position of the key with the hash key looked up (`Sound.get?_eq_some_iff`).
-/

namespace ScriptMachine

namespace Dict

variable {d : Dict} {h h' : Heap} {k : Key} {i : Nat}

theorem find?_eq_none_iff : d.find? k = none ↔ k ∉ d.index.map (·.1) := by
  rw [find?, List.lookup_eq_none_iff, List.mem_map]
  constructor
  · rintro hnone ⟨p, hp, rfl⟩
    exact absurd rfl (bne_iff_ne.1 (hnone p hp))
  · intro hout p hp
    exact bne_iff_ne.2 fun he => hout ⟨p, hp, he.symm⟩

/-! ## The invariant -/

/-- The representation invariant of a dict in a heap: keys and values in step, every key
hashable, and an index with one entry per key, no hash key twice, that finds a hash key at a
position exactly when the key there has it. -/
structure Sound (h : Heap) (d : Dict) : Prop where
  sizes : d.vals.size = d.keys.size
  hashable : ∀ key ∈ d.keys.toList, h.Hashable key
  indexSize : d.index.length = d.keys.size
  indexKeys : (d.index.map (·.1)).Nodup
  indexed : ∀ k i, d.find? k = some i ↔ ∃ hi : i < d.keys.size, h.keyOf d.keys[i] = .ok k

theorem Sound.empty : Sound h {} :=
  ⟨rfl, by simp, rfl, by simp, fun k i => by simp [find?]⟩

theorem Sound.find?_key (hs : d.Sound h) (hi : i < d.keys.size) :
    ∃ k, h.keyOf d.keys[i] = .ok k ∧ d.find? k = some i := by
  obtain ⟨k, hk⟩ := Heap.keyOf_hashable (hs.hashable _ (Array.getElem_mem_toList hi))
  exact ⟨k, hk, (hs.indexed k i).2 ⟨hi, hk⟩⟩

theorem Sound.eq_of_keyOf_eq (hs : d.Sound h) {j : Nat} (hi : i < d.keys.size)
    (hj : j < d.keys.size) (he : h.keyOf d.keys[i] = h.keyOf d.keys[j]) : i = j := by
  obtain ⟨k, hk, hfind⟩ := hs.find?_key hi
  have hfind' := (hs.indexed k j).2 ⟨hj, he ▸ hk⟩
  exact Option.some.inj (hfind.symm.trans hfind')

/-- A lookup finds the value at the position of the key with the hash key looked up. -/
theorem Sound.get?_eq_some_iff (hs : d.Sound h) {v : Value} :
    d.get? k = some v ↔
      ∃ i, ∃ hi : i < d.keys.size, h.keyOf d.keys[i] = .ok k ∧ d.vals[i]? = some v := by
  simp only [get?, Option.bind_eq_some_iff]
  constructor
  · rintro ⟨i, hfind, hv⟩
    obtain ⟨hi, hk⟩ := (hs.indexed k i).1 hfind
    exact ⟨i, hi, hk, hv⟩
  · rintro ⟨i, hi, hk, hv⟩
    exact ⟨i, (hs.indexed k i).2 ⟨hi, hk⟩, hv⟩

/-! ## Storing -/

/-- Storing under a hash key already present replaces the value at its position, keeping the key
first given. -/
theorem insert_of_find?_some {key value : Value} (hf : d.find? k = some i) :
    d.insert k key value = { d with vals := d.vals.setIfInBounds i value } := by
  simp only [insert, hf]

/-- Storing under a new hash key appends the key and the value and indexes the key. -/
theorem insert_of_find?_none {key value : Value} (hf : d.find? k = none) :
    d.insert k key value = ⟨d.keys.push key, d.vals.push value, (k, d.keys.size) :: d.index⟩ := by
  simp only [insert, hf]

theorem Sound.indexed_push (hs : d.Sound h) {key : Value} (hk : h.keyOf key = .ok k)
    (hf : d.find? k = none) (k' : Key) (j : Nat) :
    ((k, d.keys.size) :: d.index).lookup k' = some j ↔
      ∃ hj : j < (d.keys.push key).size, h.keyOf (d.keys.push key)[j] = .ok k' := by
  simp only [List.lookup_cons, Array.size_push, Array.getElem_push]
  by_cases hk' : k' = k
  · -- the new hash key: only the appended key has it
    subst hk'
    simp only [beq_self_eq_true, Option.some.injEq]
    constructor
    · rintro rfl
      exact ⟨by omega, by simpa using hk⟩
    · rintro ⟨hj, hj'⟩
      split at hj'
      · rename_i hlt
        have hfound := (hs.indexed k' j).2 ⟨hlt, hj'⟩
        rw [hf] at hfound
        cases hfound
      · omega
  · -- another hash key: not the appended key's
    have hbeq : (k' == k) = false := by simpa using hk'
    simp only [hbeq]
    change d.find? k' = some j ↔ _
    rw [hs.indexed k' j]
    constructor
    · rintro ⟨hj, hj'⟩
      exact ⟨by omega, by rwa [dif_pos hj]⟩
    · rintro ⟨hj, hj'⟩
      split at hj'
      · exact ⟨‹_›, hj'⟩
      · rw [hk] at hj'
        exact absurd (Except.ok.inj hj').symm hk'

/-- Storing a hashable key under its own hash key keeps the invariant. -/
theorem Sound.insert (hs : d.Sound h) {key value : Value} (hv : h.Hashable key)
    (hk : h.keyOf key = .ok k) : (d.insert k key value).Sound h := by
  cases hf : d.find? k with
  | some i =>
    -- only a value changes
    rw [insert_of_find?_some hf]
    exact ⟨by simp [hs.sizes], hs.hashable, hs.indexSize, hs.indexKeys, hs.indexed⟩
  | none =>
    rw [insert_of_find?_none hf]
    refine ⟨by simp [hs.sizes], fun key' hkey' => ?_, by simp [hs.indexSize], ?_,
      hs.indexed_push hk hf⟩
    · rw [Array.toList_push, List.mem_append, List.mem_singleton] at hkey'
      rcases hkey' with hold | rfl
      · exact hs.hashable key' hold
      · exact hv
    · rw [List.map_cons, List.nodup_cons]
      exact ⟨find?_eq_none_iff.1 hf, hs.indexKeys⟩

theorem Sound.keep (hs : d.Sound h) (hk : h.KeepsKeys h') : d.Sound h' := by
  refine ⟨hs.sizes, fun key hkey => (hs.hashable key hkey).keep hk, hs.indexSize, hs.indexKeys,
    fun k i => ?_⟩
  rw [hs.indexed k i]
  refine exists_congr fun hi => ?_
  rw [Heap.keyOf_keep hk (hs.hashable _ (Array.getElem_mem_toList hi))]

end Dict

namespace Heap

variable {h : Heap} {loc : Nat} {d : Dict} {key value : Value}

/-! ## Stores and lookups on a dict -/

theorem setIndex_dict (hd : h.get? loc = some (.dict d)) :
    h.setIndex (.ref loc) key value =
      (h.keyOf key).map fun k => h.set loc (.dict (d.insert k key value)) := by
  simp [setIndex, hd]

theorem index_dict_error {e : Diagnostic} (hd : h.get? loc = some (.dict d))
    (hk : h.keyOf key = .error e) : h.index (.ref loc) key = .error e := by
  simp [index, hd, hk]

theorem index_dict_some {k : Key} {v : Value} (hd : h.get? loc = some (.dict d))
    (hk : h.keyOf key = .ok k) (hv : d.get? k = some v) : h.index (.ref loc) key = .ok v := by
  simp [index, hd, hk, hv]

theorem index_dict_none {k : Key} (hd : h.get? loc = some (.dict d)) (hk : h.keyOf key = .ok k)
    (hv : d.get? k = none) :
    h.index (.ref loc) key = .error (runtimeError .noKey [.text (h.repr key)]) := by
  simp [index, hd, hk, hv]

theorem newDict_eq (pairs : List (Value × Value)) :
    h.newDict pairs = (pairs.foldlM (fun (d : Dict) (kv : Value × Value) =>
      (h.keyOf kv.1).map fun k => d.insert k kv.1 kv.2) {}).map fun d => h.alloc (.dict d) := by
  simp only [newDict]
  cases pairs.foldlM (fun (d : Dict) (kv : Value × Value) =>
    (h.keyOf kv.1).map fun k => d.insert k kv.1 kv.2) {} <;> rfl

theorem index_sound (hd : h.get? loc = some (.dict d)) (hs : d.Sound h) {k : Key}
    (hk : h.keyOf key = .ok k) {v : Value} :
    h.index (.ref loc) key = .ok v ↔
      ∃ i, ∃ hi : i < d.keys.size, h.keyOf d.keys[i] = h.keyOf key ∧ d.vals[i]? = some v := by
  rw [hk]
  cases hv : d.get? k with
  | none =>
    rw [index_dict_none hd hk hv]
    simp only [reduceCtorEq, false_iff, not_exists, not_and]
    intro i hi he hvi
    have hfound := hs.get?_eq_some_iff.2 ⟨i, hi, he, hvi⟩
    rw [hv] at hfound
    cases hfound
  | some w =>
    rw [index_dict_some hd hk hv, Except.ok.injEq]
    obtain ⟨j, hj, hjk, hjv⟩ := hs.get?_eq_some_iff.1 hv
    constructor
    · rintro rfl
      exact ⟨j, hj, hjk, hjv⟩
    · rintro ⟨i, hi, hik, hiv⟩
      obtain rfl := hs.eq_of_keyOf_eq hi hj (hik.trans hjk.symm)
      rw [hjv] at hiv
      exact Option.some.inj hiv

theorem index_missing (hd : h.get? loc = some (.dict d)) (hs : d.Sound h) {k : Key}
    (hk : h.keyOf key = .ok k)
    (hnone : ∀ i (hi : i < d.keys.size), h.keyOf d.keys[i] ≠ h.keyOf key) :
    h.index (.ref loc) key = .error (runtimeError .noKey [.text (h.repr key)]) := by
  refine index_dict_none hd hk (Option.eq_none_iff_forall_ne_some.2 fun v hv => ?_)
  obtain ⟨i, hi, hik, -⟩ := hs.get?_eq_some_iff.1 hv
  exact hnone i hi (by rw [hik, hk])

theorem setIndex_present (hd : h.get? loc = some (.dict d)) {k : Key} {i : Nat}
    (hk : h.keyOf key = .ok k) (hf : d.find? k = some i) :
    h.setIndex (.ref loc) key value =
      .ok (h.set loc (.dict { d with vals := d.vals.setIfInBounds i value })) := by
  rw [setIndex_dict hd, hk, ← Dict.insert_of_find?_some hf]
  rfl

theorem setIndex_new (hd : h.get? loc = some (.dict d)) {k : Key} (hk : h.keyOf key = .ok k)
    (hf : d.find? k = none) :
    h.setIndex (.ref loc) key value =
      .ok (h.set loc (.dict ⟨d.keys.push key, d.vals.push value, (k, d.keys.size) :: d.index⟩)) := by
  rw [setIndex_dict hd, hk, ← Dict.insert_of_find?_none hf]
  rfl

theorem unhashable_refused (hd : h.get? loc = some (.dict d)) {e : Diagnostic}
    (hk : h.keyOf key = .error e) :
    (∃ w, e = runtimeError .unhashable [.text (h.typeName w)]) ∧
      h.setIndex (.ref loc) key value = .error e ∧ h.index (.ref loc) key = .error e :=
  ⟨keyWith_error hk, by rw [setIndex_dict hd, hk]; rfl, index_dict_error hd hk⟩

/-! ## Every dict of the heap is sound -/

def DictsSound (h : Heap) : Prop := ∀ loc d, h.get? loc = some (.dict d) → d.Sound h

theorem get?_set_self {o : Obj} (hlt : loc < h.objects.size) : (h.set loc o).get? loc = some o := by
  simp [get?, Heap.set, hlt]

theorem get?_set_ne {o : Obj} {l : Nat} (hne : loc ≠ l) : (h.set loc o).get? l = h.get? l := by
  simp only [get?, Heap.set, Array.set!_eq_setIfInBounds, Array.getElem?_setIfInBounds, if_neg hne]

theorem lt_of_get? {o : Obj} (ho : h.get? loc = some o) : loc < h.objects.size := by
  simp only [get?] at ho
  exact (Array.getElem?_eq_some_iff.1 ho).1

theorem get?_alloc (o : Obj) {l : Nat} {p : Obj} (hp : (h.alloc o).2.get? l = some p) :
    l = h.objects.size ∧ p = o ∨ h.get? l = some p := by
  simp only [get?, Heap.alloc, Array.getElem?_push] at hp ⊢
  split_ifs at hp with he
  · exact .inl ⟨he, (Option.some.inj hp).symm⟩
  · exact .inr hp

theorem DictsSound.set_dict (hs : h.DictsSound) {d' : Dict}
    (hold : ∀ p, h.get? loc = some p → ∃ q, p = .list q ∨ ∃ d, p = .dict d)
    (hlt : loc < h.objects.size) (hd' : d'.Sound (h.set loc (.dict d'))) :
    (h.set loc (.dict d')).DictsSound := by
  intro l d hl
  by_cases he : loc = l
  · subst he
    rw [get?_set_self hlt] at hl
    cases hl
    exact hd'
  · rw [get?_set_ne he] at hl
    exact (hs l d hl).keep (KeepsKeys.set _ hold)

theorem DictsSound.set_list (hs : h.DictsSound) {xs ys : Array Value}
    (hl : h.get? loc = some (.list xs)) : (h.set loc (.list ys)).DictsSound := by
  intro l d hd
  have hold : ∀ p, h.get? loc = some p → ∃ q, p = .list q ∨ ∃ d, p = .dict d := by
    intro p hp
    rw [hl] at hp
    cases hp
    exact ⟨xs, .inl rfl⟩
  by_cases he : loc = l
  · subst he
    rw [get?_set_self (lt_of_get? hl)] at hd
    cases hd
  · rw [get?_set_ne he] at hd
    exact (hs l d hd).keep (KeepsKeys.set _ hold)

theorem DictsSound.alloc_dict (hs : h.DictsSound) {d' : Dict}
    (hd' : d'.Sound (h.alloc (.dict d')).2) : (h.alloc (.dict d')).2.DictsSound := by
  intro l d hl
  rcases get?_alloc _ hl with ⟨-, he⟩ | hl
  · cases he
    exact hd'
  · exact (hs l d hl).keep (KeepsKeys.alloc _)

/-! ## Operations on dicts -/

end Heap

inductive DictOp where
  /-- A dict display `{k₁: v₁, …}` (`NEWDICT`); `{}` has no pairs. -/
  | display (pairs : List (Value × Value))
  /-- `c[key] = value` on the object at `loc` (`SETELEM`). -/
  | store (loc : Nat) (key value : Value)
  /-- `c[key]` on the object at `loc` (`GETELEM`). -/
  | lookup (loc : Nat) (key : Value)

namespace DictOp

/-- The heap after an operation. A lookup changes nothing, and an operation that fails leaves
the heap as it was. -/
def apply (h : Heap) : DictOp → Heap
  | .display pairs => ((h.newDict pairs).map (·.2)).toOption.getD h
  | .store loc key value => (h.setIndex (.ref loc) key value).toOption.getD h
  | .lookup _ _ => h

end DictOp

def runOps (h : Heap) (ops : List DictOp) : Heap := ops.foldl DictOp.apply h

namespace Heap

variable {h : Heap}

theorem getD_toOption_map_ok {ε α β : Type} (f : α → β) (a : α) (b : β) :
    ((Except.ok a : Except ε α).map f).toOption.getD b = f a := rfl

theorem foldlM_insert_sound (hac : h.Acyclic) :
    ∀ (pairs : List (Value × Value)) {d d' : Dict}, d.Sound h →
      pairs.foldlM (fun (d : Dict) (kv : Value × Value) =>
        (h.keyOf kv.1).map fun k => d.insert k kv.1 kv.2) d = .ok d' → d'.Sound h
  | [], d, d', hs, he => by
    cases he
    exact hs
  | (key, value) :: pairs, d, d', hs, he => by
    rw [List.foldlM_cons] at he
    cases hk : h.keyOf key with
    | error e => rw [hk] at he; cases he
    | ok k =>
      rw [hk] at he
      exact foldlM_insert_sound hac pairs (hs.insert (hashable_of_keyOf hac hk) hk) he

/-- Every operation keeps the tuples acyclic and every dict sound. -/
theorem DictOp.apply_sound (hac : h.Acyclic) (hs : h.DictsSound) (op : DictOp) :
    (op.apply h).Acyclic ∧ (op.apply h).DictsSound := by
  cases op with
  | display pairs =>
    simp only [DictOp.apply]
    rw [newDict_eq]
    cases hf : pairs.foldlM (fun (d : Dict) (kv : Value × Value) =>
        (h.keyOf kv.1).map fun k => d.insert k kv.1 kv.2) {} with
    | error e => exact ⟨hac, hs⟩
    | ok d =>
      have hd := (foldlM_insert_sound hac pairs Dict.Sound.empty hf).keep
        (KeepsKeys.alloc (.dict d))
      refine ⟨hac.of_tuples fun l xs hl => ?_, hs.alloc_dict hd⟩
      rcases get?_alloc _ hl with ⟨-, he⟩ | hl
      · cases he
      · exact hl
  | store loc key value =>
    simp only [DictOp.apply]
    cases ho : h.get? loc with
    | none => simp [setIndex, ho]; exact ⟨hac, hs⟩
    | some o =>
      cases o with
      | dict d =>
        rw [setIndex_dict ho]
        cases hk : h.keyOf key with
        | error e => exact ⟨hac, hs⟩
        | ok k =>
          have hold : ∀ p, h.get? loc = some p → ∃ q, p = .list q ∨ ∃ d, p = .dict d := by
            intro p hp
            rw [ho] at hp
            cases hp
            exact ⟨#[], .inr ⟨d, rfl⟩⟩
          have hins : (d.insert k key value).Sound h :=
            (hs loc d ho).insert (hashable_of_keyOf hac hk) hk
          have hd := hins.keep (KeepsKeys.set (.dict (d.insert k key value)) hold)
          rw [getD_toOption_map_ok]
          refine ⟨hac.of_tuples fun l xs hl => ?_, hs.set_dict hold (lt_of_get? ho) hd⟩
          by_cases he : loc = l
          · subst he
            rw [get?_set_self (lt_of_get? ho)] at hl
            cases hl
          · rwa [get?_set_ne he] at hl
      | list xs =>
        simp only [setIndex, ho]
        cases hp : h.position (.ref loc) key xs.size with
        | error e => exact ⟨hac, hs⟩
        | ok i =>
          rw [getD_toOption_map_ok]
          refine ⟨hac.of_tuples fun l ys hl => ?_, hs.set_list ho⟩
          by_cases he : loc = l
          · subst he
            rw [get?_set_self (lt_of_get? ho)] at hl
            cases hl
          · rwa [get?_set_ne he] at hl
      | tuple xs => simp [setIndex, ho]; exact ⟨hac, hs⟩
      | closure c => simp [setIndex, ho]; exact ⟨hac, hs⟩
  | lookup loc key => exact ⟨hac, hs⟩

/-- Every sequence of operations keeps the tuples acyclic and every dict sound. -/
theorem runOps_sound (hac : h.Acyclic) (hs : h.DictsSound) (ops : List DictOp) :
    (runOps h ops).Acyclic ∧ (runOps h ops).DictsSound := by
  induction ops generalizing h with
  | nil => exact ⟨hac, hs⟩
  | cons op ops ih =>
    obtain ⟨hac', hs'⟩ := DictOp.apply_sound hac hs op
    exact ih hac' hs'

end Heap

/-- How the dict at `loc` of a heap behaves: keys, values and index of one size, the index
holding no hash key twice and giving the hash key of each key that key's position, the keys'
hash keys distinct; a lookup of a hashable key finds the value at the position of the key with
the same hash key, or reports the key missing; a store under a present key replaces the value
at its position, keeping the key first given, and under a new key appends key and value and
indexes the key; an unhashable key fails both as unhashable, changing nothing. -/
structure Dict.Behaves (h : Heap) (loc : Nat) (d : Dict) : Prop where
  sizes : d.vals.size = d.keys.size ∧ d.index.length = d.keys.size
  indexKeys : (d.index.map (·.1)).Nodup
  indexed : ∀ i (hi : i < d.keys.size), ∃ k, h.keyOf d.keys[i] = .ok k ∧ d.find? k = some i
  distinct : ∀ i j (hi : i < d.keys.size) (hj : j < d.keys.size),
    h.keyOf d.keys[i] = h.keyOf d.keys[j] → i = j
  lookup : ∀ key k v, h.keyOf key = .ok k →
    (h.index (.ref loc) key = .ok v ↔
      ∃ i, ∃ hi : i < d.keys.size, h.keyOf d.keys[i] = h.keyOf key ∧ d.vals[i]? = some v)
  missing : ∀ key k, h.keyOf key = .ok k →
    (∀ i (hi : i < d.keys.size), h.keyOf d.keys[i] ≠ h.keyOf key) →
    h.index (.ref loc) key = .error (runtimeError .noKey [.text (h.repr key)])
  replace : ∀ key value k i, h.keyOf key = .ok k → d.find? k = some i →
    i < d.vals.size ∧ h.setIndex (.ref loc) key value =
      .ok (h.set loc (.dict { d with vals := d.vals.setIfInBounds i value }))
  append : ∀ key value k, h.keyOf key = .ok k → d.find? k = none →
    h.setIndex (.ref loc) key value =
      .ok (h.set loc (.dict ⟨d.keys.push key, d.vals.push value, (k, d.keys.size) :: d.index⟩))
  unhashable : ∀ key value e, h.keyOf key = .error e →
    (∃ w, e = runtimeError .unhashable [.text (h.typeName w)]) ∧
      h.setIndex (.ref loc) key value = .error e ∧ h.index (.ref loc) key = .error e

theorem Dict.Sound.behaves {h : Heap} {loc : Nat} {d : Dict} (hs : d.Sound h)
    (hd : h.get? loc = some (.dict d)) : d.Behaves h loc where
  sizes := ⟨hs.sizes, hs.indexSize⟩
  indexKeys := hs.indexKeys
  indexed := fun _ hi => hs.find?_key hi
  distinct := fun _ _ hi hj he => hs.eq_of_keyOf_eq hi hj he
  lookup := fun _ _ _ hk => Heap.index_sound hd hs hk
  missing := fun _ _ hk hnone => Heap.index_missing hd hs hk hnone
  replace := fun _ _ k i hk hf =>
    ⟨hs.sizes ▸ ((hs.indexed k i).1 hf).1, Heap.setIndex_present hd hk hf⟩
  append := fun _ _ _ hk hf => Heap.setIndex_new hd hk hf
  unhashable := fun _ _ _ hk => Heap.unhashable_refused hd hk

/-- Through any sequence of dict displays, stores and lookups from a heap whose dicts are sound
and whose tuples form no cycle, every dict of the heap behaves as an insertion-ordered map. -/
theorem dict_representation_invariant {h : Heap} (hac : h.Acyclic) (hs : h.DictsSound)
    (ops : List DictOp) {loc : Nat} {d : Dict} (hd : (runOps h ops).get? loc = some (.dict d)) :
    d.Behaves (runOps h ops) loc :=
  ((Heap.runOps_sound hac hs ops).2 loc d hd).behaves hd

/-- A display of one text key, then a store under the same key: the dict keeps one key, whose
value the store replaced, and behaves as an insertion-ordered map. -/
theorem dict_representation_invariant_display_store :
    (⟨#[]⟩ : Heap).Acyclic ∧ (⟨#[]⟩ : Heap).DictsSound ∧
      (runOps ⟨#[]⟩ [.display [(.str "k", .none)], .store 0 (.str "k") (.str "v")]).get? 0 =
        some (.dict ⟨#[.str "k"], #[.str "v"], [(.str "k", 0)]⟩) ∧
      Dict.Behaves (runOps ⟨#[]⟩ [.display [(.str "k", .none)], .store 0 (.str "k") (.str "v")]) 0
        ⟨#[.str "k"], #[.str "v"], [(.str "k", 0)]⟩ := by
  have hac : (⟨#[]⟩ : Heap).Acyclic := by
    rintro v hc
    obtain ⟨_, -, loc, xs, -, hxs, -⟩ := Relation.TransGen.tail'_iff.1 hc
    simp [Heap.get?] at hxs
  have hs : (⟨#[]⟩ : Heap).DictsSound := fun loc d hd => by simp [Heap.get?] at hd
  have hd : (runOps ⟨#[]⟩ [.display [(.str "k", .none)], .store 0 (.str "k") (.str "v")]).get? 0 =
      some (.dict ⟨#[.str "k"], #[.str "v"], [(.str "k", 0)]⟩) := by
    simp [runOps, DictOp.apply, Heap.newDict, Heap.setIndex, Heap.keyOf, Heap.keyWith, Dict.insert,
      Dict.find?, Heap.alloc, Heap.get?, Heap.set, Heap.depth, Except.map, Except.toOption]
  exact ⟨hac, hs, hd, dict_representation_invariant hac hs _ hd⟩

end ScriptMachine
