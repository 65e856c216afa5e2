import Mathlib
import ScriptMachine.Value.Access
import ScriptMachine.Proofs.Wire.Images
/-!
# Dict keys

Keys are compared field by field (`Key.beq_iff_eq`), so `==` on keys is equality. A hashable
value (`Heap.Hashable`) has a key (`keyOf_hashable`), computed alike with any fuel beyond its
depth (`keyWith_stable`) and kept when the heap grows or a list or dict is replaced
(`keyOf_keep`); a value without a key is refused as unhashable (`keyWith_error`).
-/

namespace ScriptMachine

/-! ## Keys are equal field by field -/

mutual

theorem Key.beq_iff_eq : ∀ a b : Key, Key.beq a b = true ↔ a = b
  | .none, b => by cases b <;> simp [Key.beq]
  | .num x, b => by cases b <;> simp [Key.beq]
  | .str x, b => by cases b <;> simp [Key.beq]
  | .tuple xs, b => by cases b <;> simp [Key.beq, Key.beqAll_iff_eq xs]
  | .range x, b => by cases b <;> simp [Key.beq]
  | .builtin x, b => by cases b <;> simp [Key.beq]
  | .closure x, b => by cases b <;> simp [Key.beq]

theorem Key.beqAll_iff_eq : ∀ as bs : List Key, Key.beqAll as bs = true ↔ as = bs
  | [], bs => by cases bs <;> simp [Key.beqAll]
  | a :: as, bs => by
    cases bs with
    | nil => simp [Key.beqAll]
    | cons b bs => simp [Key.beqAll, Key.beq_iff_eq a b, Key.beqAll_iff_eq as bs]

end

instance : LawfulBEq Key where
  eq_of_beq h := (Key.beq_iff_eq _ _).1 h
  rfl := (Key.beq_iff_eq _ _).2 rfl

theorem exists_of_mapM_eq_error {ε α β : Type} {f : α → Except ε β} {e : ε} :
    ∀ {l : List α}, l.mapM f = .error e → ∃ x ∈ l, f x = .error e
  | [], he => by cases he
  | x :: l, he => by
    rw [List.mapM_cons] at he
    cases hx : f x with
    | error t =>
      rw [hx] at he
      cases he
      exact ⟨x, List.mem_cons_self, hx⟩
    | ok y =>
      cases hl : l.mapM f with
      | error t =>
        rw [hx, hl] at he
        cases he
        obtain ⟨z, hz, hfz⟩ := exists_of_mapM_eq_error hl
        exact ⟨z, List.mem_cons_of_mem x hz, hfz⟩
      | ok ys =>
        rw [hx, hl] at he
        cases he

theorem ok_of_mapM_eq_ok {ε α β : Type} {f : α → Except ε β} :
    ∀ {l : List α} {l' : List β}, l.mapM f = .ok l' → ∀ x ∈ l, ∃ y, f x = .ok y
  | [], _, _ => by simp
  | x :: l, l', he => by
    rw [List.mapM_cons] at he
    cases hx : f x with
    | error t => rw [hx] at he; cases he
    | ok y =>
      cases hl : l.mapM f with
      | error t => rw [hx, hl] at he; cases he
      | ok ys =>
        intro z hz
        rcases List.mem_cons.1 hz with rfl | hz
        · exact ⟨y, hx⟩
        · exact ok_of_mapM_eq_ok hl z hz

namespace Heap

open Relation

/-! ## Hashable values -/

def Inside (h : Heap) (v w : Value) : Prop :=
  ∃ loc xs, w = .ref loc ∧ h.get? loc = some (.tuple xs) ∧ v ∈ xs.toList

/-- `v` is hashable, with tuples nested fewer than `n` deep. -/
inductive Within (h : Heap) : Nat → Value → Prop
  /-- Nothing, a truth value, a number, a text, a progression or a built-in function. -/
  | leaf {v : Value} (n : Nat) (hv : ∀ loc, v ≠ .ref loc) : Within h (n + 1) v
  | closure {loc : Nat} {c : Closure} (n : Nat) (hc : h.get? loc = some (.closure c)) :
      Within h (n + 1) (.ref loc)
  | tuple {loc : Nat} {xs : Array Value} (n : Nat) (ht : h.get? loc = some (.tuple xs))
      (hxs : ∀ x ∈ xs.toList, Within h n x) : Within h (n + 1) (.ref loc)

/-- A value usable as a dict key: a tuple of hashable values nested to any finite depth, or a
value that is no list, dict or tuple. -/
def Hashable (h : Heap) (v : Value) : Prop := ∃ n, h.Within n v

variable {h h' : Heap} {n m : Nat} {v w : Value}

theorem Within.mono (hw : h.Within n v) (hnm : n ≤ m) : h.Within m v := by
  induction hw generalizing m with
  | leaf n hv =>
    obtain ⟨m, rfl⟩ : ∃ k, m = k + 1 := ⟨m - 1, by omega⟩
    exact .leaf m hv
  | closure n hc =>
    obtain ⟨m, rfl⟩ : ∃ k, m = k + 1 := ⟨m - 1, by omega⟩
    exact .closure m hc
  | tuple n ht _ ih =>
    obtain ⟨m, rfl⟩ : ∃ k, m = k + 1 := ⟨m - 1, by omega⟩
    exact .tuple m ht fun x hx => ih x hx (by omega)

theorem Within.inside (hw : h.Within n v) (hi : h.Inside w v) :
    ∃ m, n = m + 1 ∧ h.Within m w := by
  obtain ⟨loc, xs, rfl, ht, hx⟩ := hi
  cases hw with
  | leaf n hv => exact absurd rfl (hv loc)
  | closure n hc => simp [hc] at ht
  | tuple n ht' hxs =>
    rw [ht'] at ht
    cases ht
    exact ⟨n, rfl, hxs w hx⟩

theorem Within.inside_trans (hw : h.Within n v) (hi : TransGen h.Inside w v) :
    ∃ m < n, h.Within m w := by
  induction hi generalizing n with
  | single hi =>
    obtain ⟨m, rfl, hm⟩ := hw.inside hi
    exact ⟨m, by omega, hm⟩
  | tail _ hi ih =>
    obtain ⟨k, rfl, hk⟩ := hw.inside hi
    obtain ⟨m, hmk, hm⟩ := ih hk
    exact ⟨m, by omega, hm⟩

theorem Within.acyclic (hw : h.Within n v) : ¬ TransGen h.Inside v v := by
  induction n using Nat.strong_induction_on generalizing v with
  | _ n ih =>
    intro hc
    obtain ⟨m, hmn, hm⟩ := hw.inside_trans hc
    exact ih m hmn hm hc

/-! ## Chains of tuples are no longer than the heap -/

/-- `path` lists distinct locations of the heap, of tuples each of which `v` lies inside. -/
structure Above (h : Heap) (v : Value) (path : List Nat) : Prop where
  nodup : path.Nodup
  lt : ∀ l ∈ path, l < h.objects.size
  inside : ∀ l ∈ path, TransGen h.Inside v (.ref l)

theorem Above.nil : h.Above v [] := ⟨List.nodup_nil, by simp, by simp⟩

theorem Above.length_le {path : List Nat} (ha : h.Above v path) :
    path.length ≤ h.objects.size := by
  have hsub : path ⊆ List.range h.objects.size := fun l hl => List.mem_range.2 (ha.lt l hl)
  simpa using ha.nodup.length_le_of_subset hsub

theorem Above.cons {path : List Nat} {loc : Nat} {xs : Array Value} {x : Value}
    (ha : h.Above (.ref loc) path) (hfresh : loc ∉ path)
    (ht : h.get? loc = some (.tuple xs)) (hx : x ∈ xs.toList) : h.Above x (loc :: path) := by
  have hloc : loc < h.objects.size := by
    simp only [get?] at ht
    exact (Array.getElem?_eq_some_iff.1 ht).1
  have hin : h.Inside x (.ref loc) := ⟨loc, xs, rfl, ht, hx⟩
  refine ⟨List.nodup_cons.2 ⟨hfresh, ha.nodup⟩, fun l hl => ?_, fun l hl => ?_⟩
  · rcases List.mem_cons.1 hl with rfl | hl
    · exact hloc
    · exact ha.lt l hl
  · rcases List.mem_cons.1 hl with rfl | hl
    · exact .single hin
    · exact TransGen.head hin (ha.inside l hl)

/-- A hashable value nests at most as deep as the heap is large: below the tuples on `path`, it
nests at most as deep as the locations not on it. -/
theorem Within.lift {path : List Nat} (hw : h.Within n v) (ha : h.Above v path) :
    h.Within (h.objects.size + 1 - path.length) v := by
  have hlen := ha.length_le
  induction hw generalizing path with
  | leaf n hv =>
    rw [show h.objects.size + 1 - path.length = h.objects.size - path.length + 1 by omega]
    exact .leaf _ hv
  | closure n hc =>
    rw [show h.objects.size + 1 - path.length = h.objects.size - path.length + 1 by omega]
    exact .closure _ hc
  | @tuple loc xs n ht hxs ih =>
    -- the tuple is not on the path, as it lies inside none of its own elements
    have hfresh : loc ∉ path := fun hmem => (Within.tuple n ht hxs).acyclic (ha.inside loc hmem)
    rw [show h.objects.size + 1 - path.length = h.objects.size - path.length + 1 by omega]
    refine .tuple _ ht fun x hx => ?_
    have hx' := ha.cons hfresh ht hx
    have key := ih x hx hx' hx'.length_le
    rwa [List.length_cons, show h.objects.size + 1 - (path.length + 1) =
      h.objects.size - path.length by omega] at key

theorem Within.depth (hw : h.Within n v) : h.Within h.depth v :=
  (hw.lift Above.nil).mono (by simp [Heap.depth])

/-! ## Computing keys -/

theorem keyWith_tuple {loc : Nat} {xs : Array Value} (ht : h.get? loc = some (.tuple xs)) :
    h.keyWith (n + 1) (.ref loc) = (xs.toList.mapM (h.keyWith n)).map Key.tuple := by
  simp [keyWith, ht]

theorem keyWith_closure {loc : Nat} {c : Closure} (hc : h.get? loc = some (.closure c)) :
    h.keyWith (n + 1) (.ref loc) = .ok (.closure loc) := by
  simp [keyWith, hc]

theorem keyWith_leaf (hv : ∀ loc, v ≠ .ref loc) :
    h.keyWith (n + 1) v = h'.keyWith (m + 1) v := by
  cases v with
  | ref loc => exact absurd rfl (hv loc)
  | _ => rfl

theorem Within.keyWith_ok (hw : h.Within n v) : ∃ k, h.keyWith n v = .ok k := by
  induction hw with
  | @leaf v n hv => cases v <;> first | exact absurd rfl (hv _) | exact ⟨_, rfl⟩
  | closure n hc => exact ⟨_, keyWith_closure hc⟩
  | tuple n ht _ ih =>
    obtain ⟨ks, hks, -⟩ := Wire.mapM_ok_of_forall (P := fun _ _ => True)
      fun x hx => (ih x hx).imp fun k hk => ⟨hk, trivial⟩
    exact ⟨.tuple ks, by rw [keyWith_tuple ht, hks]; rfl⟩

/-- More fuel than a hashable value's depth computes the same key. -/
theorem keyWith_stable (hw : h.Within n v) (hnm : n ≤ m) : h.keyWith m v = h.keyWith n v := by
  induction hw generalizing m with
  | leaf n hv =>
    obtain ⟨m, rfl⟩ : ∃ k, m = k + 1 := ⟨m - 1, by omega⟩
    exact keyWith_leaf hv
  | closure n hc =>
    obtain ⟨m, rfl⟩ : ∃ k, m = k + 1 := ⟨m - 1, by omega⟩
    rw [keyWith_closure hc, keyWith_closure hc]
  | tuple n ht _ ih =>
    obtain ⟨m, rfl⟩ : ∃ k, m = k + 1 := ⟨m - 1, by omega⟩
    rw [keyWith_tuple ht, keyWith_tuple ht,
      Wire.mapM_congr_mem fun x hx => ih x hx (by omega)]

theorem keyOf_eq_keyWith (hw : h.Within n v) : h.keyOf v = h.keyWith n v := by
  have hd := hw.depth
  unfold keyOf
  rcases Nat.le_total n h.depth with hle | hle
  · exact keyWith_stable hw hle
  · exact (keyWith_stable hd hle).symm

theorem keyOf_hashable (hv : h.Hashable v) : ∃ k, h.keyOf v = .ok k := by
  obtain ⟨n, hw⟩ := hv
  rw [keyOf_eq_keyWith hw]
  exact hw.keyWith_ok

def Acyclic (h : Heap) : Prop := ∀ v, ¬ TransGen h.Inside v v

theorem within_of_keyWith (hac : h.Acyclic) :
    ∀ {n : Nat} {v : Value} {path : List Nat} {k : Key}, h.keyWith n v = .ok k →
      h.Above v path → h.objects.size + 1 ≤ n + path.length → h.Within n v
  | 0, v, path, k, _, ha, hn => absurd ha.length_le (by omega)
  | n + 1, v, path, k, hk, ha, hn => by
    cases v with
    | ref loc =>
      cases ho : h.get? loc with
      | none => simp [keyWith, ho] at hk
      | some o =>
        cases o with
        | tuple xs =>
          rw [keyWith_tuple ho] at hk
          cases hm : xs.toList.mapM (h.keyWith n) with
          | error t => rw [hm] at hk; cases hk
          | ok ks =>
            have hfresh : loc ∉ path := fun hmem => hac _ (ha.inside loc hmem)
            refine .tuple n ho fun x hx => ?_
            obtain ⟨kx, hkx⟩ := ok_of_mapM_eq_ok hm x hx
            exact within_of_keyWith hac hkx (ha.cons hfresh ho hx)
              (by simp only [List.length_cons]; omega)
        | closure c => exact .closure n ho
        | _ => simp [keyWith, ho] at hk
    | _ => exact .leaf n (by simp)

theorem hashable_of_keyOf (hac : h.Acyclic) {k : Key} (hk : h.keyOf v = .ok k) : h.Hashable v :=
  ⟨_, within_of_keyWith hac hk Above.nil (by simp [Heap.depth])⟩

theorem Acyclic.of_tuples (hac : h.Acyclic)
    (ht : ∀ loc xs, h'.get? loc = some (.tuple xs) → h.get? loc = some (.tuple xs)) :
    h'.Acyclic := by
  have hin : ∀ {v w}, h'.Inside v w → h.Inside v w := by
    rintro v w ⟨loc, xs, rfl, hxs, hv⟩
    exact ⟨loc, xs, rfl, ht loc xs hxs, hv⟩
  intro v hc
  exact hac v (TransGen.mono (fun _ _ => hin) v v hc)

/-- A value without a key is refused as unhashable, naming the type of an element that is no
key. -/
theorem keyWith_error {e : Diagnostic} :
    ∀ {n : Nat} {v : Value}, h.keyWith n v = .error e →
      ∃ w, e = runtimeError .unhashable [.text (h.typeName w)]
  | 0, v, he => by cases he
  | n + 1, v, he => by
    cases v with
    | ref loc =>
      cases ho : h.get? loc with
      | none =>
        simp only [keyWith, ho, Except.error.injEq] at he
        exact ⟨_, he.symm⟩
      | some o =>
        cases o with
        | tuple xs =>
          rw [keyWith_tuple ho] at he
          cases hm : xs.toList.mapM (h.keyWith n) with
          | ok ks => rw [hm] at he; cases he
          | error t =>
            rw [hm] at he
            cases he
            obtain ⟨x, -, hx⟩ := exists_of_mapM_eq_error hm
            exact keyWith_error hx
        | closure c => rw [keyWith_closure ho] at he; cases he
        | _ =>
          simp only [keyWith, ho, Except.error.injEq] at he
          exact ⟨_, he.symm⟩
    | _ => cases he

/-! ## Keys survive changes of other objects -/

/-- Every tuple and function of `h` is still in `h'` at its location. -/
def KeepsKeys (h h' : Heap) : Prop :=
  (∀ loc xs, h.get? loc = some (.tuple xs) → h'.get? loc = some (.tuple xs)) ∧
  ∀ loc c, h.get? loc = some (.closure c) → h'.get? loc = some (.closure c)

theorem Within.keep (hk : h.KeepsKeys h') (hw : h.Within n v) : h'.Within n v := by
  induction hw with
  | leaf n hv => exact .leaf n hv
  | closure n hc => exact .closure n (hk.2 _ _ hc)
  | tuple n ht _ ih => exact .tuple n (hk.1 _ _ ht) ih

theorem keyWith_keep (hk : h.KeepsKeys h') (hw : h.Within n v) :
    h'.keyWith n v = h.keyWith n v := by
  induction hw with
  | leaf n hv => exact keyWith_leaf hv
  | closure n hc => rw [keyWith_closure hc, keyWith_closure (hk.2 _ _ hc)]
  | tuple n ht _ ih =>
    rw [keyWith_tuple ht, keyWith_tuple (hk.1 _ _ ht), Wire.mapM_congr_mem ih]

theorem Hashable.keep (hk : h.KeepsKeys h') (hv : h.Hashable v) : h'.Hashable v :=
  hv.imp fun _ hw => hw.keep hk

theorem keyOf_keep (hk : h.KeepsKeys h') (hv : h.Hashable v) : h'.keyOf v = h.keyOf v := by
  obtain ⟨n, hw⟩ := hv
  rw [keyOf_eq_keyWith hw, keyOf_eq_keyWith (hw.keep hk), keyWith_keep hk hw]

theorem KeepsKeys.alloc (o : Obj) : h.KeepsKeys (h.alloc o).2 := by
  have hget : ∀ {loc p}, h.get? loc = some p → (h.alloc o).2.get? loc = some p := by
    intro loc p hp
    simp only [get?, Heap.alloc] at hp ⊢
    rw [Array.getElem?_push, if_neg (Array.getElem?_eq_some_iff.1 hp).1.ne]
    exact hp
  exact ⟨fun _ _ => hget, fun _ _ => hget⟩

/-- Replacing a list or a dict keeps every tuple and function. -/
theorem KeepsKeys.set {loc : Nat} (o : Obj)
    (hold : ∀ p, h.get? loc = some p → ∃ q, p = .list q ∨ ∃ d, p = .dict d) :
    h.KeepsKeys (h.set loc o) := by
  have hget : ∀ {l p}, h.get? l = some p → (∀ q, p ≠ .list q) → (∀ d, p ≠ .dict d) →
      (h.set loc o).get? l = some p := by
    intro l p hp hl hd
    simp only [get?, Heap.set] at hp ⊢
    rw [Array.set!_eq_setIfInBounds, Array.getElem?_setIfInBounds]
    by_cases he : loc = l
    · subst he
      obtain ⟨q, rfl | ⟨d, rfl⟩⟩ := hold p hp
      · exact absurd rfl (hl q)
      · exact absurd rfl (hd d)
    · rw [if_neg he]
      exact hp
  exact ⟨fun _ _ ht => hget ht (by simp) (by simp), fun _ _ hc => hget hc (by simp) (by simp)⟩

end Heap

end ScriptMachine
