import ScriptMachine.Wire.Chunk
/-!
# What any image decodes to

`unmarshal` reads bytes from anywhere: a file, a store, a caller, and through any codec. Whatever
they are, a chunk tree it returns is sound all the way down: every chunk in it, nested ones included, passes
`Chunk.validate` and carries a version no newer than `supportedVersion`
(`unmarshal_ok_every`). Validation is run on the root only, but it looks into every nested
chunk (`Chunk.validate_protos`), and the version check is made at every level as the tree is
read (`readChunk_versions`).
-/

namespace ScriptMachine

namespace Bytecode.Chunk

/-- `P` holds of a chunk and of every chunk nested in it, at any depth. -/
inductive Every (P : Chunk → Prop) : Chunk → Prop
  | node {c : Chunk} : P c → (∀ p ∈ c.protos, Every P p) → Every P c

theorem Every.and {P Q : Chunk → Prop} {c : Chunk} (hp : c.Every P) (hq : c.Every Q) :
    c.Every fun p => P p ∧ Q p := by
  induction hp with
  | node hc _ ih =>
    cases hq with
    | node hc' hq' => exact .node ⟨hc, hc'⟩ fun p hp => ih p hp (hq' p hp)

theorem Every.of_closed {P : Chunk → Prop} (hP : ∀ c, P c → ∀ p ∈ c.protos, P p) (c : Chunk)
    (hc : P c) : c.Every P :=
  .node hc fun p hp => Every.of_closed hP p (hP c hc p hp)
termination_by c
decreasing_by
  have := Array.sizeOf_lt_of_mem hp
  cases c
  simp_all
  omega

/-- Validation of a chunk includes the validation of each chunk nested in it. -/
theorem validate_protos {c : Chunk} (h : c.validate = none) : ∀ p ∈ c.protos, p.validate = none := by
  intro p hp
  rw [validate_eq] at h
  -- past the size and register checks, the chunk's own code and then its nested chunks
  split at h
  · cases h
  split at h
  · cases h
  rw [Option.or_eq_none_iff] at h
  exact List.findSome?_eq_none_iff.mp h.2 p (Array.mem_toList_iff.mpr hp)

theorem every_validate {c : Chunk} (h : c.validate = none) : c.Every fun p => p.validate = none :=
  Every.of_closed (fun _ hc => validate_protos hc) c h

end Bytecode.Chunk

namespace Wire

open Bytecode

/-! ## Maps that succeed -/

theorem exists_of_mapM_eq_some {α β : Type} {f : α → Option β} :
    ∀ {l : List α} {l' : List β}, l.mapM f = some l' → ∀ b ∈ l', ∃ a ∈ l, f a = some b
  | [], l', h => by
    cases h
    simp
  | a :: l, l', h => by
    rw [List.mapM_cons] at h
    obtain ⟨b, hb, h⟩ := Option.bind_eq_some_iff.1 h
    obtain ⟨bs, hbs, h⟩ := Option.bind_eq_some_iff.1 h
    cases h
    intro x hx
    rcases List.mem_cons.1 hx with rfl | hx
    · exact ⟨a, List.mem_cons_self, hb⟩
    · obtain ⟨y, hy, hfy⟩ := exists_of_mapM_eq_some hbs x hx
      exact ⟨y, List.mem_cons_of_mem a hy, hfy⟩

theorem exists_of_mapM_eq_ok {ε α β : Type} {f : α → Except ε β} :
    ∀ {l : List α} {l' : List β}, l.mapM f = .ok l' → ∀ b ∈ l', ∃ a ∈ l, f a = .ok b
  | [], l', h => by
    cases h
    simp
  | a :: l, l', h => by
    rw [List.mapM_cons] at h
    cases hb : f a with
    | error e =>
      rw [hb] at h
      cases h
    | ok b =>
      cases hl : l.mapM f with
      | error e =>
        rw [hb, hl] at h
        cases h
      | ok bs =>
        rw [hb, hl] at h
        cases h
        intro x hx
        rcases List.mem_cons.1 hx with rfl | hx
        · exact ⟨a, List.mem_cons_self, hb⟩
        · obtain ⟨y, hy, hfy⟩ := exists_of_mapM_eq_ok hl x hx
          exact ⟨y, List.mem_cons_of_mem a hy, hfy⟩

theorem exists_of_mapM_eq_error {ε α β : Type} {f : α → Except ε β} :
    ∀ {l : List α} {e : ε}, l.mapM f = .error e → ∃ a ∈ l, f a = .error e
  | [], e, h => by cases h
  | a :: l, e, h => by
    rw [List.mapM_cons] at h
    cases hb : f a with
    | error e' =>
      rw [hb] at h
      cases h
      exact ⟨a, List.mem_cons_self, hb⟩
    | ok b =>
      cases hl : l.mapM f with
      | error e' =>
        rw [hb, hl] at h
        cases h
        obtain ⟨y, hy, hfy⟩ := exists_of_mapM_eq_error hl
        exact ⟨y, List.mem_cons_of_mem a hy, hfy⟩
      | ok bs =>
        rw [hb, hl] at h
        cases h

theorem exists_of_array_mapM_eq_error {ε α β : Type} {f : α → Except ε β} {xs : Array α} {e : ε}
    (h : xs.mapM f = .error e) : ∃ a ∈ xs, f a = .error e := by
  rw [Array.mapM_eq_mapM_toList] at h
  cases hl : xs.toList.mapM f with
  | error e' =>
    rw [hl] at h
    cases h
    obtain ⟨a, ha, hfa⟩ := exists_of_mapM_eq_error hl
    exact ⟨a, Array.mem_toList_iff.1 ha, hfa⟩
  | ok bs =>
    rw [hl] at h
    cases h

/-! ## One level of chunk records -/

/-- The items a chunk record holds where its nested chunks belong. -/
def nestedItems (i : Item) : Option (Array Item) := do
  let fs ← readRecord i
  field fs 9 (readList some) #[]

def readNested (fuel : Nat) (p : Item) : Option (Except ImageError Chunk) :=
  if p.isNil then some (.error .missingChunk) else readChunk fuel p

/-- What reading a chunk record can give once its items fit the layout: the nested chunk items
read one level down, then the version check, the constant kinds and the nested chunks in that
order, and last the chunk built from the fields, with the version and nested chunks read. -/
theorem readChunk_succ {fuel : Nat} {i : Item} {r : Except ImageError Chunk}
    (h : readChunk (fuel + 1) i = some r) :
    ∃ (items : Array Item) (protos : List (Except ImageError Chunk)) (version : Nat)
      (ks : Array (Nat × Float × String)) (mk : Array Value → List Chunk → Chunk),
      r = (if version > supportedVersion then .error (.newer version) else do
        let vs ← ks.mapM constantValue
        let ps ← protos.mapM id
        pure (mk vs ps)) ∧
      nestedItems i = some items ∧ items.toList.mapM (readNested fuel) = some protos ∧
      ∀ vs ps, (mk vs ps).version = version ∧ (mk vs ps).protos = ps.toArray := by
  rw [readChunk] at h
  obtain ⟨fs, hfs, h⟩ := Option.bind_eq_some_iff.1 h
  obtain ⟨items, hitems, h⟩ := Option.bind_eq_some_iff.1 h
  obtain ⟨protos, hprotos, h⟩ := Option.bind_eq_some_iff.1 h
  -- the other fields go into the chunk built last and take no part in what follows
  obtain ⟨version, -, h⟩ := Option.bind_eq_some_iff.1 h
  obtain ⟨_, -, h⟩ := Option.bind_eq_some_iff.1 h
  obtain ⟨_, -, h⟩ := Option.bind_eq_some_iff.1 h
  obtain ⟨_, -, h⟩ := Option.bind_eq_some_iff.1 h
  obtain ⟨_, -, h⟩ := Option.bind_eq_some_iff.1 h
  obtain ⟨_, -, h⟩ := Option.bind_eq_some_iff.1 h
  obtain ⟨ks, -, h⟩ := Option.bind_eq_some_iff.1 h
  obtain ⟨_, -, h⟩ := Option.bind_eq_some_iff.1 h
  obtain ⟨_, -, h⟩ := Option.bind_eq_some_iff.1 h
  obtain ⟨_, -, h⟩ := Option.bind_eq_some_iff.1 h
  obtain ⟨_, -, h⟩ := Option.bind_eq_some_iff.1 h
  refine ⟨items, protos, version, ks, _, (Option.some.inj h).symm, ?_, hprotos,
    fun _ _ => ⟨rfl, rfl⟩⟩
  simp only [nestedItems, hfs, Option.bind_eq_bind, Option.bind_some, hitems]

theorem constantValue_error {k : Nat × Float × String} {e : ImageError}
    (h : constantValue k = .error e) : ∃ n, e = .unknownConstant n := by
  unfold constantValue at h
  split at h <;> cases h
  exact ⟨_, rfl⟩

/-! ## Whole trees -/

/-- A chunk read from a record has a version no newer than the newest supported, and so has
every chunk nested in it. -/
theorem readChunk_versions : ∀ {fuel : Nat} {i : Item} {c : Chunk},
    readChunk fuel i = some (.ok c) → c.Every fun p => p.version ≤ supportedVersion
  | 0, _, _, h => by cases h
  | fuel + 1, i, c, h => by
    obtain ⟨items, protos, version, ks, mk, hr, -, hprotos, hmk⟩ := readChunk_succ h
    split at hr
    · cases hr
    · rename_i hv
      cases hvs : ks.mapM constantValue with
      | error e =>
        rw [hvs] at hr
        cases hr
      | ok vs =>
        cases hps : protos.mapM id with
        | error e =>
          rw [hvs, hps] at hr
          cases hr
        | ok ps =>
          rw [hvs, hps] at hr
          cases hr
          obtain ⟨hver, hnested⟩ := hmk vs ps
          refine .node (by omega) fun p hp => ?_
          rw [hnested, List.mem_toArray] at hp
          -- the nested chunk was read from an item one level down, which is no bare null
          obtain ⟨r, hr, hrp⟩ := exists_of_mapM_eq_ok hps p hp
          obtain ⟨q, -, hq⟩ := exists_of_mapM_eq_some hprotos r hr
          have hr' : r = .ok p := hrp
          subst hr'
          unfold readNested at hq
          split at hq
          · cases hq
          · exact readChunk_versions hq

/-- A chunk record that holds, at some depth, a bare null where a nested chunk belongs. -/
inductive Item.NestsNull : Item → Prop
  | null {i p : Item} {items : Array Item} :
      nestedItems i = some items → p ∈ items → p.isNil = true → Item.NestsNull i
  | nested {i p : Item} {items : Array Item} :
      nestedItems i = some items → p ∈ items → Item.NestsNull p → Item.NestsNull i

theorem readChunk_missingChunk : ∀ {fuel : Nat} {i : Item},
    readChunk fuel i = some (.error .missingChunk) → i.NestsNull
  | 0, _, h => by cases h
  | fuel + 1, i, h => by
    obtain ⟨items, protos, version, ks, mk, hr, hitems, hprotos, -⟩ := readChunk_succ h
    split at hr
    · cases hr
    · cases hvs : ks.mapM constantValue with
      | error e =>
        -- a constant of unknown kind fails with its own error
        rw [hvs] at hr
        cases hr
        obtain ⟨k, -, hk⟩ := exists_of_array_mapM_eq_error hvs
        obtain ⟨n, hn⟩ := constantValue_error hk
        cases hn
      | ok vs =>
        cases hps : protos.mapM id with
        | ok ps =>
          rw [hvs, hps] at hr
          cases hr
        | error e =>
          rw [hvs, hps] at hr
          cases hr
          obtain ⟨r, hr, hre⟩ := exists_of_mapM_eq_error hps
          obtain ⟨q, hq, hread⟩ := exists_of_mapM_eq_some hprotos r hr
          have hr' : r = .error .missingChunk := hre
          subst hr'
          have hmem : q ∈ items := Array.mem_toList_iff.1 hq
          unfold readNested at hread
          split at hread
          · exact .null hitems hmem ‹_›
          · exact .nested hitems hmem (readChunk_missingChunk hread)

/-- A chunk tree decoded from any bytes passes validation at every level and has no version
newer than the newest supported at any level. -/
theorem unmarshal_ok_every {cbor : Codec} {bytes : List UInt8} {c : Chunk}
    (h : unmarshal cbor bytes = .ok c) :
    c.Every fun p => p.validate = none ∧ p.version ≤ supportedVersion := by
  unfold unmarshal at h
  split at h
  · cases h
  split at h
  · cases h
  · cases h
  · rename_i c' hread
    split at h
    · cases h
    · rename_i hvalid
      cases h
      obtain ⟨root, -, hroot⟩ := Option.bind_eq_some_iff.1 hread
      exact (Chunk.every_validate hvalid).and (readChunk_versions hroot)

/-- Decoding fails with a nil dereference only when the image holds a bare null where a nested
chunk belongs. -/
theorem unmarshal_missingChunk {cbor : Codec} {bytes : List UInt8}
    (h : unmarshal cbor bytes = .error .missingChunk) :
    ∃ root, cbor.decode (bytes.drop 4) = some root ∧ root.NestsNull := by
  unfold unmarshal at h
  split at h
  · cases h
  split at h
  · cases h
  · rename_i e hread
    cases h
    obtain ⟨root, hroot, hread⟩ := Option.bind_eq_some_iff.1 hread
    exact ⟨root, hroot, readChunk_missingChunk hread⟩
  · split at h <;> cases h

/-- Decoding any bytes through any codec either gives a chunk tree that, at every level, passes
validation and has no version newer than the newest supported, or fails with an error; the one
failure that is no error of the decoder's own making, the nil dereference of a missing chunk,
happens only where the items the codec reads hold a bare null in place of a nested chunk. -/
theorem unmarshal_valid_or_fails (cbor : Codec) (bytes : List UInt8) :
    (∃ c, unmarshal cbor bytes = .ok c ∧
      c.Every fun p => p.validate = none ∧ p.version ≤ supportedVersion) ∨
    (∃ e, unmarshal cbor bytes = .error e ∧
      (e ≠ .missingChunk ∨ ∃ root, cbor.decode (bytes.drop 4) = some root ∧ root.NestsNull)) := by
  cases h : unmarshal cbor bytes with
  | ok c => exact .inl ⟨c, rfl, unmarshal_ok_every h⟩
  | error e =>
    refine .inr ⟨e, rfl, ?_⟩
    by_cases he : e = .missingChunk
    · subst he
      exact .inr (unmarshal_missingChunk h)
    · exact .inl he

end Wire

end ScriptMachine
