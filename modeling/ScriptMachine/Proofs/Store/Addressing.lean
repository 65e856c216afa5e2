import ScriptMachine.Store.Basic
import Mathlib
/-!
# The chunk store is a content-addressed map

A store keeps a list of entries, but what it answers is a map from hashes to entries
(`ChunkStore.lookup`). Two facts about the list make the map the right view of it (`Sound`): no hash
is stored twice, as the primary key of the table guarantees, and every entry sits under the hash
of its bytes. A new store has both, and every put and delete keeps them.
-/

namespace ScriptMachine.Store

open Bytecode Wire

inductive Write where
  | put (heap : Heap) (c : Chunk) (now : Nat)
  | putEncoded (name : String) (data : List UInt8) (now : Nat)
  | delete (hash : String)

def enter (m : String → Option Entry) (e : Entry) : String → Option Entry :=
  Function.update m e.hash ((m e.hash).or (some e))

/-- What a write does to the map from hashes to entries: a put enters the encoded chunk, or the
bytes, under their hash unless the hash is taken, and a delete removes exactly its hash. A chunk
that cannot be encoded changes nothing. -/
def Write.onMap (m : String → Option Entry) : Write → String → Option Entry
  | .put heap c now =>
    match marshal .canonical heap c with
    | .ok data => enter m ⟨hashOf data, c.name, data, now⟩
    | .error _ => m
  | .putEncoded name data now => enter m ⟨hashOf data, name, data, now⟩
  | .delete h => Function.update m h none

namespace ChunkStore

/-- The store after a write; a chunk that cannot be encoded leaves it as it was. -/
def perform (s : ChunkStore) : Write → ChunkStore
  | .put heap c now =>
    match s.put heap c now with
    | .ok r => r.2
    | .error _ => s
  | .putEncoded name data now => (s.putEncoded name data now).2
  | .delete h => (s.delete h).2

def performAll (s : ChunkStore) (ws : List Write) : ChunkStore := ws.foldl perform s

def lookup (s : ChunkStore) (h : String) : Option Entry := s.entries.find? (·.hash == h)

/-- What the table guarantees of its rows: one entry per hash, each under the hash of its
bytes. -/
structure Sound (s : ChunkStore) : Prop where
  keyed : (s.entries.map Entry.hash).Nodup
  addressed : ∀ e ∈ s.entries, e.hash = hashOf e.data

def Names (s : ChunkStore) (p h : String) : Prop := (s.lookup h).isSome ∧ p.toList <+: h.toList

variable {s : ChunkStore} {h p : String} {e : Entry}

/-! ## Addresses -/

def IsHexDigit (c : Char) : Prop := ('0' ≤ c ∧ c ≤ '9') ∨ ('a' ≤ c ∧ c ≤ 'f')

def IsAddress (h : String) : Prop := h.length = 64 ∧ ∀ c ∈ h.toList, IsHexDigit c

theorem digit_isHexDigit : ∀ n < 16,
    IsHexDigit (if n < 10 then Char.ofNat (48 + n) else Char.ofNat (87 + n)) := by
  unfold IsHexDigit
  decide

theorem hexText_length (bytes : List UInt8) :
    (Digest.hexText bytes).length = 2 * bytes.length := by
  simp [Digest.hexText, List.length_flatMap]
  omega

theorem hexText_digits (bytes : List UInt8) :
    ∀ c ∈ (Digest.hexText bytes).toList, IsHexDigit c := by
  simp only [Digest.hexText, String.toList_ofList, List.mem_flatMap]
  rintro c ⟨b, -, hc⟩
  simp only [List.mem_cons, List.not_mem_nil, or_false] at hc
  -- each byte is written as its high and its low nibble
  rcases hc with rfl | rfl
  · exact digit_isHexDigit _ (by have := b.toNat_lt; omega)
  · exact digit_isHexDigit _ (Nat.mod_lt _ (by omega))

theorem sha256_length (msg : List UInt8) : (Digest.sha256 msg).length = 32 := by
  simp [Digest.sha256, Digest.bytesOf]

theorem hashOf_isAddress (data : List UInt8) : IsAddress (hashOf data) :=
  ⟨by rw [hashOf, Digest.hexDigest, hexText_length, sha256_length], hexText_digits _⟩

/-! ## The map view -/

theorem lookup_isSome_iff : (s.lookup h).isSome ↔ ∃ e ∈ s.entries, e.hash = h := by
  simp [lookup, List.find?_isSome]

theorem lookup_eq_some (he : s.lookup h = some e) : e ∈ s.entries ∧ e.hash = h :=
  ⟨List.mem_of_find?_eq_some he, by simpa using List.find?_some he⟩

theorem lookup_eq_some_iff (hk : (s.entries.map Entry.hash).Nodup) :
    s.lookup h = some e ↔ e ∈ s.entries ∧ e.hash = h := by
  refine ⟨lookup_eq_some, fun ⟨hmem, hh⟩ => ?_⟩
  obtain ⟨e', he'⟩ := Option.isSome_iff_exists.1 (lookup_isSome_iff.2 ⟨e, hmem, hh⟩)
  obtain ⟨hmem', hh'⟩ := lookup_eq_some he'
  -- two entries under one hash are one entry
  rw [he', List.inj_on_of_nodup_map hk hmem' hmem (hh'.trans hh.symm)]

theorem has_eq (s : ChunkStore) (h : String) : s.has h = (s.lookup h).isSome := by
  rw [Bool.eq_iff_iff, lookup_isSome_iff]
  simp [has]

/-! ## Writes through the view -/

theorem putEncoded_fst (s : ChunkStore) (name : String) (data : List UInt8) (now : Nat) :
    (s.putEncoded name data now).1 = hashOf data := by
  unfold putEncoded
  dsimp only
  split <;> rfl

theorem lookup_putEncoded (s : ChunkStore) (name : String) (data : List UInt8) (now : Nat) :
    (s.putEncoded name data now).2.lookup = enter s.lookup ⟨hashOf data, name, data, now⟩ := by
  unfold putEncoded enter
  dsimp only
  split
  · -- the hash is taken: nothing changes, and the map already has an entry there
    rename_i htaken
    obtain ⟨e', he'⟩ := Option.isSome_iff_exists.1
      (lookup_isSome_iff.2 (by simpa using htaken))
    simp only [he', Option.some_or]
    rw [← he', Function.update_eq_self]
  · rename_i hfresh
    have hnone : s.entries.find? (·.hash == hashOf data) = none := by
      simpa [List.find?_eq_none] using hfresh
    funext h'
    simp only [lookup, List.find?_append, Function.update_apply]
    by_cases hh : h' = hashOf data
    · subst hh
      simp [hnone]
    · simp [Ne.symm hh, hh]

theorem delete_fst (s : ChunkStore) (h : String) : (s.delete h).1 = (s.lookup h).isSome :=
  has_eq s h

theorem lookup_delete (s : ChunkStore) (h : String) :
    (s.delete h).2.lookup = Function.update s.lookup h none := by
  funext h'
  simp only [delete, lookup, List.find?_filter, Function.update_apply]
  split
  · -- every entry under the deleted hash is gone
    rename_i hh
    subst hh
    simp [List.find?_eq_none]
  · rename_i hh
    congr 1
    funext e
    by_cases he : e.hash = h'
    · simp [he, hh]
    · simp [he]

theorem lookup_perform (s : ChunkStore) (w : Write) : (s.perform w).lookup = w.onMap s.lookup := by
  cases w with
  | put heap c now =>
    simp only [perform, Write.onMap, ChunkStore.put]
    cases marshal .canonical heap c with
    | ok data => exact lookup_putEncoded s c.name data now
    | error _ => rfl
  | putEncoded name data now => exact lookup_putEncoded s name data now
  | delete h => exact lookup_delete s h

/-- Along any sequence of writes the store holds the map the writes build. -/
theorem lookup_performAll (s : ChunkStore) (ws : List Write) :
    (s.performAll ws).lookup = ws.foldl Write.onMap s.lookup := by
  induction ws generalizing s with
  | nil => rfl
  | cons w ws ih =>
    simp only [performAll, List.foldl_cons] at ih ⊢
    rw [ih, lookup_perform]

/-! ## The table's guarantees are kept -/

theorem sound_empty (path : String) : ({ path := path } : ChunkStore).Sound :=
  ⟨List.nodup_nil, fun _ h => absurd h List.not_mem_nil⟩

theorem Sound.putEncoded (hs : s.Sound) (name : String) (data : List UInt8) (now : Nat) :
    (s.putEncoded name data now).2.Sound := by
  unfold ChunkStore.putEncoded
  dsimp only
  split
  · exact hs
  · rename_i hfresh
    refine ⟨?_, fun e he => ?_⟩
    · have hout : hashOf data ∉ s.entries.map Entry.hash := by simpa using hfresh
      simpa [List.nodup_append, hs.keyed] using hout
    · rcases List.mem_append.1 he with he | he
      · exact hs.addressed e he
      · rw [List.mem_singleton.1 he]

theorem Sound.delete (hs : s.Sound) (h : String) : (s.delete h).2.Sound :=
  ⟨hs.keyed.sublist (List.filter_sublist.map _),
    fun e he => hs.addressed e (List.mem_of_mem_filter he)⟩

theorem Sound.perform (hs : s.Sound) (w : Write) : (s.perform w).Sound := by
  cases w with
  | put heap c now =>
    simp only [ChunkStore.perform, ChunkStore.put]
    cases marshal .canonical heap c with
    | ok data => exact hs.putEncoded c.name data now
    | error _ => exact hs
  | putEncoded name data now => exact hs.putEncoded name data now
  | delete h => exact hs.delete h

theorem Sound.performAll (hs : s.Sound) (ws : List Write) : (s.performAll ws).Sound := by
  induction ws generalizing s with
  | nil => exact hs
  | cons w ws ih => exact ih (hs.perform w)

theorem Sound.lookup_addressed (hs : s.Sound) (he : s.lookup h = some e) :
    e.hash = h ∧ hashOf e.data = h := by
  obtain ⟨hmem, hh⟩ := lookup_eq_some he
  exact ⟨hh, (hs.addressed e hmem).symm.trans hh⟩

/-! ## Resolving a prefix -/

theorem names_iff : s.Names p h ↔ ∃ e ∈ s.entries.filter (p.isPrefixOf ·.hash), e.hash = h := by
  simp only [Names, lookup_isSome_iff, List.mem_filter, String.isPrefixOf,
    String.startsWith_string_iff]
  constructor
  · rintro ⟨⟨e, he, rfl⟩, hp⟩
    exact ⟨e, ⟨he, hp⟩, rfl⟩
  · rintro ⟨e, ⟨he, hp⟩, rfl⟩
    exact ⟨⟨e, he, rfl⟩, hp⟩

/-- A non-empty prefix that starts no stored hash is not found, one that starts exactly one
resolves to it, and one that starts two is ambiguous. -/
theorem resolve_cases (hk : (s.entries.map Entry.hash).Nodup) (hp : p ≠ "") :
    (s.resolve p = .error (.notFound (some p)) ∧ ∀ h, ¬ s.Names p h) ∨
    (∃ h, s.resolve p = .ok h ∧ s.Names p h ∧ ∀ h', s.Names p h' → h' = h) ∨
    (s.resolve p = .error (.ambiguous p) ∧
      ∃ h₁ h₂, h₁ ≠ h₂ ∧ s.Names p h₁ ∧ s.Names p h₂) := by
  have hne : p.isEmpty = false := by simpa [String.isEmpty_iff] using hp
  unfold resolve
  rw [if_neg (by simp [hne])]
  have hnames (h : String) := names_iff (s := s) (p := p) (h := h)
  -- the hits are a sublist of the entries, so their hashes are distinct too
  have hhits : ((s.entries.filter (p.isPrefixOf ·.hash)).map Entry.hash).Nodup :=
    hk.sublist (List.filter_sublist.map _)
  revert hnames hhits
  generalize s.entries.filter (p.isPrefixOf ·.hash) = hits
  intro hnames hhits
  rcases hits with _ | ⟨e₁, _ | ⟨e₂, rest⟩⟩
  · exact .inl ⟨rfl, fun h hn => by simpa using (hnames h).1 hn⟩
  · refine .inr (.inl ⟨e₁.hash, rfl, (hnames _).2 ⟨e₁, by simp⟩, fun h' hn => ?_⟩)
    simpa [eq_comm] using (hnames h').1 hn
  · refine .inr (.inr ⟨rfl, e₁.hash, e₂.hash, ?_, (hnames _).2 ⟨e₁, by simp⟩,
      (hnames _).2 ⟨e₂, by simp⟩⟩)
    simp only [List.map_cons, List.nodup_cons, List.mem_cons] at hhits
    exact fun heq => hhits.1 (.inl heq)

theorem resolve_empty (s : ChunkStore) : s.resolve "" = .error (.notFound none) := rfl

theorem resolve_eq_ok_iff (hk : (s.entries.map Entry.hash).Nodup) :
    s.resolve p = .ok h ↔ p ≠ "" ∧ s.Names p h ∧ ∀ h', s.Names p h' → h' = h := by
  by_cases hp : p = ""
  · subst hp
    simp [resolve_empty]
  rcases resolve_cases hk hp with ⟨hr, hn⟩ | ⟨h₀, hr, hn, hu⟩ | ⟨hr, h₁, h₂, hne, hn₁, hn₂⟩
  · simp [hr, hn]
  · rw [hr]
    constructor
    · rintro ⟨⟩
      exact ⟨hp, hn, hu⟩
    · rintro ⟨-, hnh, -⟩
      rw [hu h hnh]
  · simp only [hr, reduceCtorEq, false_iff, not_and]
    exact fun _ _ hu => hne ((hu h₁ hn₁).trans (hu h₂ hn₂).symm)

theorem resolve_eq_notFound_iff (hk : (s.entries.map Entry.hash).Nodup) :
    s.resolve p = .error (.notFound (some p)) ↔ p ≠ "" ∧ ∀ h, ¬ s.Names p h := by
  by_cases hp : p = ""
  · subst hp
    simp [resolve_empty]
  rcases resolve_cases hk hp with ⟨hr, hn⟩ | ⟨h₀, hr, hn, -⟩ | ⟨hr, h₁, -, -, hn₁, -⟩
  · simp [hr, hp, hn]
  · simp only [hr, reduceCtorEq, false_iff, not_and, not_forall, not_not]
    exact fun _ => ⟨h₀, hn⟩
  · simp only [hr, Except.error.injEq, reduceCtorEq, false_iff, not_and, not_forall, not_not]
    exact fun _ => ⟨h₁, hn₁⟩

theorem resolve_eq_ambiguous_iff (hk : (s.entries.map Entry.hash).Nodup) :
    s.resolve p = .error (.ambiguous p) ↔
      p ≠ "" ∧ ∃ h₁ h₂, h₁ ≠ h₂ ∧ s.Names p h₁ ∧ s.Names p h₂ := by
  by_cases hp : p = ""
  · subst hp
    simp [resolve_empty]
  rcases resolve_cases hk hp with ⟨hr, hn⟩ | ⟨h₀, hr, hn, hu⟩ | ⟨hr, hex⟩
  · simp only [hr, Except.error.injEq, reduceCtorEq, false_iff, not_and, not_exists]
    exact fun _ h₁ _ _ hn₁ => absurd hn₁ (hn h₁)
  · simp only [hr, reduceCtorEq, false_iff, not_and, not_exists]
    exact fun _ h₁ h₂ hne hn₁ hn₂ => hne ((hu h₁ hn₁).trans (hu h₂ hn₂).symm)
  · simp [hr, hp, hex]

/-! ## Reading and listing -/

theorem getEncoded_of_resolve_error {err : StoreError} (hr : s.resolve p = .error err) :
    s.getEncoded p = .error err := by
  simp [getEncoded, hr, bind, Except.bind]

/-- Reading returns the bytes stored under the resolved hash, and reports corruption exactly when
they do not hash to it. -/
theorem getEncoded_of_resolve_ok (hk : (s.entries.map Entry.hash).Nodup)
    (hr : s.resolve p = .ok h) :
    ∃ e, s.lookup h = some e ∧
      s.getEncoded p = if hashOf e.data = h then .ok e.data else .error (.corrupt h (hashOf e.data)) := by
  obtain ⟨e, he⟩ := Option.isSome_iff_exists.1 ((resolve_eq_ok_iff hk).1 hr).2.1.1
  refine ⟨e, he, ?_⟩
  have hfind : s.entries.find? (·.hash == h) = some e := he
  by_cases hh : hashOf e.data = h
  · simp [getEncoded, hr, hfind, hh, bind, Except.bind, pure, Except.pure]
  · simp [getEncoded, hr, hfind, hh, bind, Except.bind, throw, throwThe, MonadExceptOf.throw]

theorem mem_list_iff (hk : (s.entries.map Entry.hash).Nodup) :
    e ∈ s.list ↔ s.lookup e.hash = some e := by
  rw [list, List.mem_mergeSort, lookup_eq_some_iff hk]
  simp

theorem list_hashes_nodup (hk : (s.entries.map Entry.hash).Nodup) :
    (s.list.map Entry.hash).Nodup :=
  ((List.mergeSort_perm _ _).map _).nodup_iff.2 hk

/-- What a store answers, read off its map from hashes to entries. -/
structure Laws (s : ChunkStore) : Prop where
  /-- Every entry sits under the hash of its bytes. -/
  addressed : ∀ h e, s.lookup h = some e → e.hash = h ∧ hashOf e.data = h
  /-- Storing bytes answers their hash, an address, and enters them unless the hash is
  taken. -/
  putEncoded : ∀ name data now, (s.putEncoded name data now).1 = hashOf data ∧
    IsAddress (hashOf data) ∧
    (s.putEncoded name data now).2.lookup = enter s.lookup ⟨hashOf data, name, data, now⟩
  /-- Deleting removes exactly the hash and answers whether it was stored. -/
  delete : ∀ h, (s.delete h).1 = (s.lookup h).isSome ∧
    (s.delete h).2.lookup = Function.update s.lookup h none
  /-- The empty prefix is not found. -/
  resolve_empty : s.resolve "" = .error (.notFound none)
  /-- A prefix resolves to the one stored hash it starts. -/
  resolve_ok : ∀ p h, s.resolve p = .ok h ↔ p ≠ "" ∧ s.Names p h ∧ ∀ h', s.Names p h' → h' = h
  /-- A non-empty prefix that starts no stored hash is not found. -/
  resolve_notFound : ∀ p, s.resolve p = .error (.notFound (some p)) ↔
    p ≠ "" ∧ ∀ h, ¬ s.Names p h
  /-- A prefix that starts two stored hashes is ambiguous. -/
  resolve_ambiguous : ∀ p, s.resolve p = .error (.ambiguous p) ↔
    p ≠ "" ∧ ∃ h₁ h₂, h₁ ≠ h₂ ∧ s.Names p h₁ ∧ s.Names p h₂
  /-- Reading fails as resolving does. -/
  getEncoded_error : ∀ p err, s.resolve p = .error err → s.getEncoded p = .error err
  /-- Reading returns the bytes under the resolved hash, or reports that they do not hash to it. -/
  getEncoded_ok : ∀ p h, s.resolve p = .ok h → ∃ e, s.lookup h = some e ∧
    s.getEncoded p = if hashOf e.data = h then .ok e.data else .error (.corrupt h (hashOf e.data))
  /-- The listing names no hash twice. -/
  list_nodup : (s.list.map Entry.hash).Nodup
  /-- The listing holds exactly the stored entries. -/
  mem_list : ∀ e, e ∈ s.list ↔ s.lookup e.hash = some e

theorem Sound.laws (hs : s.Sound) : s.Laws where
  addressed _ _ he := hs.lookup_addressed he
  putEncoded name data now :=
    ⟨putEncoded_fst s name data now, hashOf_isAddress data, lookup_putEncoded s name data now⟩
  delete h := ⟨delete_fst s h, lookup_delete s h⟩
  resolve_empty := resolve_empty s
  resolve_ok _ _ := resolve_eq_ok_iff hs.keyed
  resolve_notFound _ := resolve_eq_notFound_iff hs.keyed
  resolve_ambiguous _ := resolve_eq_ambiguous_iff hs.keyed
  getEncoded_error _ _ hr := getEncoded_of_resolve_error hr
  getEncoded_ok _ _ hr := getEncoded_of_resolve_ok hs.keyed hr
  list_nodup := list_hashes_nodup hs.keyed
  mem_list _ := mem_list_iff hs.keyed

end ChunkStore

/-- Along any sequence of puts and deletes on a sound store (a new store is one), the store
holds the map the writes build, from each hash to the first entry stored under it since it was
last deleted, and answers through that map: storing returns the hash of the bytes, resolving
finds the one stored hash a prefix starts, reading returns its bytes, deleting removes exactly
its hash, and listing gives each entry once. -/
theorem content_addressed (s₀ : ChunkStore) (hs : s₀.Sound) (ws : List Write) :
    (s₀.performAll ws).lookup = ws.foldl Write.onMap s₀.lookup ∧ (s₀.performAll ws).Laws :=
  ⟨ChunkStore.lookup_performAll s₀ ws, (hs.performAll ws).laws⟩

/-- The laws at a new store after two puts of the same bytes under two names and a delete of a
hash nothing is stored under. -/
theorem content_addressed_memory :
    let s₀ : ChunkStore := { path := ":memory:" }
    let ws := [Write.putEncoded "a" [1] 0, .putEncoded "b" [1] 1, .delete "0"]
    s₀.Sound ∧ (s₀.performAll ws).lookup = ws.foldl Write.onMap s₀.lookup ∧
      (s₀.performAll ws).Laws :=
  ⟨ChunkStore.sound_empty _, content_addressed _ (ChunkStore.sound_empty _) _⟩

end ScriptMachine.Store
