import Mathlib.Data.List.Forall2
import ScriptMachine.Wire.Chunk
import ScriptMachine.Proofs.Wire.Items
/-!
# Chunk images read back

Through any codec that reads back what it writes (`Codec.ReadsBack`, which the canonical codec
has), an image read back gives the chunk tree that was written, with one exception: a number
constant that equals zero is written without its number, so `-0` comes back as `0`
(`Chunk.unsignZeros`). Writing the tree read back gives the same bytes again.
-/

namespace ScriptMachine.Wire

open Item

/-! ## Texts and integers -/

private theorem toList_loop (bs : ByteArray) (i : Nat) (r : List UInt8) :
    ByteArray.toList.loop bs i r = r.reverse ++ bs.data.toList.drop i := by
  fun_induction ByteArray.toList.loop bs i r with
  | case1 i r hi ih =>
    have hlen : i < bs.data.toList.length := by
      rw [Array.length_toList]
      exact hi
    rw [ih, List.drop_eq_getElem_cons hlen]
    simp [ByteArray.get!, hi]
  | case2 i r hi =>
    simp
    omega

theorem toList_eq_data (bs : ByteArray) : bs.toList = bs.data.toList := by
  simp [ByteArray.toList, toList_loop]

def fitsText (s : String) : Bool := decide (s.utf8ByteSize < Nat.pow 2 64)

def fitsInt64 (n : Int) : Bool :=
  decide (-((Nat.pow 2 63 : Nat) : Int) ≤ n) && decide (n < ((Nat.pow 2 63 : Nat) : Int))

theorem readText_ofString (s : String) : readText (.ofString s) = some s := by
  have hbytes : ByteArray.mk s.toUTF8.toList.toArray = s.toByteArray := by
    simp [toList_eq_data]
  simp only [readText, ofString, fieldContent, textOf?, hbytes]
  simp [String.fromUTF8?, s.isValidUTF8]
  rfl

theorem readable_ofString {d : Nat} {s : String} (h : fitsText s) : Readable d (.ofString s) := by
  apply Readable.text
  simpa [fitsText, toList_eq_data, String.size_toByteArray] using h

theorem readNat_nat {bound k : Nat} (h : k ≤ bound) : readNat bound (.nat k) = some k := by
  simp [readNat, integerOf, fieldContent, h]

theorem readBool_bool (b : Bool) : readBool (.bool b) = some b := by
  simp [readBool, fieldContent]

theorem readInt_ofInt {n : Int} (h : fitsInt64 n) : readInt (.ofInt n) = some n := by
  simp only [fitsInt64, Nat.pow_eq, Bool.and_eq_true, decide_eq_true_eq] at h
  unfold ofInt
  split_ifs with hneg
  · simp [readInt, integerOf, fieldContent]
    omega
  · simp [readInt, integerOf, fieldContent]
    omega

theorem readable_ofInt {d : Nat} {n : Int} (h : fitsInt64 n) : Readable d (.ofInt n) := by
  simp only [fitsInt64, Nat.pow_eq, Bool.and_eq_true, decide_eq_true_eq] at h
  unfold ofInt
  split_ifs
  · exact Readable.neg (by simp only [Nat.pow_eq]; omega)
  · exact Readable.nat (by simp only [Nat.pow_eq]; omega)

/-! ## Records -/

def written (fields : List (Nat × Option Item)) : List (Nat × Item) :=
  fields.filterMap fun (k, v) => v.map fun v => (k, v)

/-- Whether keys are increasing and below 24: a record's map holds such keys in canonical
order just as they are given, each written as one byte. -/
def canonicalKeys : List Nat → Bool
  | [] => true
  | [k] => decide (k < 24)
  | k :: k' :: ks => decide (k < k') && canonicalKeys (k' :: ks)

theorem canonicalKeys_spec {ks : List Nat} (h : canonicalKeys ks = true) :
    ks.Pairwise (· < ·) ∧ ∀ k ∈ ks, k < 24 := by
  fun_induction canonicalKeys ks with
  | case1 => simp
  | case2 k => simpa [canonicalKeys] using h
  | case3 k k' ks ih =>
    simp only [Bool.and_eq_true, decide_eq_true_eq] at h
    obtain ⟨hsorted, hsmall⟩ := ih h.2
    -- the first key is below the second, which is below all the others
    have hfirst : ∀ a ∈ k' :: ks, k < a := by
      intro a ha
      rcases List.mem_cons.mp ha with rfl | ha
      · exact h.1
      · exact Nat.lt_trans h.1 (List.rel_of_pairwise_cons hsorted ha)
    refine ⟨List.Pairwise.cons hfirst hsorted, ?_⟩
    intro a ha
    rcases List.mem_cons.mp ha with rfl | ha
    · exact Nat.lt_trans h.1 (hsmall k' List.mem_cons_self)
    · exact hsmall a ha

theorem written_nil : written [] = [] := rfl

theorem written_cons_none (k : Nat) (es : List (Nat × Option Item)) :
    written ((k, none) :: es) = written es := rfl

theorem written_cons_some (k : Nat) (v : Item) (es : List (Nat × Option Item)) :
    written ((k, some v) :: es) = (k, v) :: written es := rfl

theorem record_eq (fields : List (Nat × Option Item)) :
    record fields = .map ((written fields).map fun e => (.nat e.1, e.2)) := by
  simp only [record, written, List.map_filterMap, Option.map_map, Function.comp_def]

theorem keys_written_sublist (fields : List (Nat × Option Item)) :
    ((written fields).map Prod.fst).Sublist (fields.map Prod.fst) := by
  induction fields with
  | nil => simp [written_nil]
  | cons e es ih =>
    obtain ⟨k, v⟩ := e
    cases v with
    | none => simpa [written_cons_none] using ih.cons k
    | some v => simpa [written_cons_some] using ih.cons_cons k

theorem lookup_written {fields : List (Nat × Option Item)} (h : (fields.map Prod.fst).Nodup)
    (k : Nat) : (written fields).lookup k = (fields.lookup k).join := by
  induction fields with
  | nil => simp [written_nil]
  | cons e es ih =>
    obtain ⟨k', v⟩ := e
    rw [List.map_cons, List.nodup_cons] at h
    by_cases hk : k = k'
    · subst hk
      -- no later field answers for the key, written or not
      have hlater : (written es).lookup k = none := by
        rw [List.lookup_eq_none_iff]
        intro p hp
        have hmem := (keys_written_sublist es).subset (List.mem_map_of_mem hp)
        simp only [bne_iff_ne, ne_eq]
        exact fun he => h.1 (he ▸ hmem)
      cases v <;> simp [written_cons_none, written_cons_some, List.lookup, hlater]
    · have hne : (k == k') = false := by simpa using hk
      cases v <;> simp [written_cons_none, written_cons_some, List.lookup, hne, ih h.2]

private theorem foldlM_distinct {f : List (Nat × Item) → Item × Item → Option (List (Nat × Item))}
    (hf : ∀ acc k v, k ∉ acc.map Prod.fst → f acc (.nat k, v) = some (acc ++ [(k, v)]))
    (xs acc : List (Nat × Item)) (hnd : (acc.map Prod.fst ++ xs.map Prod.fst).Nodup) :
    (xs.map fun e => (Item.nat e.1, e.2)).foldlM f acc = some (acc ++ xs) := by
  induction xs generalizing acc with
  | nil => simp
  | cons x xs ih =>
    obtain ⟨k, v⟩ := x
    have hfresh : k ∉ acc.map Prod.fst := by
      simp only [List.map_cons, List.nodup_append, List.nodup_cons] at hnd
      exact fun hk => hnd.2.2 k hk k List.mem_cons_self rfl
    have hnd' : ((acc ++ [(k, v)]).map Prod.fst ++ xs.map Prod.fst).Nodup := by
      simpa using hnd
    simp [hf acc k v hfresh, ih _ hnd']

/-- A record with canonical keys reads back as the fields it writes. -/
theorem readRecord_record {fields : List (Nat × Option Item)} (h : canonicalKeys (fields.map Prod.fst)) :
    readRecord (record fields) = some (written fields) := by
  have hnd : ((written fields).map Prod.fst).Nodup :=
    ((canonicalKeys_spec h).1.sublist (keys_written_sublist fields)).imp Nat.ne_of_lt
  rw [record_eq]
  simp only [readRecord, fieldContent]
  refine (foldlM_distinct ?_ (written fields) [] (by simpa using hnd)).trans (by simp)
  -- a key not read before is appended
  intro acc k v hk
  have hfresh : acc.any (·.1 == k) = false := by
    rw [List.any_eq_false]
    intro p hp hpk
    rw [← beq_iff_eq.mp hpk] at hk
    exact hk (List.mem_map_of_mem hp)
  simp [keyOf, hfresh]

@[simp] theorem elim_always {α : Type} (i : Item) (zero : Option α) (f : Item → Option α) :
    (always i).elim zero f = f i := rfl

theorem field_written {α : Type} {fields : List (Nat × Option Item)} (h : canonicalKeys (fields.map Prod.fst))
    (k : Nat) (f : Item → Option α) (zero : α) :
    field (written fields) k f zero = ((fields.lookup k).join).elim (some zero) f := by
  rw [field, lookup_written ((canonicalKeys_spec h).1.imp Nat.ne_of_lt)]
  cases (fields.lookup k).join <;> rfl

theorem some_bind {α β : Type} (a : α) (f : α → Option β) : (some a >>= f) = f a := rfl

theorem lookup_written_of_canonical {fields : List (Nat × Option Item)}
    (h : canonicalKeys (fields.map Prod.fst)) (k : Nat) :
    (written fields).lookup k = (fields.lookup k).join :=
  lookup_written ((canonicalKeys_spec h).1.imp Nat.ne_of_lt) k

theorem mem_written {fields : List (Nat × Option Item)} {k : Nat} {v : Item} :
    (k, v) ∈ written fields ↔ (k, some v) ∈ fields := by
  simp only [written, List.mem_filterMap]
  constructor
  · rintro ⟨⟨k', o⟩, hmem, ho⟩
    cases o with
    | none => cases ho
    | some w =>
      obtain ⟨rfl, rfl⟩ : k' = k ∧ w = v := by simpa using ho
      exact hmem
  · intro hmem
    exact ⟨(k, some v), hmem, rfl⟩

theorem keyLe_nat {a b : Nat} (ha : a < 24) (hb : b < 24) (hab : a < b) :
    keyLe (Item.nat a).encode (Item.nat b).encode = true := by
  have ha' : (UInt8.ofNat a).toNat = a := by
    simp
    omega
  have hb' : (UInt8.ofNat b).toNat = b := by
    simp
    omega
  simp [encode, head, ha, hb, keyLe, bytesLe, UInt8.lt_iff_toNat_lt, ha', hb', hab]

/-- A record with canonical keys is readable where its map may open a level and its fields are
readable a level further in. -/
theorem readable_record {d : Nat} {fields : List (Nat × Option Item)} (hd : d < maxDepth)
    (h : canonicalKeys (fields.map Prod.fst)) (hv : ∀ p ∈ fields, ∀ v ∈ p.2, Readable (d + 1) v) :
    Readable d (record fields) := by
  have hsub := keys_written_sublist fields
  have hspec := canonicalKeys_spec h
  have hsorted : ((written fields).map Prod.fst).Pairwise (· < ·) := hspec.1.sublist hsub
  have hsmall : ∀ k ∈ (written fields).map Prod.fst, k < 24 :=
    fun k hk => hspec.2 k (hsub.subset hk)
  rw [record_eq]
  apply Readable.map hd
  · -- distinct keys below 24 are at most 24
    have hlen := List.Nodup.length_le_of_subset (hsorted.imp Nat.ne_of_lt)
      (fun k hk => List.mem_range.mpr (hsmall k hk))
    simp only [List.length_map, List.length_range] at hlen
    simp only [List.length_map, maxElements]
    omega
  · intro e he
    obtain ⟨⟨k, v⟩, hkv, rfl⟩ := List.mem_map.mp he
    exact Readable.nat (Nat.lt_of_lt_of_le (hsmall k (List.mem_map_of_mem hkv)) (by decide))
  · intro e he
    obtain ⟨⟨k, v⟩, hkv, rfl⟩ := List.mem_map.mp he
    exact hv (k, some v) (mem_written.mp hkv) v rfl
  · simp only [encodeEntries_eq_map, List.map_map, List.pairwise_map, Function.comp_def]
    rw [List.pairwise_map] at hsorted
    refine hsorted.imp_of_mem fun {a b} ha hb hab => keyLe_nat ?_ ?_ hab
    · exact hsmall a.1 (List.mem_map_of_mem ha)
    · exact hsmall b.1 (List.mem_map_of_mem hb)

/-! ## Fields -/

theorem mapM_eq_pure_map {m : Type → Type} [Monad m] [LawfulMonad m] {α β : Type}
    {f : α → m β} {g : α → β} {l : List α} (h : ∀ x ∈ l, f x = pure (g x)) :
    l.mapM f = pure (l.map g) := by
  induction l with
  | nil => simp
  | cons x xs ih =>
    simp [h x List.mem_cons_self, ih fun y hy => h y (List.mem_cons_of_mem x hy)]

theorem elim_optInt {n : Int} (h : fitsInt64 n) : (optInt n).elim (some 0) readInt = some n := by
  unfold optInt
  split_ifs with hz
  · simp only [beq_iff_eq] at hz
    simp [hz]
  · simp [readInt_ofInt h]

theorem elim_optText (s : String) : (optText s).elim (some "") readText = some s := by
  unfold optText
  split_ifs with he
  · simp only [String.isEmpty_iff] at he
    simp [he]
  · simp [readText_ofString]

theorem mapM_ok_of_forall {ε α β : Type} {f : α → Except ε β} {P : α → β → Prop} {l : List α}
    (h : ∀ x ∈ l, ∃ y, f x = .ok y ∧ P x y) : ∃ l', l.mapM f = .ok l' ∧ List.Forall₂ P l l' := by
  induction l with
  | nil => exact ⟨[], rfl, List.Forall₂.nil⟩
  | cons x xs ih =>
    obtain ⟨y, hy, hp⟩ := h x List.mem_cons_self
    obtain ⟨ys, hys, hps⟩ := ih fun x' hx' => h x' (List.mem_cons_of_mem x hx')
    refine ⟨y :: ys, ?_, List.Forall₂.cons hp hps⟩
    rw [List.mapM_cons, hy, hys]
    rfl

theorem mapM_of_forall₂ {α β γ : Type} {g : β → Option γ} {φ : α → γ} {l : List α} {l' : List β}
    (h : List.Forall₂ (fun x y => g y = some (φ x)) l l') : l'.mapM g = some (l.map φ) := by
  induction h with
  | nil => rfl
  | cons hxy _ ih => simp [hxy, ih]

theorem mapM_congr_mem {m : Type → Type} [Monad m] [LawfulMonad m] {α β : Type}
    {f g : α → m β} {l : List α} (h : ∀ x ∈ l, f x = g x) : l.mapM f = l.mapM g := by
  induction l with
  | nil => rfl
  | cons x xs ih =>
    simp only [List.mapM_cons, h x List.mem_cons_self,
      ih fun y hy => h y (List.mem_cons_of_mem x hy)]

theorem findSome?_congr_mem {α β : Type} {f g : α → Option β} {l : List α}
    (h : ∀ x ∈ l, f x = g x) : l.findSome? f = l.findSome? g := by
  induction l with
  | nil => rfl
  | cons x xs ih =>
    simp only [List.findSome?_cons, h x List.mem_cons_self,
      ih fun y hy => h y (List.mem_cons_of_mem x hy)]

theorem forall_mem_of_forall₂ {α β : Type} {P : α → β → Prop} {Q : β → Prop} {l : List α}
    {l' : List β} (h : List.Forall₂ P l l') (hq : ∀ x y, P x y → Q y) : ∀ y ∈ l', Q y := by
  induction h with
  | nil => simp
  | cons hxy _ ih =>
    intro y hy
    rcases List.mem_cons.mp hy with rfl | hy
    · exact hq _ _ hxy
    · exact ih y hy

theorem mapM_map_some {α : Type} {write : α → Item} {read : Item → Option α} {l : List α}
    (h : ∀ x ∈ l, read (write x) = some x) : (l.map write).mapM read = some l := by
  rw [List.mapM_map, Function.comp_def]
  exact (mapM_eq_pure_map h).trans (by simp)

theorem readList_array {α : Type} {f : Item → Option α} {items : List Item} {xs : List α}
    (h : items.mapM f = some xs) : readList f (.array items) = some xs.toArray := by
  simp [readList, fieldContent, h]

theorem elim_optList {α : Type} {f : Item → Option α} {items : List Item} {xs : List α}
    (h : items.mapM f = some xs) : (optList items).elim (some #[]) (readList f) = some xs.toArray := by
  unfold optList
  split_ifs with he
  · simp only [List.isEmpty_iff] at he
    subst he
    simp only [List.mapM_nil, Option.pure_def, Option.some.injEq] at h
    simp [← h]
  · simp [readList_array h]

theorem readable_always {d : Nat} {i : Item} (h : Readable d i) : ∀ v ∈ always i, Readable d v := by
  simpa [always] using h

theorem readable_optInt {d : Nat} {n : Int} (h : fitsInt64 n) : ∀ v ∈ optInt n, Readable d v := by
  unfold optInt
  split_ifs <;> simp [readable_ofInt h]

theorem readable_optText {d : Nat} {s : String} (h : fitsText s) :
    ∀ v ∈ optText s, Readable d v := by
  unfold optText
  split_ifs <;> simp [readable_ofString h]

theorem readable_optList {d : Nat} {items : List Item} (hd : d < maxDepth)
    (hn : items.length ≤ maxElements) (h : ∀ i ∈ items, Readable (d + 1) i) :
    ∀ v ∈ optList items, Readable d v := by
  unfold optList
  split_ifs <;> simp [Readable.array hd hn h]

end ScriptMachine.Wire

/-! ## Storable chunk trees -/

namespace ScriptMachine

open Wire

def Position.storable (p : Position) : Bool := fitsInt64 p.line && fitsInt64 p.column

def Span.storable (s : Span) : Bool := s.start.storable && s.stop.storable

/-- Whether a constant has an image whose text fits: numbers, nil and booleans always do. -/
def Value.storable : Value → Bool
  | .num _ | .none | .bool _ => true
  | .str s => fitsText s
  | _ => false

/-- The constant an image gives back: a number equal to zero is written without its number
and comes back as `0`, which drops the sign of `-0`; every other constant comes back as it
was. -/
def Value.unsignZero : Value → Value
  | .num x => if x == 0 then .num 0 else .num x
  | v => v

namespace Bytecode

def TagDesc.storable (t : TagDesc) : Bool :=
  fitsText t.name && t.args.size ≤ maxElements && t.args.all fitsText &&
    t.values.size ≤ maxElements && t.values.all fitsInt64

def Notification.storable (n : Notification) : Bool :=
  n.kind ≤ 255 && n.span.storable && fitsText n.name && fitsText n.leftName &&
    fitsText n.rightName &&
    [n.storage, n.op, n.left, n.right, n.result, n.key, n.value, n.func, n.argc].all fitsInt64 &&
    n.tags.size ≤ maxElements && n.tags.all TagDesc.storable

def Capture.storable (u : Capture) : Bool := fitsText u.name && fitsInt64 u.index

def LocalVar.storable (l : LocalVar) : Bool :=
  fitsText l.name && [l.register, l.startPc, l.endPc].all fitsInt64

/-- Whether a chunk tree can be written and read back, with at most `levels` levels of chunks:
every value fits its field, every list the reader's element limit, every constant is a number,
string, nil or boolean, every version is one the reader knows, and a chunk without a list of
spans has no spans. -/
def Chunk.storable : Nat → Chunk → Bool
  | 0, _ => false
  | levels + 1, c =>
    c.version ≤ supportedVersion && fitsText c.name && fitsInt64 c.params &&
      fitsInt64 c.registers && c.code.size ≤ maxElements &&
      (c.spansListed || c.spans.isEmpty) && c.spans.size ≤ maxElements &&
      c.spans.all Span.storable &&
      c.constants.size ≤ maxElements && c.constants.all Value.storable &&
      c.notifications.size ≤ maxElements && c.notifications.all Notification.storable &&
      c.protos.size ≤ maxElements && c.protos.all (storable levels) &&
      c.captures.size ≤ maxElements && c.captures.all Capture.storable &&
      c.locals.size ≤ maxElements && c.locals.all LocalVar.storable &&
      c.globals.size ≤ maxElements && c.globals.all fitsText

/-- The chunk tree an image gives back: every constant as `Value.unsignZero` gives it. -/
def Chunk.unsignZeros (c : Chunk) : Chunk :=
  { c with constants := c.constants.map Value.unsignZero,
           protos := c.protos.attach.map fun ⟨p, _⟩ => p.unsignZeros }
termination_by c
decreasing_by
  have := Array.sizeOf_lt_of_mem ‹p ∈ c.protos›
  cases c
  simp_all
  omega

end Bytecode

end ScriptMachine

namespace ScriptMachine.Wire

open Bytecode Item

/-! ## Positions, spans and event sites -/

theorem readSpan_spanItem {s : Span} (h : s.storable) : readSpan (spanItem s) = some s := by
  simp only [Span.storable, Position.storable, Bool.and_eq_true] at h
  have hpos (p : Position) (hl : fitsInt64 p.line) (hc : fitsInt64 p.column) :
      readPosition (record [(1, always (.ofInt p.line)), (2, always (.ofInt p.column))]) =
        some p := by
    simp [readPosition, readRecord_record, field_written, canonicalKeys, List.lookup,
      readInt_ofInt hl, readInt_ofInt hc]
  simp [readSpan, spanItem, readRecord_record, field_written, canonicalKeys, List.lookup,
    hpos _ h.1.1 h.1.2, hpos _ h.2.1 h.2.2]

theorem readable_spanItem {d : Nat} {s : Span} (h : s.storable) (hd : d + 1 < maxDepth) :
    Readable d (spanItem s) := by
  simp only [Span.storable, Position.storable, Bool.and_eq_true] at h
  have hpos (p : Position) (hl : fitsInt64 p.line) (hc : fitsInt64 p.column) :
      Readable (d + 1) (record [(1, always (.ofInt p.line)), (2, always (.ofInt p.column))]) := by
    apply readable_record hd (by simp [canonicalKeys])
    simp only [List.forall_mem_cons, List.not_mem_nil, false_implies, implies_true, and_true]
    exact ⟨readable_always (readable_ofInt hl), readable_always (readable_ofInt hc)⟩
  apply readable_record (by omega) (by simp [canonicalKeys])
  simp only [List.forall_mem_cons, List.not_mem_nil, false_implies, implies_true, and_true]
  exact ⟨readable_always (hpos _ h.1.1 h.1.2), readable_always (hpos _ h.2.1 h.2.2)⟩

theorem readTag_record {t : TagDesc} (h : t.storable) :
    readTag (record [(1, always (.ofString t.name)),
      (2, optList (t.args.toList.map Item.ofString)),
      (3, optList (t.values.toList.map Item.ofInt))]) = some t := by
  simp only [TagDesc.storable, Bool.and_eq_true, Array.all_eq_true'] at h
  have hargs : (t.args.toList.map Item.ofString).mapM readText = some t.args.toList :=
    mapM_map_some fun s _ => readText_ofString s
  have hvalues : (t.values.toList.map Item.ofInt).mapM readInt = some t.values.toList :=
    mapM_map_some fun n hn => readInt_ofInt (h.2 n (Array.mem_toList_iff.mp hn))
  simp [readTag, readRecord_record, field_written, canonicalKeys, List.lookup, readText_ofString,
    elim_optList hargs, elim_optList hvalues]

theorem readable_tag_record {d : Nat} {t : TagDesc} (h : t.storable) (hd : d + 1 < maxDepth) :
    Readable d (record [(1, always (.ofString t.name)),
      (2, optList (t.args.toList.map Item.ofString)),
      (3, optList (t.values.toList.map Item.ofInt))]) := by
  simp only [TagDesc.storable, Bool.and_eq_true, Array.all_eq_true', decide_eq_true_eq] at h
  obtain ⟨⟨⟨⟨hname, hnargs⟩, hargs⟩, hnvalues⟩, hvalues⟩ := h
  apply readable_record (by omega) (by simp [canonicalKeys])
  simp only [List.forall_mem_cons, List.not_mem_nil, false_implies, implies_true, and_true]
  refine ⟨readable_always (readable_ofString hname), readable_optList hd (by simpa using hnargs) ?_,
    readable_optList hd (by simpa using hnvalues) ?_⟩
  · simp only [List.mem_map, Array.mem_toList_iff]
    rintro _ ⟨s, hs, rfl⟩
    exact readable_ofString (hargs s hs)
  · simp only [List.mem_map, Array.mem_toList_iff]
    rintro _ ⟨n, hn, rfl⟩
    exact readable_ofInt (hvalues n hn)

theorem readNotification_notificationItem {n : Notification} (h : n.storable) :
    readNotification (notificationItem n) = some n := by
  simp only [Notification.storable, Bool.and_eq_true, Array.all_eq_true', decide_eq_true_eq,
    List.all_cons, List.all_nil, Bool.and_true] at h
  obtain ⟨⟨⟨⟨⟨⟨⟨hkind, hspan⟩, -⟩, -⟩, -⟩, hints⟩, -⟩, htags⟩ := h
  obtain ⟨hstorage, hop, hleft, hright, hresult, hkey, hvalue, hfunc, hargc⟩ := hints
  have htagsread : (n.tags.toList.map fun t =>
      record [(1, always (.ofString t.name)), (2, optList (t.args.toList.map Item.ofString)),
        (3, optList (t.values.toList.map Item.ofInt))]).mapM readTag = some n.tags.toList :=
    mapM_map_some fun t ht => readTag_record (htags t (Array.mem_toList_iff.mp ht))
  simp only [readNotification, notificationItem, List.map_cons, List.map_nil, canonicalKeys,
    Nat.lt_add_one, decide_true, Nat.reduceLT, Bool.and_self, readRecord_record, some_bind,
    Option.pure_def, field_written, List.lookup, BEq.rfl, Option.join_some,
    elim_always, readNat_nat hkind, Nat.reduceBEq, readSpan_spanItem hspan, elim_optText,
    elim_optInt hstorage, elim_optInt hop, elim_optInt hleft, elim_optInt hright,
    elim_optInt hresult, elim_optInt hkey, elim_optInt hvalue, elim_optInt hfunc, elim_optInt hargc,
    elim_optList htagsread, Array.toArray_toList]

theorem readable_notificationItem {d : Nat} {n : Notification} (h : n.storable)
    (hd : d + 3 < maxDepth) : Readable d (notificationItem n) := by
  simp only [Notification.storable, Bool.and_eq_true, Array.all_eq_true', decide_eq_true_eq,
    List.all_cons, List.all_nil, Bool.and_true] at h
  obtain ⟨⟨⟨⟨⟨⟨⟨hkind, hspan⟩, hname⟩, hleft⟩, hright⟩, hints⟩, hntags⟩, htags⟩ := h
  obtain ⟨hstorage, hop, hl, hr, hresult, hkey, hvalue, hfunc, hargc⟩ := hints
  apply readable_record (by omega) (by simp [canonicalKeys])
  simp only [List.forall_mem_cons, List.not_mem_nil, false_implies, implies_true, and_true]
  refine ⟨readable_always (Readable.nat (by simp only [Nat.pow_eq]; omega)),
    readable_always (readable_spanItem hspan (by omega)), readable_optText hname,
    readable_optInt hstorage, readable_optInt hop, readable_optInt hl, readable_optText hleft,
    readable_optInt hr, readable_optText hright, readable_optInt hresult, readable_optInt hkey,
    readable_optInt hvalue, readable_optInt hfunc, readable_optInt hargc,
    readable_optList (by omega) (by simpa using hntags) ?_⟩
  simp only [List.mem_map, Array.mem_toList_iff]
  rintro _ ⟨t, ht, rfl⟩
  exact readable_tag_record (htags t ht) (by omega)

/-! ## Constants, captures and named locals -/

/-- What the record of a constant reads as: its kind, its number, zero when left out, and its
text. -/
def constantFields : Value → Nat × Float × String
  | .num x => (0, if x == 0 then 0 else x, "")
  | .str s => (1, 0, s)
  | .none => (2, 0, "")
  | .bool b => (3, if b then 1 else 0, "")
  | _ => (0, 0, "")

theorem readFloat_float (x : Float) : readFloat (.float x) = some x := by
  simp [readFloat, fieldContent]

theorem constantItem_spec (h : Heap) {v : Value} (hv : v.storable) :
    ∃ i, constantItem h v = .ok i ∧ readConstant i = some (constantFields v) ∧
      ∀ d, d < maxDepth → Readable d i := by
  have hkind (d k : Nat) (hk : k < 4) : ∀ i ∈ always (.nat k), Readable d i :=
    readable_always (Readable.nat (by simp only [Nat.pow_eq]; omega))
  have hnum (d : Nat) (x : Float) :
      ∀ i ∈ (if x == 0 then none else some (Item.float x)), Readable d i := by
    split <;> simp [Readable.float]
  have hzero : ((0 : Float) == 0) = true := by decide
  have hone : ((1 : Float) == 0) = false := by decide
  cases v with
  | num x =>
    refine ⟨_, rfl, ?_, fun d hd => ?_⟩
    · by_cases hx : (x == 0) = true
      · simp [readConstant, readRecord_record, field_written, canonicalKeys, List.lookup,
          readNat_nat, constantFields, hx]
      · simp [readConstant, readRecord_record, field_written, canonicalKeys, List.lookup,
          readNat_nat, constantFields, hx, readFloat_float]
    · apply readable_record hd (by simp [canonicalKeys])
      simp only [List.forall_mem_cons, List.not_mem_nil, false_implies, implies_true, and_true]
      exact ⟨hkind _ 0 (by decide), hnum _ x⟩
  | str s =>
    refine ⟨_, rfl, ?_, fun d hd => ?_⟩
    · simp [readConstant, readRecord_record, field_written, canonicalKeys, List.lookup,
        readNat_nat, constantFields, elim_optText]
    · apply readable_record hd (by simp [canonicalKeys])
      simp only [List.forall_mem_cons, List.not_mem_nil, false_implies, implies_true, and_true]
      exact ⟨hkind _ 1 (by decide), readable_optText (by simpa [Value.storable] using hv)⟩
  | none =>
    refine ⟨_, rfl, ?_, fun d hd => ?_⟩
    · simp [readConstant, readRecord_record, field_written, canonicalKeys, List.lookup,
        readNat_nat, constantFields]
    · apply readable_record hd (by simp [canonicalKeys])
      simp only [List.forall_mem_cons, List.not_mem_nil, false_implies, implies_true, and_true]
      exact hkind _ 2 (by decide)
  | bool b =>
    refine ⟨_, rfl, ?_, fun d hd => ?_⟩
    · cases b <;> simp [readConstant, readRecord_record, field_written, canonicalKeys,
        List.lookup, readNat_nat, constantFields, readFloat_float, hzero, hone]
    · apply readable_record hd (by simp [canonicalKeys])
      simp only [List.forall_mem_cons, List.not_mem_nil, false_implies, implies_true, and_true]
      exact ⟨hkind _ 3 (by decide), hnum _ _⟩
  | range r => simp [Value.storable] at hv
  | builtin name => simp [Value.storable] at hv
  | ref loc => simp [Value.storable] at hv

theorem constantValue_constantFields {v : Value} (hv : v.storable) :
    constantValue (constantFields v) = .ok v.unsignZero := by
  cases v with
  | num x =>
    simp only [constantFields, constantValue, Value.unsignZero]
    split <;> rfl
  | str s => simp [constantFields, constantValue, Value.unsignZero]
  | none => simp [constantFields, constantValue, Value.unsignZero]
  | bool b => cases b <;> simp [constantFields, constantValue, Value.unsignZero] <;> decide
  | range r => simp [Value.storable] at hv
  | builtin name => simp [Value.storable] at hv
  | ref loc => simp [Value.storable] at hv

theorem readCapture_record {u : Capture} (h : u.storable) :
    readCapture (record [(1, always (.ofString u.name)), (2, always (.bool u.inParent)),
      (3, always (.ofInt u.index))]) = some u := by
  simp only [Capture.storable, Bool.and_eq_true] at h
  simp [readCapture, readRecord_record, field_written, canonicalKeys, List.lookup,
    readText_ofString, readBool_bool, readInt_ofInt h.2]

theorem readable_capture_record {d : Nat} {u : Capture} (h : u.storable) (hd : d < maxDepth) :
    Readable d (record [(1, always (.ofString u.name)), (2, always (.bool u.inParent)),
      (3, always (.ofInt u.index))]) := by
  simp only [Capture.storable, Bool.and_eq_true] at h
  apply readable_record hd (by simp [canonicalKeys])
  simp only [List.forall_mem_cons, List.not_mem_nil, false_implies, implies_true, and_true]
  exact ⟨readable_always (readable_ofString h.1), readable_always (Readable.bool _),
    readable_always (readable_ofInt h.2)⟩

theorem readLocal_record {l : LocalVar} (h : l.storable) :
    readLocal (record [(1, always (.ofString l.name)), (2, always (.ofInt l.register)),
      (3, always (.ofInt l.startPc)), (4, always (.ofInt l.endPc))]) = some l := by
  simp only [LocalVar.storable, Bool.and_eq_true, List.all_cons, List.all_nil,
    Bool.and_true] at h
  obtain ⟨-, hregister, hstart, hend⟩ := h
  simp [readLocal, readRecord_record, field_written, canonicalKeys, List.lookup,
    readText_ofString, readInt_ofInt hregister, readInt_ofInt hstart, readInt_ofInt hend]

theorem readable_local_record {d : Nat} {l : LocalVar} (h : l.storable) (hd : d < maxDepth) :
    Readable d (record [(1, always (.ofString l.name)), (2, always (.ofInt l.register)),
      (3, always (.ofInt l.startPc)), (4, always (.ofInt l.endPc))]) := by
  simp only [LocalVar.storable, Bool.and_eq_true, List.all_cons, List.all_nil,
    Bool.and_true] at h
  obtain ⟨hname, hregister, hstart, hend⟩ := h
  apply readable_record hd (by simp [canonicalKeys])
  simp only [List.forall_mem_cons, List.not_mem_nil, false_implies, implies_true, and_true]
  exact ⟨readable_always (readable_ofString hname), readable_always (readable_ofInt hregister),
    readable_always (readable_ofInt hstart), readable_always (readable_ofInt hend)⟩

/-! ## Chunks -/

theorem unsignZeros_eq (c : Chunk) : c.unsignZeros =
    { c with constants := c.constants.map Value.unsignZero,
             protos := c.protos.map Chunk.unsignZeros } := by
  rw [Chunk.unsignZeros]
  simp

theorem isNil_record (fields : List (Nat × Option Item)) : (record fields).isNil = false := rfl

theorem chunkItem_spec (h : Heap) (levels : Nat) : ∀ c : Chunk, c.storable levels →
    ∃ i, chunkItem h c = .ok i ∧ i.isNil = false ∧
      (∀ k, levels ≤ k → readChunk k i = some (.ok c.unsignZeros)) ∧
      ∀ d, d + 2 * levels ≤ 28 → Readable d i := by
  induction levels with
  | zero => intro c hc; simp [Chunk.storable] at hc
  | succ n ih =>
    intro c hc
    simp only [Chunk.storable, Bool.and_eq_true, Bool.or_eq_true, decide_eq_true_eq,
      Array.all_eq_true', and_assoc] at hc
    obtain ⟨hversion, hname, hparams, hregisters, hncode, hlisted, hnspans, hspans, hnconstants,
      hconstants, hnnotifications, hnotifications, hnprotos, hprotos, hncaptures, hcaptures,
      hnlocals, hlocals, hnglobals, hglobals⟩ := hc
    -- the items of the constants and of the nested chunks, each with what it reads back as
    obtain ⟨cs, hcs, hcsrel⟩ := mapM_ok_of_forall (l := c.constants.toList)
      (P := fun v i => readConstant i = some (constantFields v) ∧ ∀ d, d < maxDepth → Readable d i)
      fun v hv => constantItem_spec h (hconstants v (Array.mem_toList_iff.mp hv))
    obtain ⟨ps, hps, hpsrel⟩ := mapM_ok_of_forall (l := c.protos.toList) (f := chunkItem h)
      (P := fun p i => i.isNil = false ∧
        (∀ k, n ≤ k → readChunk k i = some (.ok p.unsignZeros)) ∧
        ∀ d, d + 2 * n ≤ 28 → Readable d i)
      fun p hp => ih p (hprotos p (Array.mem_toList_iff.mp hp))
    refine ⟨?_, ?written, ?record, ?read, ?readable⟩
    case written =>
      rw [chunkItem]
      simp only [Array.toList_attach, List.mapM_subtype, List.unattach_attachWith, hcs, hps]
      rfl
    case record => rfl
    case read =>
      intro k hk
      obtain ⟨k, rfl⟩ : ∃ k', k = k' + 1 := ⟨k - 1, by omega⟩
      have hcode : c.code.toList.mapM (fun i => readNat 4294967295 (.nat i.word.toNat)) =
          some (c.code.toList.map fun i => i.word.toNat) := by
        refine mapM_eq_pure_map fun i _ => readNat_nat ?_
        have := i.word.toNat_lt
        omega
      have hspansread : c.spans.toList.mapM (fun s => readSpan (spanItem s)) =
          some c.spans.toList :=
        (mapM_eq_pure_map fun s hs => readSpan_spanItem (hspans s (Array.mem_toList_iff.mp hs))).trans
          (by simp)
      have hconstread : cs.mapM readConstant = some (c.constants.toList.map constantFields) :=
        mapM_of_forall₂ (hcsrel.imp fun _ _ h => h.1)
      have hnotes : (c.notifications.toList.map notificationItem).mapM readNotification =
          some c.notifications.toList :=
        mapM_map_some fun n hn =>
          readNotification_notificationItem (hnotifications n (Array.mem_toList_iff.mp hn))
      have hprotoitems : ps.mapM some = some ps :=
        (mapM_eq_pure_map fun _ _ => rfl).trans (by simp)
      have hprotoread : ps.mapM (fun p => if p.isNil then some (.error .missingChunk)
          else readChunk k p) = some (c.protos.toList.map fun p => .ok p.unsignZeros) :=
        mapM_of_forall₂ (hpsrel.imp fun p i h => by
          simp only [h.1, Bool.false_eq_true, ↓reduceIte, h.2.1 k (by omega)])
      have hcaps : (c.captures.toList.map fun u => record [(1, some (.ofString u.name)),
          (2, some (.bool u.inParent)), (3, some (.ofInt u.index))]).mapM readCapture =
          some c.captures.toList :=
        mapM_map_some fun u hu => readCapture_record (hcaptures u (Array.mem_toList_iff.mp hu))
      have hlocs : (c.locals.toList.map fun l => record [(1, some (.ofString l.name)),
          (2, some (.ofInt l.register)), (3, some (.ofInt l.startPc)),
          (4, some (.ofInt l.endPc))]).mapM readLocal = some c.locals.toList :=
        mapM_map_some fun l hl => readLocal_record (hlocals l (Array.mem_toList_iff.mp hl))
      have hglobs : (c.globals.toList.map Item.ofString).mapM readText = some c.globals.toList :=
        mapM_map_some fun s _ => readText_ofString s
      have hconstvalues : (c.constants.toList.map constantFields).mapM constantValue =
          pure (c.constants.toList.map Value.unsignZero) := by
        rw [List.mapM_map]
        exact mapM_eq_pure_map fun v hv =>
          constantValue_constantFields (hconstants v (Array.mem_toList_iff.mp hv))
      have hprotovalues : (c.protos.toList.map fun p =>
          (Except.ok p.unsignZeros : Except ImageError Chunk)).mapM id =
          pure (c.protos.toList.map Chunk.unsignZeros) := by
        rw [List.mapM_map]
        exact mapM_eq_pure_map fun _ _ => rfl
      have hv : c.version ≤ 65535 := Nat.le_trans hversion (by decide)
      have hpure (x : Chunk) : (pure x : Except ImageError Chunk) = .ok x := rfl
      have hconsts : (c.constants.toList.map Value.unsignZero).toArray =
          c.constants.map Value.unsignZero := by
        rw [← Array.toList_map, Array.toArray_toList]
      have hnested : (c.protos.toList.map Chunk.unsignZeros).toArray =
          c.protos.map Chunk.unsignZeros := by
        rw [← Array.toList_map, Array.toArray_toList]
      have hknown : ¬ supportedVersion < c.version := by omega
      rw [unsignZeros_eq]
      -- a chunk without a list of spans writes null for them, which reads as no spans
      cases hsl : c.spansListed
      · have hempty : c.spans = #[] := by simpa [hsl] using hlisted
        simp only [readChunk, always, Bool.false_eq_true, ↓reduceIte, List.map_cons, List.map_nil,
          canonicalKeys, Nat.lt_add_one, decide_true, Nat.reduceLT, Bool.and_self,
          readRecord_record, gt_iff_lt, Nat.toUInt32_eq, hpure, Option.pure_def,
          some_bind, field_written, List.lookup, Nat.reduceBEq, BEq.rfl,
          Option.join_some, elim_optList hprotoitems, Option.elim_some, readNat_nat hv,
          readText_ofString, readInt_ofInt hparams, readInt_ofInt hregisters, readList, fieldContent,
          List.mapM_map, Function.comp_def, hcode, Option.map_some, elim_optList hconstread,
          elim_optList hnotes, Array.toArray_toList, elim_optList hcaps, elim_optList hlocs,
          elim_optList hglobs, lookup_written_of_canonical, List.mapM_toArray, hconstvalues, map_pure,
          hconsts, pure_bind, List.map_toArray, List.map_map, UInt32.ofNat_toNat, List.map_id_fun',
          id_eq, hknown, hprotoread, hprotovalues, hnested, hempty]
      · simp only [readChunk, always, ↓reduceIte, List.map_cons, List.map_nil, canonicalKeys,
          Nat.lt_add_one, decide_true, Nat.reduceLT, Bool.and_self, readRecord_record, gt_iff_lt,
          Nat.toUInt32_eq, hpure, Option.pure_def, some_bind,
          field_written, List.lookup, Nat.reduceBEq, BEq.rfl, Option.join_some,
          elim_optList hprotoitems, Option.elim_some, readNat_nat hv, readText_ofString,
          readInt_ofInt hparams, readInt_ofInt hregisters, readList, fieldContent, List.mapM_map,
          Function.comp_def, hcode, Option.map_some, hspansread, Array.toArray_toList,
          elim_optList hconstread, elim_optList hnotes, elim_optList hcaps, elim_optList hlocs,
          elim_optList hglobs, lookup_written_of_canonical, List.mapM_toArray, hconstvalues, map_pure,
          hconsts, pure_bind, List.map_toArray, List.map_map, UInt32.ofNat_toNat, List.map_id_fun',
          id_eq, hknown, hprotoread, hprotovalues, hnested]
    case readable =>
      intro d hd
      have hmax : maxDepth = 32 := rfl
      apply readable_record (by omega) (by simp [canonicalKeys])
      simp only [List.forall_mem_cons, List.not_mem_nil, false_implies, implies_true, and_true]
      refine ⟨readable_always (Readable.nat ?_), readable_always (readable_ofString hname),
        readable_always (readable_ofInt hparams), readable_always (readable_ofInt hregisters),
        readable_always (Readable.array (by omega) (by simpa using hncode) ?_),
        readable_always ?_,
        readable_optList (by omega) (by simpa [← hcsrel.length_eq] using hnconstants)
          (forall_mem_of_forall₂ hcsrel fun _ _ h => h.2 _ (by omega)),
        readable_optList (by omega) (by simpa using hnnotifications) ?_,
        readable_optList (by omega) (by simpa [← hpsrel.length_eq] using hnprotos)
          (forall_mem_of_forall₂ hpsrel fun _ _ h => h.2.2 _ (by omega)),
        readable_optList (by omega) (by simpa using hncaptures) ?_,
        readable_optList (by omega) (by simpa using hnlocals) ?_,
        readable_optList (by omega) (by simpa using hnglobals) ?_⟩
      · have : c.version ≤ 1 := hversion
        simp only [Nat.pow_eq]
        omega
      · simp only [List.mem_map]
        rintro _ ⟨i, _, rfl⟩
        have := i.word.toNat_lt
        exact Readable.nat (by simp only [Nat.pow_eq]; omega)
      · split
        · refine Readable.array (by omega) (by simpa using hnspans) ?_
          simp only [List.mem_map, Array.mem_toList_iff]
          rintro _ ⟨s, hs, rfl⟩
          exact readable_spanItem (hspans s hs) (by omega)
        · exact Readable.null
      · simp only [List.mem_map, Array.mem_toList_iff]
        rintro _ ⟨e, he, rfl⟩
        exact readable_notificationItem (hnotifications e he) (by omega)
      · simp only [List.mem_map, Array.mem_toList_iff]
        rintro _ ⟨u, hu, rfl⟩
        exact readable_capture_record (hcaptures u hu) (by omega)
      · simp only [List.mem_map, Array.mem_toList_iff]
        rintro _ ⟨l, hl, rfl⟩
        exact readable_local_record (hlocals l hl) (by omega)
      · simp only [List.mem_map, Array.mem_toList_iff]
        rintro _ ⟨g, hg, rfl⟩
        exact readable_ofString (hglobals g hg)

/-! ## Unsigned zeros change neither the checks nor the image -/

theorem checkAt_unsignZeros (c : Chunk) (pc : Nat) (i : Instruction) :
    c.unsignZeros.checkAt pc i = c.checkAt pc i := by
  rw [unsignZeros_eq]
  simp [Chunk.checkAt, Chunk.jumpTarget]

theorem validate_unsignZeros (c : Chunk) : c.unsignZeros.validate = c.validate := by
  induction c using Chunk.unsignZeros.induct with
  | case1 c ih =>
    rw [Chunk.validate_eq, Chunk.validate_eq]
    simp only [checkAt_unsignZeros]
    have hnested : c.unsignZeros.protos.toList.findSome? Chunk.validate =
        c.protos.toList.findSome? Chunk.validate := by
      rw [unsignZeros_eq, Array.toList_map, List.findSome?_map]
      exact findSome?_congr_mem fun p hp => ih p (Array.mem_toList_iff.mp hp)
    rw [hnested, unsignZeros_eq]

theorem constantItem_unsignZero (h : Heap) (v : Value) :
    constantItem h v.unsignZero = constantItem h v := by
  have hzero : ((0 : Float) == 0) = true := by decide
  cases v with
  | num x =>
    by_cases hx : (x == 0) = true
    · simp [Value.unsignZero, constantItem, hx, hzero]
    · simp [Value.unsignZero, hx]
  | _ => rfl

theorem chunkItem_unsignZeros (h : Heap) (c : Chunk) :
    chunkItem h c.unsignZeros = chunkItem h c := by
  induction c using Chunk.unsignZeros.induct with
  | case1 c ih =>
    rw [chunkItem, chunkItem]
    simp only [Array.toList_attach, List.mapM_subtype, List.unattach_attachWith]
    have hconstants : c.unsignZeros.constants.toList.mapM (constantItem h) =
        c.constants.toList.mapM (constantItem h) := by
      rw [unsignZeros_eq, Array.toList_map, List.mapM_map]
      exact mapM_congr_mem fun v _ => constantItem_unsignZero h v
    have hnested : c.unsignZeros.protos.toList.mapM (chunkItem h) =
        c.protos.toList.mapM (chunkItem h) := by
      rw [unsignZeros_eq, Array.toList_map, List.mapM_map]
      exact mapM_congr_mem fun p hp => ih p (Array.mem_toList_iff.mp hp)
    rw [hconstants, hnested, unsignZeros_eq]

/-! ## Images -/

/-- Through any codec that reads back what it writes, an image of a valid, storable chunk tree
with at most 14 levels of chunks reads back as the tree with unsigned zeros, and writing that
tree gives the same image again. -/
theorem unmarshal_marshal (cbor : Codec) (hcodec : cbor.ReadsBack) (h : Heap) {c : Chunk}
    (hs : c.storable 14) (hv : c.validate = none) :
    ∃ bytes, marshal cbor h c = .ok bytes ∧ unmarshal cbor bytes = .ok c.unsignZeros ∧
      marshal cbor h c.unsignZeros = .ok bytes := by
  obtain ⟨i, hi, -, hread, hreadable⟩ := chunkItem_spec h 14 c hs
  have hone : cbor.decode (cbor.encode i) = some i := hcodec i (hreadable 0 (by decide))
  have hmarshal : marshal cbor h c = .ok (magic ++ cbor.encode i) := by
    rw [marshal, hi]
    rfl
  refine ⟨magic ++ cbor.encode i, hmarshal, ?_,
    by rw [marshal, chunkItem_unsignZeros, ← marshal, hmarshal]⟩
  simp [unmarshal, magic, hone, hread (maxDepth + 1) (by decide), validate_unsignZeros, hv]

/-- A chunk whose one constant is `-0`: through the canonical codec its image reads back with
the constant `0`. -/
theorem unmarshal_marshal_negZero :
    Codec.canonical.ReadsBack ∧
      Chunk.storable 14 { name := "m", registers := 1, constants := #[.num (-0)] } ∧
      Chunk.validate { name := "m", registers := 1, constants := #[.num (-0)] } = none ∧
      ∃ bytes,
        marshal .canonical default { name := "m", registers := 1, constants := #[.num (-0)] } =
          .ok bytes ∧
        unmarshal .canonical bytes =
          .ok (Chunk.unsignZeros { name := "m", registers := 1, constants := #[.num (-0)] }) ∧
        marshal .canonical default
          (Chunk.unsignZeros { name := "m", registers := 1, constants := #[.num (-0)] }) =
          .ok bytes :=
  ⟨Codec.canonical_readsBack, by decide +kernel, by decide +kernel,
    unmarshal_marshal .canonical Codec.canonical_readsBack default (by decide +kernel)
      (by decide +kernel)⟩

end ScriptMachine.Wire
