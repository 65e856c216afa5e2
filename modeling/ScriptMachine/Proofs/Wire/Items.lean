import ScriptMachine.Wire.Read
import ScriptMachine.Proofs.Wire.Floats
/-!
# Reading back what was written

The reader takes back every item the writer produces, as long as the item stays within the
reader's limits (`Item.Readable`): integers and text lengths of at most 64 bits, arrays and maps
of at most `maxElements` members nested at most `maxDepth` deep, and maps whose entries were
given in canonical order, since writing sorts them. The main statement, `readItem_encode`, is
stated over any bytes that follow and over any fuel of at least twice the item's length, and
gives `readOne_encode` for a whole byte string: the canonical codec has the law
`Codec.ReadsBack` that chunk images rest on.
-/

namespace ScriptMachine.Wire

/-! ## Big-endian numbers -/

theorem bigEndian_succ (k n : Nat) :
    bigEndian (k + 1) n = UInt8.ofNat (n / Nat.pow 256 k % 256) :: bigEndian k n := by
  simp [bigEndian, List.range_succ]

@[simp] theorem length_bigEndian (k n : Nat) : (bigEndian k n).length = k := by
  simp [bigEndian]

theorem foldl_bigEndian (k n acc : Nat) :
    (bigEndian k n).foldl (fun n b => n * 256 + b.toNat) acc =
      acc * Nat.pow 256 k + n % Nat.pow 256 k := by
  induction k generalizing acc with
  | zero => simp [bigEndian, Nat.mod_one]
  | succ k ih =>
    rw [bigEndian_succ, List.foldl_cons, ih]
    simp only [Nat.pow_eq]
    -- the new digit is the byte of `n` just above the `k` bytes already folded in
    have hdigit : (UInt8.ofNat (n / 256 ^ k % 256)).toNat = n / 256 ^ k % 256 := by simp
    rw [hdigit, Nat.pow_succ, Nat.mod_mul, Nat.add_mul, Nat.mul_comm (n / 256 ^ k % 256),
      Nat.mul_assoc acc 256, Nat.mul_comm 256 (256 ^ k)]
    omega

theorem readNumber_bigEndian {k n : Nat} (h : n < Nat.pow 256 k) (rest : List UInt8) :
    readNumber k (bigEndian k n ++ rest) = some (n, rest) := by
  have hlen : (bigEndian k n ++ rest).length ≥ k := by simp
  simp only [readNumber, show ¬(bigEndian k n ++ rest).length < k by omega, if_false,
    List.take_left' (length_bigEndian k n), List.drop_left' (length_bigEndian k n),
    foldl_bigEndian, Nat.mod_eq_of_lt h, Nat.zero_mul, Nat.zero_add]

/-! ## Heads -/

private theorem first_byte {major ai : Nat} (hm : major < 7) (hai : ai < 32) :
    (UInt8.ofNat (major * 32 + ai)).toNat / 32 = major ∧
      (UInt8.ofNat (major * 32 + ai)).toNat % 32 = ai := by
  have h : (UInt8.ofNat (major * 32 + ai)).toNat = (major * 32 + ai) % 256 := by simp
  omega

theorem head_cons {major n : Nat} (hm : major < 7) (hn : n < Nat.pow 2 64) (rest : List UInt8) :
    ∃ b t, head major n = b :: t ∧ b.toNat / 32 = major ∧
      readArgument (b.toNat % 32) (t ++ rest) = some (some n, rest) := by
  simp only [head]
  split_ifs with h24 h256 h65536 h32
  · obtain ⟨hmaj, hai⟩ := first_byte hm (show n < 32 by omega)
    exact ⟨_, [], rfl, hmaj, by rw [hai]; simp [readArgument, h24]⟩
  · obtain ⟨hmaj, hai⟩ := first_byte hm (show 24 < 32 by omega)
    refine ⟨_, [UInt8.ofNat n], rfl, hmaj, ?_⟩
    rw [hai]
    simp [readArgument, readNumber]
    omega
  · obtain ⟨hmaj, hai⟩ := first_byte hm (show 25 < 32 by omega)
    refine ⟨_, _, rfl, hmaj, ?_⟩
    rw [hai]
    simp [readArgument, readNumber_bigEndian (show n < Nat.pow 256 2 by simp only [Nat.pow_eq]; omega)]
  · obtain ⟨hmaj, hai⟩ := first_byte hm (show 26 < 32 by omega)
    refine ⟨_, _, rfl, hmaj, ?_⟩
    rw [hai]
    simp [readArgument, readNumber_bigEndian (show n < Nat.pow 256 4 by simp only [Nat.pow_eq]; omega)]
  · obtain ⟨hmaj, hai⟩ := first_byte hm (show 27 < 32 by omega)
    refine ⟨_, _, rfl, hmaj, ?_⟩
    simp only [Nat.pow_eq] at hn
    rw [hai]
    simp [readArgument, readNumber_bigEndian (show n < Nat.pow 256 8 by simp only [Nat.pow_eq]; omega)]

/-! ## Floats -/

theorem floatBytes_cons (x : Float) (rest : List UInt8) :
    ∃ b t, floatBytes x = b :: t ∧ b.toNat / 32 = 7 ∧
      readSimple (b.toNat % 32) (t ++ rest) = some (.float x, rest) := by
  unfold floatBytes
  split_ifs with hnan hhalf hsingle
  · refine ⟨0xf9, [0x7e, 0x00], rfl, rfl, ?_⟩
    have hx : x = Float.ofBits 0x7FF8000000000000 := by
      rw [← toBits_of_isNaN hnan, ofBits_toBits]
    have hvalue : Narrow.half.value 32256 = Float.ofBits 0x7FF8000000000000 := rfl
    simp [readSimple, readNumber, hvalue, hx]
  · refine ⟨0xf9, _, rfl, rfl, ?_⟩
    have hlt := Narrow.half.narrow_lt (by decide) x
    simp [readSimple, readNumber_bigEndian (show Narrow.half.narrow x < Nat.pow 256 2 from hlt),
      Narrow.value_narrow _ hhalf]
  · refine ⟨0xfa, _, rfl, rfl, ?_⟩
    have hlt := Narrow.single.narrow_lt (by decide) x
    simp [readSimple,
      readNumber_bigEndian (show Narrow.single.narrow x < Nat.pow 256 4 from hlt),
      Narrow.value_narrow _ hsingle]
  · refine ⟨0xfb, _, rfl, rfl, ?_⟩
    have hlt : x.toBits.toNat < Nat.pow 256 8 := x.toBits.toNat_lt
    simp [readSimple, readNumber_bigEndian hlt, ofBits_toBits]

/-! ## Items -/

namespace Item

@[simp] theorem encodeAll_eq_map (items : List Item) : encodeAll items = items.map encode := by
  induction items with
  | nil => simp [encodeAll]
  | cons i is ih => simp [encodeAll, ih]

@[simp] theorem encodeEntries_eq_map (entries : List (Item × Item)) :
    encodeEntries entries = entries.map fun e => (e.1.encode, e.2.encode) := by
  induction entries with
  | nil => simp [encodeEntries]
  | cons e es ih => simp [encodeEntries, ih]

theorem head_ne_nil (major n : Nat) : head major n ≠ [] := by
  unfold head
  split_ifs <;> simp

theorem floatBytes_ne_nil (x : Float) : floatBytes x ≠ [] := by
  unfold floatBytes
  split_ifs <;> simp

theorem encode_length_pos (i : Item) : 0 < i.encode.length := by
  rw [List.length_pos_iff]
  cases i <;> simp [encode, head_ne_nil, floatBytes_ne_nil]
  all_goals split_ifs <;> simp

/-- The items the reader takes back as they were written, read at nesting depth `d`: integers
and strings whose arguments fit the 64 bits a head can carry, arrays and maps of at most
`maxElements` members that open a level below `maxDepth` and hold readable members, and maps
whose entries are already in canonical order, since writing sorts them. -/
inductive Readable : Nat → Item → Prop
  | nat {d n : Nat} : n < Nat.pow 2 64 → Readable d (.nat n)
  | neg {d n : Nat} : n < Nat.pow 2 64 → Readable d (.neg n)
  | bytes {d : Nat} {b : List UInt8} : b.length < Nat.pow 2 64 → Readable d (.bytes b)
  | text {d : Nat} {b : List UInt8} : b.length < Nat.pow 2 64 → Readable d (.text b)
  | array {d : Nat} {items : List Item} : d < maxDepth → items.length ≤ maxElements →
      (∀ i ∈ items, Readable (d + 1) i) → Readable d (.array items)
  | map {d : Nat} {entries : List (Item × Item)} : d < maxDepth →
      entries.length ≤ maxElements → (∀ e ∈ entries, Readable (d + 1) e.1) →
      (∀ e ∈ entries, Readable (d + 1) e.2) →
      (encodeEntries entries).Pairwise (fun a b => keyLe a.1 b.1) → Readable d (.map entries)
  | bool {d : Nat} (b : Bool) : Readable d (.bool b)
  | null {d : Nat} : Readable d .null
  | undefined {d : Nat} : Readable d .undefined
  | float {d : Nat} (x : Float) : Readable d (.float x)

end Item

/-! ## Reading items back -/

section ReadBack

open Item

variable {d : Nat}

theorem readItems_encode {items : List Item}
    (h : ∀ i ∈ items, ∀ (fuel : Nat) (rest : List UInt8), 2 * i.encode.length ≤ fuel →
      readItem fuel d (i.encode ++ rest) = some (i, rest))
    (fuel : Nat) (rest : List UInt8) (hf : 2 * (items.map encode).flatten.length < fuel) :
    readItems fuel d items.length ((items.map encode).flatten ++ rest) = some (items, rest) := by
  induction items generalizing fuel with
  | nil =>
    obtain ⟨f, rfl⟩ : ∃ f, fuel = f + 1 := ⟨fuel - 1, by omega⟩
    simp [readItems]
  | cons i is ih =>
    obtain ⟨f, rfl⟩ : ∃ f, fuel = f + 1 := ⟨fuel - 1, by omega⟩
    have hpos := encode_length_pos i
    simp only [List.map_cons, List.flatten_cons, List.length_append] at hf
    have hi := h i List.mem_cons_self f (List.flatten (is.map encode) ++ rest) (by omega)
    have his := ih (fun j hj => h j (List.mem_cons_of_mem i hj)) f (by omega)
    simp [readItems, List.append_assoc, hi, his]

theorem readEntries_encode {entries : List (Item × Item)}
    (h : ∀ e ∈ entries, ∀ (fuel : Nat) (rest : List UInt8),
      (2 * e.1.encode.length ≤ fuel → readItem fuel d (e.1.encode ++ rest) = some (e.1, rest)) ∧
      (2 * e.2.encode.length ≤ fuel → readItem fuel d (e.2.encode ++ rest) = some (e.2, rest)))
    (fuel : Nat) (rest : List UInt8)
    (hf : 2 * (entries.map fun e => e.1.encode ++ e.2.encode).flatten.length < fuel) :
    readEntries fuel d entries.length
      ((entries.map fun e => e.1.encode ++ e.2.encode).flatten ++ rest) = some (entries, rest) := by
  induction entries generalizing fuel with
  | nil =>
    obtain ⟨f, rfl⟩ : ∃ f, fuel = f + 1 := ⟨fuel - 1, by omega⟩
    simp [readEntries]
  | cons e es ih =>
    obtain ⟨f, rfl⟩ : ∃ f, fuel = f + 1 := ⟨fuel - 1, by omega⟩
    have hk := encode_length_pos e.1
    have hv := encode_length_pos e.2
    simp only [List.map_cons, List.flatten_cons, List.length_append] at hf
    let tail := (es.map fun e => e.1.encode ++ e.2.encode).flatten ++ rest
    have hkey := (h e List.mem_cons_self f (e.2.encode ++ tail)).1 (by omega)
    have hval := (h e List.mem_cons_self f tail).2 (by omega)
    have hes := ih (fun e' he' => h e' (List.mem_cons_of_mem e he')) f (by omega)
    simp [readEntries, List.append_assoc, hkey, hval, hes, tail]

/-- Every readable item reads back as itself, whatever bytes follow, with fuel for twice
its bytes. The induction follows `Readable`; arrays and maps read their members through
`readItems_encode` and `readEntries_encode`, whose hypotheses are the induction's. -/
theorem readItem_encode {i : Item} (h : Readable d i) (fuel : Nat) (rest : List UInt8)
    (hf : 2 * i.encode.length ≤ fuel) : readItem fuel d (i.encode ++ rest) = some (i, rest) := by
  obtain ⟨f, rfl⟩ : ∃ f, fuel = f + 1 := ⟨fuel - 1, by have := encode_length_pos i; omega⟩
  induction h generalizing f rest with
  | nat hn =>
    obtain ⟨b, t, hhead, hmaj, harg⟩ := head_cons (by decide : 0 < 7) hn rest
    simp [encode, hhead, readItem, hmaj, harg]
  | neg hn =>
    obtain ⟨b, t, hhead, hmaj, harg⟩ := head_cons (by decide : 1 < 7) hn rest
    simp [encode, hhead, readItem, hmaj, harg]
  | @bytes d b hn =>
    obtain ⟨c, t, hhead, hmaj, harg⟩ := head_cons (by decide : 2 < 7) hn (b ++ rest)
    simp [encode, hhead, readItem, hmaj, harg]
  | @text d b hn =>
    obtain ⟨c, t, hhead, hmaj, harg⟩ := head_cons (by decide : 3 < 7) hn (b ++ rest)
    simp [encode, hhead, readItem, hmaj, harg]
  | @array d items hd hn _ ih =>
    have hitems : ∀ i ∈ items, ∀ fuel rest, 2 * i.encode.length ≤ fuel →
        readItem fuel (d + 1) (i.encode ++ rest) = some (i, rest) := by
      intro i hi fuel rest hfuel
      obtain ⟨g, rfl⟩ : ∃ g, fuel = g + 1 := ⟨fuel - 1, by have := encode_length_pos i; omega⟩
      exact ih i hi rest g hfuel
    have hlen : items.length < Nat.pow 2 64 := by
      simp only [maxElements] at hn
      simp only [Nat.pow_eq]
      omega
    obtain ⟨b, t, hhead, hmaj, harg⟩ :=
      head_cons (by decide : 4 < 7) hlen ((items.map encode).flatten ++ rest)
    simp only [encode, encodeAll_eq_map, hhead, List.cons_append, List.length_cons,
      List.length_append] at hf ⊢
    have hread := readItems_encode hitems f rest (by omega)
    simp [readItem, hmaj, harg, hread, show ¬ d + 1 > maxDepth by omega,
      show ¬ items.length > maxElements by omega]
  | @map d entries hd hn _ _ hsorted ihk ihv =>
    have hentries : ∀ e ∈ entries, ∀ fuel rest,
        (2 * e.1.encode.length ≤ fuel → readItem fuel (d + 1) (e.1.encode ++ rest) = some (e.1, rest)) ∧
        (2 * e.2.encode.length ≤ fuel → readItem fuel (d + 1) (e.2.encode ++ rest) = some (e.2, rest)) := by
      intro e he fuel rest
      constructor
      · intro hfuel
        obtain ⟨g, rfl⟩ : ∃ g, fuel = g + 1 := ⟨fuel - 1, by have := encode_length_pos e.1; omega⟩
        exact ihk e he rest g hfuel
      · intro hfuel
        obtain ⟨g, rfl⟩ : ∃ g, fuel = g + 1 := ⟨fuel - 1, by have := encode_length_pos e.2; omega⟩
        exact ihv e he rest g hfuel
    have hlen : entries.length < Nat.pow 2 64 := by
      simp only [maxElements] at hn
      simp only [Nat.pow_eq]
      omega
    obtain ⟨b, t, hhead, hmaj, harg⟩ := head_cons (by decide : 5 < 7) hlen
      ((entries.map fun e => e.1.encode ++ e.2.encode).flatten ++ rest)
    -- the entries were given in canonical order, so sorting them leaves them in place
    simp only [encode] at hf ⊢
    rw [List.mergeSort_of_pairwise hsorted] at hf ⊢
    simp only [encodeEntries_eq_map, List.map_map, Function.comp_def, hhead, List.cons_append,
      List.length_cons, List.length_append] at hf ⊢
    have hread := readEntries_encode hentries f rest (by omega)
    simp [readItem, hmaj, harg, hread, show ¬ d + 1 > maxDepth by omega,
      show ¬ entries.length > maxElements by omega]
  | bool b => cases b <;> simp [encode, readItem, readSimple]
  | null => simp [encode, readItem, readSimple]
  | undefined => simp [encode, readItem, readSimple]
  | float x =>
    obtain ⟨b, t, hbytes, hmaj, hsimple⟩ := floatBytes_cons x rest
    simp [encode, hbytes, readItem, hmaj, hsimple]

/-- A whole byte string holding one readable item, opened at the top level, reads as it. -/
theorem readOne_encode {i : Item} (h : Readable 0 i) : readOne i.encode = some i := by
  have hread := readItem_encode h (4 * i.encode.length + 4) [] (by omega)
  rw [List.append_nil] at hread
  simp [readOne, hread]

end ReadBack

/-- A codec reads back every item within the reader's limits that it writes. -/
def Codec.ReadsBack (cbor : Codec) : Prop :=
  ∀ i, Item.Readable 0 i → cbor.decode (cbor.encode i) = some i

theorem Codec.canonical_readsBack : Codec.canonical.ReadsBack := fun _ h => readOne_encode h

end ScriptMachine.Wire
