import ScriptMachine.Wire.Item
/-!
# Reading data items

`readOne` reads exactly one well-formed data item from a byte string, accepting every argument
width and indefinite-length strings, arrays and maps (closed by the break byte `ff`). It refuses
what is not well formed: a truncated item, a reserved argument width, an indefinite length on a
type that has none, a break outside an indefinite item, a two-byte simple value below 32, a
string chunk of another type, and bytes left after the item. It also refuses items nested more
than 32 deep and arrays or maps of more than 131072 elements. Arrays and maps each add a level;
a run of tags directly inside one another adds a level for every tag but the first.
-/

namespace ScriptMachine.Wire

def maxDepth : Nat := 32

def maxElements : Nat := 131072

def readNumber (k : Nat) (bs : List UInt8) : Option (Nat × List UInt8) :=
  if bs.length < k then none
  else some ((bs.take k).foldl (fun n b => n * 256 + b.toNat) 0, bs.drop k)

/-- The argument of a head with low bits `ai`: none for an indefinite length (`31`), an error
for the reserved widths `28` to `30`. -/
def readArgument (ai : Nat) (bs : List UInt8) : Option (Option Nat × List UInt8) :=
  if ai < 24 then some (some ai, bs)
  else if ai == 24 then (readNumber 1 bs).map fun (n, r) => (some n, r)
  else if ai == 25 then (readNumber 2 bs).map fun (n, r) => (some n, r)
  else if ai == 26 then (readNumber 4 bs).map fun (n, r) => (some n, r)
  else if ai == 27 then (readNumber 8 bs).map fun (n, r) => (some n, r)
  else if ai == 31 then some (none, bs)
  else none

/-- The value of a head of major type 7 (simple values and floats) with low bits `ai`. -/
def readSimple (ai : Nat) (bs : List UInt8) : Option (Item × List UInt8) :=
  if ai < 20 then some (.simple ai, bs)
  else if ai == 20 then some (.bool false, bs)
  else if ai == 21 then some (.bool true, bs)
  else if ai == 22 then some (.null, bs)
  else if ai == 23 then some (.undefined, bs)
  else if ai == 24 then match bs with
    | b :: r => if b.toNat < 32 then none else some (.simple b.toNat, r)
    | [] => none
  else if ai == 25 then (readNumber 2 bs).map fun (n, r) => (.float (Narrow.half.value n), r)
  else if ai == 26 then (readNumber 4 bs).map fun (n, r) => (.float (Narrow.single.value n), r)
  else if ai == 27 then (readNumber 8 bs).map fun (n, r) => (.float (Float.ofBits (UInt64.ofNat n)), r)
  else none

/-- The pieces of an indefinite-length string of major type `major`, up to the break. -/
def readChunks (major : Nat) : Nat → List UInt8 → Option (List (List UInt8) × List UInt8)
  | 0, _ => none
  | fuel + 1, bs => match bs with
    | [] => none
    | b :: r =>
      if b == 0xff then some ([], r)
      else if b.toNat / 32 != major then none
      else do
        let (len?, r) ← readArgument (b.toNat % 32) r
        let len ← len?
        if r.length < len then none
        let (more, rest) ← readChunks major fuel (r.drop len)
        pure (r.take len :: more, rest)

mutual

/-- One item at nesting depth `depth`, with the rest of the bytes. -/
def readItem : Nat → Nat → List UInt8 → Option (Item × List UInt8)
  | 0, _, _ => none
  | fuel + 1, depth, bs => match bs with
    | [] => none
    | b :: r =>
      let major := b.toNat / 32
      let ai := b.toNat % 32
      if major == 7 then readSimple ai r
      else do
        let (arg, r) ← readArgument ai r
        match major, arg with
        | 0, some n => pure (.nat n, r)
        | 1, some n => pure (.neg n, r)
        | 2, some n => if r.length < n then none else pure (.bytes (r.take n), r.drop n)
        | 2, none => (readChunks 2 fuel r).map fun (ps, r) => (.bytes ps.flatten, r)
        | 3, some n => if r.length < n then none else pure (.text (r.take n), r.drop n)
        | 3, none => (readChunks 3 fuel r).map fun (ps, r) => (.textPieces ps, r)
        | 4, some n =>
          if depth + 1 > maxDepth || n > maxElements then none
          else (readItems fuel (depth + 1) n r).map fun (xs, r) => (.array xs, r)
        | 4, none =>
          if depth + 1 > maxDepth then none
          else (readItemsToBreak fuel (depth + 1) 0 r).map fun (xs, r) => (.array xs, r)
        | 5, some n =>
          if depth + 1 > maxDepth || n > maxElements then none
          else (readEntries fuel (depth + 1) n r).map fun (es, r) => (.map es, r)
        | 5, none =>
          if depth + 1 > maxDepth then none
          else (readEntriesToBreak fuel (depth + 1) 0 r).map fun (es, r) => (.map es, r)
        | 6, some t =>
          -- a tag adds no level of its own; one tag directly inside another does
          let inner := if r.head?.any (·.toNat / 32 == 6) then depth + 1 else depth
          if inner > maxDepth then none
          else (readItem fuel inner r).map fun (i, r) => (.tagged t i, r)
        | _, _ => none

/-- `n` items. -/
def readItems : Nat → Nat → Nat → List UInt8 → Option (List Item × List UInt8)
  | 0, _, _, _ => none
  | _ + 1, _, 0, bs => some ([], bs)
  | fuel + 1, depth, n + 1, bs => do
    let (i, r) ← readItem fuel depth bs
    let (is, r) ← readItems fuel depth n r
    pure (i :: is, r)

/-- Items up to the break, `count` of them read already. -/
def readItemsToBreak : Nat → Nat → Nat → List UInt8 → Option (List Item × List UInt8)
  | 0, _, _, _ => none
  | fuel + 1, depth, count, bs => match bs with
    | 0xff :: r => some ([], r)
    | _ => do
      if count + 1 > maxElements then none
      let (i, r) ← readItem fuel depth bs
      let (is, r) ← readItemsToBreak fuel depth (count + 1) r
      pure (i :: is, r)

/-- `n` map entries. -/
def readEntries : Nat → Nat → Nat → List UInt8 → Option (List (Item × Item) × List UInt8)
  | 0, _, _, _ => none
  | _ + 1, _, 0, bs => some ([], bs)
  | fuel + 1, depth, n + 1, bs => do
    let (k, r) ← readItem fuel depth bs
    let (v, r) ← readItem fuel depth r
    let (es, r) ← readEntries fuel depth n r
    pure ((k, v) :: es, r)

/-- Map entries up to the break, `count` of them read already. -/
def readEntriesToBreak : Nat → Nat → Nat → List UInt8 → Option (List (Item × Item) × List UInt8)
  | 0, _, _, _ => none
  | fuel + 1, depth, count, bs => match bs with
    | 0xff :: r => some ([], r)
    | _ => do
      if count + 1 > maxElements then none
      let (k, r) ← readItem fuel depth bs
      let (v, r) ← readItem fuel depth r
      let (es, r) ← readEntriesToBreak fuel depth (count + 1) r
      pure ((k, v) :: es, r)

end

/-- The one item a byte string holds, with nothing after it. -/
def readOne (bs : List UInt8) : Option Item :=
  match readItem (4 * bs.length + 4) 0 bs with
  | some (i, []) => some i
  | _ => none

/-- A codec between items and bytes: the bytes written for an item, and the one item read from
a whole byte string, if it holds one the reader accepts. -/
structure Codec where
  encode : Item → List UInt8
  decode : List UInt8 → Option Item

def Codec.canonical : Codec := ⟨Item.encode, readOne⟩

end ScriptMachine.Wire
