import ScriptMachine.Wire.Read
import ScriptMachine.Bytecode.Chunk
import ScriptMachine.Value.Heap
/-!
# Chunk images

A chunk image is the magic `SBC1` followed by the encoding of the chunk tree's items by a
`Codec`. Each chunk is a map with integer keys 1 to 12 for its fields; empty lists and zero
fields are left out, so a `-0` constant reads back as `0`. Reading is strict about item types
and ranges, skips unknown keys, and validates the whole tree.
-/

namespace ScriptMachine.Wire

open Bytecode

def supportedVersion : Nat := 1

inductive ImageError where
  /-- A constant that has no image, with its type name. -/
  | unwritable (typeName : String)
  | badMagic
  /-- The items do not fit the chunk layout. -/
  | unreadable
  | newer (version : Nat)
  | unknownConstant (kind : Nat)
  /-- A nested chunk given as null, which leaves nothing to read. -/
  | missingChunk
  | invalid (text : String)
  deriving Inhabited, DecidableEq

def ImageError.text : ImageError → String
  | .unwritable t => "bytecode: " ++ t ++ " constant cannot be serialized"
  | .badMagic => "bytecode: invalid magic"
  | .unreadable => "bytecode: unmarshal chunk: cbor: items do not fit the chunk layout"
  | .newer v => s!"bytecode: version {v} is newer than supported version {supportedVersion}"
  | .unknownConstant k => s!"bytecode: unknown constant kind {k}"
  | .missingChunk => "runtime error: invalid memory address or nil pointer dereference"
  | .invalid t => "bytecode: invalid chunk: " ++ t

def ImageError.headline : ImageError → String
  | .unreadable => "bytecode: unmarshal chunk"
  | e => e.text

def magic : List UInt8 := [0x53, 0x42, 0x43, 0x31]

/-! ## Writing -/

def record (fields : List (Nat × Option Item)) : Item :=
  .map (fields.filterMap fun (k, v) => v.map fun v => (.nat k, v))

def always (i : Item) : Option Item := some i

def optInt (n : Int) : Option Item := if n == 0 then none else some (.ofInt n)

def optText (s : String) : Option Item := if s.isEmpty then none else some (.ofString s)

def optList (items : List Item) : Option Item := if items.isEmpty then none else some (.array items)

def spanItem (s : Span) : Item :=
  let pos (p : Position) := record [(1, always (.ofInt p.line)), (2, always (.ofInt p.column))]
  record [(1, always (pos s.start)), (2, always (pos s.stop))]

def notificationItem (n : Notification) : Item :=
  record [(1, always (.nat n.kind)), (2, always (spanItem n.span)), (3, optText n.name),
    (4, optInt n.storage), (5, optInt n.op), (6, optInt n.left), (7, optText n.leftName),
    (8, optInt n.right), (9, optText n.rightName), (10, optInt n.result), (11, optInt n.key),
    (12, optInt n.value), (13, optInt n.func), (14, optInt n.argc),
    (15, optList (n.tags.toList.map fun t =>
      record [(1, always (.ofString t.name)), (2, optList (t.args.toList.map Item.ofString)),
        (3, optList (t.values.toList.map Item.ofInt))]))]

/-- The image of a constant: numbers, strings, nil and booleans have one. -/
def constantItem (h : Heap) (v : Value) : Except ImageError Item :=
  let num (x : Float) : Option Item := if x == 0 then none else some (.float x)
  match v with
  | .num x => .ok (record [(1, always (.nat 0)), (2, num x)])
  | .str s => .ok (record [(1, always (.nat 1)), (3, optText s)])
  | .none => .ok (record [(1, always (.nat 2))])
  | .bool b => .ok (record [(1, always (.nat 3)), (2, num (if b then 1 else 0))])
  | _ => .error (.unwritable (h.typeName v))

/-- The image of a chunk tree; constants are read through the heap they live in. A chunk
that carries no list of spans writes null for them. -/
def chunkItem (h : Heap) (c : Chunk) : Except ImageError Item := do
  let constants ← c.constants.toList.mapM (constantItem h)
  let protos ← c.protos.attach.toList.mapM fun ⟨p, _⟩ => chunkItem h p
  pure (record [(1, always (.nat c.version)), (2, always (.ofString c.name)),
    (3, always (.ofInt c.params)), (4, always (.ofInt c.registers)),
    (5, always (.array (c.code.toList.map fun i => .nat i.word.toNat))),
    (6, always (if c.spansListed then .array (c.spans.toList.map spanItem) else .null)),
    (7, optList constants), (8, optList (c.notifications.toList.map notificationItem)),
    (9, optList protos),
    (10, optList (c.captures.toList.map fun u =>
      record [(1, always (.ofString u.name)), (2, always (.bool u.inParent)),
        (3, always (.ofInt u.index))])),
    (11, optList (c.locals.toList.map fun l =>
      record [(1, always (.ofString l.name)), (2, always (.ofInt l.register)),
        (3, always (.ofInt l.startPc)), (4, always (.ofInt l.endPc))])),
    (12, optList (c.globals.toList.map Item.ofString))])
termination_by c
decreasing_by
  have := Array.sizeOf_lt_of_mem ‹p ∈ c.protos›
  cases c
  simp_all
  omega

def marshal (cbor : Codec) (h : Heap) (c : Chunk) : Except ImageError (List UInt8) :=
  (chunkItem h c).map fun i => magic ++ cbor.encode i

/-! ## Reading -/

def bigEndianValue (b : List UInt8) : Nat := b.foldl (fun n x => n * 256 + x.toNat) 0

def textOf? : Item → Option String
  | .text b => String.fromUTF8? (ByteArray.mk b.toArray)
  | .textPieces ps =>
    (ps.mapM fun b => String.fromUTF8? (ByteArray.mk b.toArray)).map String.join
  | _ => none

/-- What a field reads from an item once its tags are looked through. The tags 0 to 3 must hold
what they announce: text (tag 0), an integer or a float (tag 1), bytes (tags 2 and 3). Tags 2 and
3 are big integers, so they stay; every other tag is looked through. -/
def fieldContent : Item → Option Item
  | .tagged 0 i => match i with
    | .text _ | .textPieces _ => fieldContent i
    | _ => none
  | .tagged 1 i => match i with
    | .nat _ | .neg _ | .float _ => fieldContent i
    | _ => none
  | .tagged 2 (.bytes b) => some (.tagged 2 (.bytes b))
  | .tagged 3 (.bytes b) => some (.tagged 3 (.bytes b))
  | .tagged 2 _ | .tagged 3 _ => none
  | .tagged _ i => fieldContent i
  | i => some i

/-- The integer an item gives an integer field: an integer, a simple value (as its number) or a
big integer; `none` inside for null and undefined, which leave the field at zero. -/
def integerOf (i : Item) : Option (Option Int) :=
  match fieldContent i with
  | some (.nat n) => some (some n)
  | some (.neg n) => some (some (-1 - (n : Int)))
  | some (.simple n) => some (some n)
  | some (.tagged 2 (.bytes b)) => some (some (bigEndianValue b))
  | some (.tagged 3 (.bytes b)) => some (some (-1 - (bigEndianValue b : Int)))
  | some .null | some .undefined => some none
  | _ => none

def readNat (bound : Nat) (i : Item) : Option Nat :=
  match integerOf i with
  | some (some n) => if 0 ≤ n && n ≤ bound then some n.toNat else none
  | some none => some 0
  | none => none

def readInt (i : Item) : Option Int :=
  match integerOf i with
  | some (some n) =>
    if -((Nat.pow 2 63 : Nat) : Int) ≤ n && n < ((Nat.pow 2 63 : Nat) : Int) then some n else none
  | some none => some 0
  | none => none

/-- A float field: floats, and integers from the signed and unsigned 64-bit ranges rounded to
the nearest float. -/
def readFloat (i : Item) : Option Float :=
  match fieldContent i with
  | some (.float x) => some x
  | _ => match integerOf i with
    | some (some n) =>
      if -((Nat.pow 2 63 : Nat) : Int) ≤ n && n < ((Nat.pow 2 64 : Nat) : Int) then
        some (Float.ofInt n)
      else none
    | some none => some 0
    | none => none

def readText (i : Item) : Option String :=
  match fieldContent i with
  | some .null | some .undefined => some ""
  | some t => textOf? t
  | _ => none

def readBool (i : Item) : Option Bool :=
  match fieldContent i with
  | some (.bool b) => some b
  | some .null | some .undefined => some false
  | _ => none

def readList {α : Type} (f : Item → Option α) (i : Item) : Option (Array α) :=
  match fieldContent i with
  | some (.array xs) => (xs.mapM f).map List.toArray
  | some .null | some .undefined => some #[]
  | _ => none

def keyNumber? (s : String) : Option Nat :=
  s.toNat?.bind fun n => if toString n == s then some n else none

/-- The field number a map key names, if any. Integer keys name the field of their number and
text keys the field whose number they spell; negative keys name none. A tagged key, a key of
another type, a negative key below the signed 64-bit range and malformed text are refused. -/
def keyOf (k : Item) : Option (Option Nat) :=
  match k with
  | .nat n => some (some n)
  | .neg n => if n < Nat.pow 2 63 then some none else none
  | .text _ | .textPieces _ => (textOf? k).map keyNumber?
  | _ => none

def Item.isNil : Item → Bool
  | .null | .undefined => true
  | _ => false

/-- The fields of a record, by key, each the first value given for it; null reads as a record
with no fields. The values of keys naming no field, and of repeated keys, are passed over
unread. -/
def readRecord (i : Item) : Option (List (Nat × Item)) :=
  match fieldContent i with
  | some (.map entries) =>
    entries.foldlM (fun (acc : List (Nat × Item)) (k, v) => do
      match ← keyOf k with
      | some n => pure (if acc.any (·.1 == n) then acc else acc ++ [(n, v)])
      | none => pure acc) []
  | some .null | some .undefined => some []
  | _ => none

def field {α : Type} (fs : List (Nat × Item)) (k : Nat) (f : Item → Option α) (zero : α) :
    Option α :=
  match fs.lookup k with
  | some i => f i
  | none => some zero

def readPosition (i : Item) : Option Position := do
  let fs ← readRecord i
  pure ⟨← field fs 1 readInt 0, ← field fs 2 readInt 0⟩

def readSpan (i : Item) : Option Span := do
  let fs ← readRecord i
  pure ⟨← field fs 1 readPosition ⟨0, 0⟩, ← field fs 2 readPosition ⟨0, 0⟩⟩

def readTag (i : Item) : Option TagDesc := do
  let fs ← readRecord i
  pure { name := ← field fs 1 readText "", args := ← field fs 2 (readList readText) #[],
         values := ← field fs 3 (readList readInt) #[] }

def readNotification (i : Item) : Option Notification := do
  let fs ← readRecord i
  let int (k : Nat) := field fs k readInt 0
  let text (k : Nat) := field fs k readText ""
  pure { kind := ← field fs 1 (readNat 255) 0, span := ← field fs 2 readSpan Span.empty,
         name := ← text 3, storage := ← int 4, op := ← int 5, left := ← int 6,
         leftName := ← text 7, right := ← int 8, rightName := ← text 9, result := ← int 10,
         key := ← int 11, value := ← int 12, func := ← int 13, argc := ← int 14,
         tags := ← field fs 15 (readList readTag) #[] }

def readConstant (i : Item) : Option (Nat × Float × String) := do
  let fs ← readRecord i
  pure (← field fs 1 (readNat 255) 0, ← field fs 2 readFloat 0, ← field fs 3 readText "")

/-- The value of a constant record, for the four known kinds. -/
def constantValue : Nat × Float × String → Except ImageError Value
  | (0, x, _) => .ok (.num x)
  | (1, _, s) => .ok (.str s)
  | (2, _, _) => .ok .none
  | (3, x, _) => .ok (.bool (x != 0))
  | (k, _, _) => .error (.unknownConstant k)

def readCapture (i : Item) : Option Capture := do
  let fs ← readRecord i
  pure { name := ← field fs 1 readText "", inParent := ← field fs 2 readBool false,
         index := ← field fs 3 readInt 0 }

def readLocal (i : Item) : Option LocalVar := do
  let fs ← readRecord i
  pure { name := ← field fs 1 readText "", register := ← field fs 2 readInt 0,
         startPc := ← field fs 3 readInt 0, endPc := ← field fs 4 readInt 0 }

/-- Reads a chunk record nested at most `fuel` deep. The outer result fails when the items do
not fit the layout anywhere in the tree; the inner one carries the first later check that
fails: the version, then the constants, then the nested chunks in order (a null nested chunk
fails when it is reached). -/
def readChunk : Nat → Item → Option (Except ImageError Chunk)
  | 0, _ => none
  | fuel + 1, i => do
    let fs ← readRecord i
    let protoItems ← field fs 9 (readList some) #[]
    let protos ← protoItems.toList.mapM fun p =>
      if p.isNil then some (.error .missingChunk) else readChunk fuel p
    let version ← field fs 1 (readNat 65535) 0
    let name ← field fs 2 readText ""
    let params ← field fs 3 readInt 0
    let registers ← field fs 4 readInt 0
    let code ← field fs 5 (readList (readNat 4294967295)) #[]
    let spans ← field fs 6 (readList readSpan) #[]
    let spansListed := match fs.lookup 6 with
      | some i => match fieldContent i with
        | some (.array _) => true
        | _ => false
      | none => false
    let constants ← field fs 7 (readList readConstant) #[]
    let notifications ← field fs 8 (readList readNotification) #[]
    let captures ← field fs 10 (readList readCapture) #[]
    let locals ← field fs 11 (readList readLocal) #[]
    let globals ← field fs 12 (readList readText) #[]
    pure do
      if version > supportedVersion then throw (.newer version)
      let constants ← constants.mapM constantValue
      let protos ← protos.mapM id
      pure { version := version, name := name, params := params, registers := registers,
             code := code.map fun w => ⟨w.toUInt32⟩, spans := spans, spansListed := spansListed,
             constants := constants,
             notifications := notifications, protos := protos.toArray, globals := globals,
             captures := captures, locals := locals }

def unmarshal (cbor : Codec) (bytes : List UInt8) : Except ImageError Chunk :=
  if bytes.take 4 != magic then .error .badMagic
  else match (cbor.decode (bytes.drop 4)).bind (readChunk (maxDepth + 1)) with
    | none => .error .unreadable
    | some (.error e) => .error e
    | some (.ok c) => match c.validate with
      | some t => .error (.invalid t)
      | none => .ok c

end ScriptMachine.Wire
