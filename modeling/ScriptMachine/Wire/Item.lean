import ScriptMachine.Wire.Float
/-!
# Binary data items

Compiled chunks travel as a tree of binary data items: unsigned and negative integers, byte and
text strings, arrays, maps with item keys, tagged items, simple values and floats. Every item
starts with a head byte holding a major type (its top three bits) and a short argument (its low
five bits); arguments of 24 and up announce 1, 2, 4 or 8 argument bytes, big-endian.
-/

namespace ScriptMachine.Wire

/-- A data item. Text strings keep their UTF-8 bytes as read, so malformed text can be told
apart from well-formed text where it matters. -/
inductive Item where
  | nat (n : Nat)
  /-- The negative integer `-1 - n`. -/
  | neg (n : Nat)
  | bytes (b : List UInt8)
  | text (b : List UInt8)
  /-- A text string of indefinite length, as its pieces; each piece must be UTF-8 on its own. -/
  | textPieces (pieces : List (List UInt8))
  | array (items : List Item)
  | map (entries : List (Item × Item))
  | tagged (tag : Nat) (item : Item)
  | bool (b : Bool)
  | null
  | undefined
  /-- A simple value other than the booleans, null and undefined. -/
  | simple (n : Nat)
  | float (x : Float)
  deriving Inhabited

namespace Item

def ofString (s : String) : Item := .text s.toUTF8.toList

def ofInt (n : Int) : Item := if n < 0 then .neg (-1 - n).toNat else .nat n.toNat

end Item

def bigEndian (k n : Nat) : List UInt8 :=
  (List.range k).reverse.map fun i => UInt8.ofNat (n / Nat.pow 256 i % 256)

/-- The head of an item of major type `major` with argument `n`, in the fewest bytes. -/
def head (major n : Nat) : List UInt8 :=
  let first (ai : Nat) : UInt8 := UInt8.ofNat (major * 32 + ai)
  if n < 24 then [first n]
  else if n < 256 then [first 24, UInt8.ofNat n]
  else if n < 65536 then first 25 :: bigEndian 2 n
  else if n < 4294967296 then first 26 :: bigEndian 4 n
  else first 27 :: bigEndian 8 n

def floatBytes (x : Float) : List UInt8 :=
  if x.isNaN then [0xf9, 0x7e, 0x00]
  else if Narrow.half.holds x then 0xf9 :: bigEndian 2 (Narrow.half.narrow x)
  else if Narrow.single.holds x then 0xfa :: bigEndian 4 (Narrow.single.narrow x)
  else 0xfb :: bigEndian 8 x.toBits.toNat

def bytesLe : List UInt8 → List UInt8 → Bool
  | [], _ => true
  | _ :: _, [] => false
  | a :: as, b :: bs => a < b || (a == b && bytesLe as bs)

def keyLe (a b : List UInt8) : Bool :=
  a.length < b.length || (a.length == b.length && bytesLe a b)

mutual

def Item.encode : Item → List UInt8
  | .nat n => head 0 n
  | .neg n => head 1 n
  | .bytes b => head 2 b.length ++ b
  | .text b => head 3 b.length ++ b
  | .textPieces ps => head 3 ps.flatten.length ++ ps.flatten
  | .array items => head 4 items.length ++ (Item.encodeAll items).flatten
  | .map entries =>
    let sorted := (Item.encodeEntries entries).mergeSort fun a b => keyLe a.1 b.1
    head 5 entries.length ++ (sorted.map fun (k, v) => k ++ v).flatten
  | .tagged t i => head 6 t ++ i.encode
  | .bool b => [if b then 0xf5 else 0xf4]
  | .null => [0xf6]
  | .undefined => [0xf7]
  | .simple n => if n < 24 then [UInt8.ofNat (224 + n)] else [0xf8, UInt8.ofNat n]
  | .float x => floatBytes x

def Item.encodeAll : List Item → List (List UInt8)
  | [] => []
  | i :: is => i.encode :: Item.encodeAll is

def Item.encodeEntries : List (Item × Item) → List (List UInt8 × List UInt8)
  | [] => []
  | (k, v) :: rest => (k.encode, v.encode) :: Item.encodeEntries rest

end

end ScriptMachine.Wire
