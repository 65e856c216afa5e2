import ScriptMachine.Bytecode.Chunk
/-!
# The heap

Lists, tuples, dicts and closures live on a heap and are named by location, so that two
references to one list see each other's changes and equality can tell an object from a copy.

A dict keeps its keys and values in insertion order, with an index from each key's hash key
(`Key`) to its position. The hash key identifies keys that are equal for lookup: truth values and
numbers by their number (so `True` and `1` are one key, `0` and `-0` two, all NaNs one), texts by
content, tuples by their elements' keys, progressions by their fields, functions by identity.
-/

namespace ScriptMachine

open Bytecode

inductive Key where
  | none
  | num (bits : UInt64)
  | str (s : String)
  | tuple (items : List Key)
  | range (r : Progression)
  | builtin (name : String)
  | closure (loc : Nat)
  deriving Repr, Inhabited

mutual

def Key.beq : Key → Key → Bool
  | .none, .none => true
  | .num a, .num b => a == b
  | .str a, .str b => a == b
  | .tuple as, .tuple bs => Key.beqAll as bs
  | .range a, .range b => a == b
  | .builtin a, .builtin b => a == b
  | .closure a, .closure b => a == b
  | _, _ => false

def Key.beqAll : List Key → List Key → Bool
  | [], [] => true
  | a :: as, b :: bs => Key.beq a b && Key.beqAll as bs
  | _, _ => false

end

instance : BEq Key := ⟨Key.beq⟩

/-- An insertion-ordered map: the keys as first given and their values, in insertion order, and
an index from the hash key of each key to its position. -/
structure Dict where
  keys : Array Value := #[]
  vals : Array Value := #[]
  index : List (Key × Nat) := []
  deriving Inhabited

namespace Dict

def find? (d : Dict) (k : Key) : Option Nat := d.index.lookup k

def get? (d : Dict) (k : Key) : Option Value := (d.find? k).bind fun i => d.vals[i]?

def insert (d : Dict) (k : Key) (key value : Value) : Dict :=
  match d.find? k with
  | some i => { d with vals := d.vals.setIfInBounds i value }
  | none => { keys := d.keys.push key, vals := d.vals.push value,
              index := (k, d.keys.size) :: d.index }

def size (d : Dict) : Nat := d.keys.size

def pairs (d : Dict) : List (Value × Value) := d.keys.toList.zip d.vals.toList

end Dict

/-- A function value made by running a `CLOSURE` instruction: the code, the cells of its captured
variables, and the global names its module was linked with. -/
structure Closure where
  proto : Chunk
  captures : Array Nat
  globals : Array String
  deriving Inhabited

inductive Obj where
  | list (items : Array Value)
  | tuple (items : Array Value)
  | dict (d : Dict)
  | closure (c : Closure)
  deriving Inhabited

structure Heap where
  objects : Array Obj := #[]
  deriving Inhabited

namespace Heap

def alloc (h : Heap) (o : Obj) : Value × Heap := (.ref h.objects.size, ⟨h.objects.push o⟩)

def get? (h : Heap) (loc : Nat) : Option Obj := h.objects[loc]?

def set (h : Heap) (loc : Nat) (o : Obj) : Heap := ⟨h.objects.set! loc o⟩

def depth (h : Heap) : Nat := 1000000000 + h.objects.size + 1

def objOf? (h : Heap) : Value → Option Obj
  | .ref loc => h.get? loc
  | _ => none

/-- The object kind number: 0 text, 1 list, 2 tuple, 3 dict, 4 progression, 5 function. -/
def objectKind? (h : Heap) : Value → Option Nat
  | .str _ => some 0
  | .range _ => some 4
  | .builtin _ => some 5
  | .ref loc => match h.get? loc with
    | some (.list _) => some 1
    | some (.tuple _) => some 2
    | some (.dict _) => some 3
    | some (.closure _) => some 5
    | none => none
  | _ => none

def objectKindName (n : Nat) : String :=
  match n with
  | 0 => "str"
  | 1 => "list"
  | 2 => "tuple"
  | 3 => "dict"
  | 4 => "range"
  | 5 => "function"
  | _ => "object"

def typeName (h : Heap) (v : Value) : String :=
  match v with
  | .none => "NoneType"
  | .bool _ => "bool"
  | .num _ => "number"
  | _ => objectKindName ((h.objectKind? v).getD 6)

def items? (h : Heap) (v : Value) : Option (Array Value) :=
  match h.objOf? v with
  | some (.list xs) | some (.tuple xs) => some xs
  | _ => none

def dict? (h : Heap) (v : Value) : Option Dict :=
  match h.objOf? v with
  | some (.dict d) => some d
  | _ => none

def functionName? (h : Heap) (v : Value) : Option String :=
  match v with
  | .builtin n => some n
  | .ref loc => match h.get? loc with
    | some (.closure c) => some c.proto.name
    | _ => none
  | _ => none

/-- Truth testing: nothing, zero, empty texts and containers and empty progressions are false;
NaN and every function are true. -/
def truthy (h : Heap) (v : Value) : Bool :=
  match v with
  | .none => false
  | .bool b => b
  | .num x => x != 0
  | .str s => !s.isEmpty
  | .range r => r.length > 0
  | .builtin _ => true
  | .ref loc => match h.get? loc with
    | some (.list xs) | some (.tuple xs) => xs.size > 0
    | some (.dict d) => d.size > 0
    | _ => true

end Heap

end ScriptMachine
