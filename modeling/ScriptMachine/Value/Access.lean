import ScriptMachine.Value.Order
/-!
# Length, membership and indexing

Texts count and index by character; lists and tuples by element; dicts by key (and iterate over
their keys in insertion order); progressions by position, computed in wrapping word arithmetic.
An index is an integral number (or truth value); a negative index counts from the end. Only
lists and dicts can be assigned into.
-/

namespace ScriptMachine

open Text

def occursIn (needle : List Char) : List Char → Bool
  | [] => needle.isEmpty
  | c :: cs => needle.isPrefixOf (c :: cs) || occursIn needle cs

def containsText (hay needle : String) : Bool := occursIn needle.toList hay.toList

def wordToFloat (n : Int64) : Float := Float.ofInt n.toInt

def maxCollected : Nat := 11728124029610

inductive CollectError where
  /-- The value is not iterable, or one of its elements could not be read. -/
  | runtime (d : Diagnostic)
  /-- The value has more elements than one block of memory holds, or a negative count (a
  progression whose length wrapped around); nothing was read. -/
  | tooMany
  deriving Inhabited

def CollectError.tooManyText : String := "runtime error: makeslice: len out of range"

namespace Heap

/-- The length of a text, list, tuple, dict or progression. -/
def length (h : Heap) (v : Value) : Except Diagnostic Int :=
  match v with
  | .str s => .ok s.length
  | .range r => .ok r.length.toInt
  | .ref loc =>
    match h.get? loc with
    | some (.list xs) | some (.tuple xs) => .ok xs.size
    | some (.dict d) => .ok d.size
    | _ => .error (runtimeError .notIterable [.text (h.typeName v)])
  | _ => .error (runtimeError .notIterable [.text (h.typeName v)])

/-- Whether `item` is in `container`: a substring of a text, an element of a list or tuple, a
key of a dict, or an integral number that the progression reaches. -/
def contains (h : Heap) (container item : Value) : Except Diagnostic Bool :=
  match container with
  | .str s =>
    match item with
    | .str t => .ok (containsText s t)
    | _ => .error (h.unsupported "in" item container)
  | .range r =>
    let f := item.scalar
    let n := Numeric.truncWord f
    if !item.isScalar || f != wordToFloat n then .ok false
    else if r.length == 0 || (n - r.start) % r.step != 0 then .ok false
    else
      let i := (n - r.start) / r.step
      .ok (i ≥ 0 && i < r.length)
  | .ref loc =>
    match h.get? loc with
    | some (.list xs) | some (.tuple xs) => .ok (xs.any fun e => h.equal e item)
    | some (.dict d) => (h.keyOf item).map fun k => (d.find? k).isSome
    | _ => .error (runtimeError .notIterable [.text (h.typeName container)])
  | _ => .error (runtimeError .notIterable [.text (h.typeName container)])

/-- The offset an index value names in a sequence of `size` elements. -/
def position (h : Heap) (container key : Value) (size : Int) : Except Diagnostic Nat :=
  if !key.isScalar || Numeric.truncate key.scalar != key.scalar then
    .error (runtimeError .invalidIndex [.text (h.typeName container), .text (h.typeName key)])
  else
    let i := (Numeric.truncWord key.scalar).toInt
    let i := if i < 0 then i + size else i
    if i < 0 || i ≥ size then .error (runtimeError .outOfRange [.text (h.repr key)])
    else .ok i.toNat

/-- `container[key]`. -/
def index (h : Heap) (container key : Value) : Except Diagnostic Value :=
  match container with
  | .str s =>
    let cs := s.toList
    (h.position container key cs.length).map fun i => .str (cs.getD i ' ').toString
  | .range r =>
    (h.position container key r.length.toInt).map fun i =>
      .num (wordToFloat (r.get (Int64.ofInt i)))
  | .ref loc =>
    match h.get? loc with
    | some (.list xs) | some (.tuple xs) =>
      (h.position container key xs.size).map fun i => xs.getD i .none
    | some (.dict d) =>
      match h.keyOf key with
      | .error e => .error e
      | .ok k => match d.get? k with
        | some v => .ok v
        | none => .error (runtimeError .noKey [.text (h.repr key)])
    | _ => .error (runtimeError .notSubscriptable [.text (h.typeName container)])
  | _ => .error (runtimeError .notSubscriptable [.text (h.typeName container)])

/-- `container[key] = value`: lists and dicts change in place. -/
def setIndex (h : Heap) (container key value : Value) : Except Diagnostic Heap :=
  match container with
  | .str _ | .range _ =>
    .error (runtimeError .notSupportAssignment [.text (h.typeName container)])
  | .ref loc =>
    match h.get? loc with
    | some (.list xs) =>
      (h.position container key xs.size).map fun i => h.set loc (.list (xs.set! i value))
    | some (.dict d) => (h.keyOf key).map fun k => h.set loc (.dict (d.insert k key value))
    | some (.tuple _) =>
      .error (runtimeError .notSupportAssignment [.text (h.typeName container)])
    | _ => .error (runtimeError .notSubscriptable [.text (h.typeName container)])
  | _ => .error (runtimeError .notSubscriptable [.text (h.typeName container)])

/-- The `i`-th element that iterating `v` produces: characters, elements, dict keys. -/
def elementAt (h : Heap) (v : Value) (i : Int) : Except Diagnostic Value :=
  match h.dict? v with
  | some d =>
    if 0 ≤ i && i < d.size then .ok ((d.keys[i.toNat]?).getD .none)
    else .error (runtimeError .outOfRange [.int i])
  | none => h.index v (.num (Float.ofInt i))

def unpack (h : Heap) (v : Value) : Except CollectError (Array Value) := do
  let n ← (h.length v).mapError .runtime
  if n < 0 || n.toNat > maxCollected then throw .tooMany
  let items ← ((List.range n.toNat).mapM fun (i : Nat) => h.elementAt v i).mapError .runtime
  return items.toArray

def newList (h : Heap) (items : Array Value) : Value × Heap := h.alloc (.list items)

def newTuple (h : Heap) (items : Array Value) : Value × Heap := h.alloc (.tuple items)

def newDict (h : Heap) (pairs : List (Value × Value)) : Except Diagnostic (Value × Heap) := do
  let d ← pairs.foldlM (fun (d : Dict) (kv : Value × Value) =>
    (h.keyOf kv.1).map fun k => d.insert k kv.1 kv.2) {}
  return h.alloc (.dict d)

end Heap

end ScriptMachine
