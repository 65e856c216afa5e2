import ScriptMachine.Value.Render
import ScriptMachine.Diagnostic
/-!
# Keys, equality and order

`Heap.keyOf` gives the identity of a value as a dict key; lists and dicts have none. `Heap.equal`
is structural equality: truth values and numbers compare as numbers, texts by content, lists and
tuples element by element, dicts entry by entry, progressions by fields, functions by identity;
an object always equals itself, even when it holds a NaN. `Heap.compare` orders numbers, texts
(by code point) and lists or tuples of the same kind (by the first unequal element, then by
length).
-/

namespace ScriptMachine

open Text

def runtimeError (m : Message) (args : List Arg) : Diagnostic := Diagnostic.runtime m args

namespace Heap

def unsupported (h : Heap) (op : String) (a b : Value) : Diagnostic :=
  runtimeError .unsupportedOperands [.text op, .text (h.typeName a), .text (h.typeName b)]

def numKey (x : Float) : Key := if x.isNaN then .num 0x7FF8000000000000 else .num x.toBits

/-- The dict key of a value, looking at most `fuel` levels deep. -/
def keyWith (h : Heap) : Nat → Value → Except Diagnostic Key
  | 0, _ => .ok .none
  | fuel + 1, v =>
    match v with
    | .none => .ok .none
    | .bool _ | .num _ => .ok (numKey v.scalar)
    | .str s => .ok (.str s)
    | .range r => .ok (.range r)
    | .builtin n => .ok (.builtin n)
    | .ref loc =>
      match h.get? loc with
      | some (.tuple xs) => (xs.toList.mapM (h.keyWith fuel)).map Key.tuple
      | some (.closure _) => .ok (.closure loc)
      | _ => .error (runtimeError .unhashable [.text (h.typeName v)])

/-- The dict key of a value; lists and dicts are unhashable. -/
def keyOf (h : Heap) (v : Value) : Except Diagnostic Key := h.keyWith h.depth v

/-- Structural equality, looking at most `fuel` levels deep. -/
def equalWith (h : Heap) : Nat → Value → Value → Bool
  | 0, _, _ => false
  | fuel + 1, a, b =>
    if a.isScalar && b.isScalar then a.scalar == b.scalar
    else match a, b with
      | .none, .none => true
      | .str x, .str y => x == y
      | .range x, .range y => x == y
      | .builtin x, .builtin y => x == y
      | .ref x, .ref y =>
        if x == y then true
        else match h.get? x, h.get? y with
          | some (.list p), some (.list q) | some (.tuple p), some (.tuple q) =>
            p.size == q.size && (p.toList.zip q.toList).all fun (u, w) => h.equalWith fuel u w
          | some (.dict p), some (.dict q) =>
            p.size == q.size && p.pairs.all fun e =>
              match h.keyOf e.1 with
              | .ok k => match q.get? k with
                | some w => h.equalWith fuel e.2 w
                | none => false
              | .error _ => false
          | _, _ => false
      | _, _ => false

def equal (h : Heap) (a b : Value) : Bool := h.equalWith h.depth a b

def firstDifference (h : Heap) (fuel : Nat) (cmp : Value → Value → Except Diagnostic Int) :
    List Value → List Value → Option (Except Diagnostic Int)
  | x :: xs, y :: ys =>
    if h.equalWith fuel x y then firstDifference h fuel cmp xs ys else some (cmp x y)
  | _, _ => none

/-- Three-way comparison for `op`: negative, zero or positive. -/
def compareWith (h : Heap) (op : String) : Nat → Value → Value → Except Diagnostic Int
  | 0, _, _ => .ok 0
  | fuel + 1, a, b =>
    if a.isScalar && b.isScalar then
      .ok (if a.scalar < b.scalar then -1 else if a.scalar > b.scalar then 1 else 0)
    else match a, b with
      | .str x, .str y => .ok (if x < y then -1 else if y < x then 1 else 0)
      | .ref x, .ref y =>
        let sequences := match h.get? x, h.get? y with
          | some (.list p), some (.list q) | some (.tuple p), some (.tuple q) => some (p, q)
          | _, _ => none
        match sequences with
        | some (p, q) =>
          match h.firstDifference fuel (h.compareWith op fuel) p.toList q.toList with
          | some r => r
          | none => .ok ((p.size : Int) - q.size)
        | none => .error (h.unsupported op a b)
      | _, _ => .error (h.unsupported op a b)

def less (h : Heap) (a b : Value) : Except Diagnostic Bool :=
  (h.compareWith "<" h.depth a b).map (· < 0)

def lessEqual (h : Heap) (a b : Value) : Except Diagnostic Bool :=
  (h.compareWith "<=" h.depth a b).map (· ≤ 0)

end Heap

end ScriptMachine
