import ScriptMachine.Value.Access
import ScriptMachine.Decimal.Read
/-!
# Arithmetic on values

Numbers and truth values add as numbers; texts, lists and tuples concatenate with their own kind.
The other operators coerce both operands to numbers (`toNumber`): nothing is `0`, texts are read
as numbers (`0` when unreadable), containers and functions cannot be coerced. Division, floor
division and remainder by zero fail; a result that is infinite or NaN is a fatal overflow.
-/

namespace ScriptMachine

open Text

inductive ArithOp where
  | add
  | sub
  | mul
  | div
  | floorDiv
  | pow
  | mod
  deriving Repr, DecidableEq, Inhabited

/-- The symbol of an operator, as error messages show it. -/
def ArithOp.symbol : ArithOp → String
  | .add => "+"
  | .sub => "-"
  | .mul => "*"
  | .div => "/"
  | .floorDiv => "//"
  | .pow => "**"
  | .mod => "%"

def checkOverflow (x : Float) : Except Diagnostic Value :=
  if x.isNaN || x.isInf then
    .error { reporter := Reporter.runtime, severity := .fatal, message := .overflow }
  else .ok (.num x)

def textNumber (s : String) : Float :=
  match Decimal.read? (trim s) with
  | some r => if r.outOfRange then 0 else r.value
  | none => 0

/-- The numeric coercion of arithmetic; containers and functions have none. -/
def toNumber : Value → Option Float
  | .none => some 0
  | .bool b => some (if b then 1 else 0)
  | .num x => some x
  | .str s => some (textNumber s)
  | _ => none

namespace Heap

def numbers (h : Heap) (op : ArithOp) (a b : Value) : Except Diagnostic (Float × Float) :=
  match toNumber a, toNumber b with
  | some x, some y => .ok (x, y)
  | _, _ => .error (h.unsupported op.symbol a b)

def applyNumbers (op : ArithOp) (x y : Float) : Except Diagnostic Value :=
  let divZero : Except Diagnostic Value := .error (runtimeError .divideByZero [])
  match op with
  | .add => checkOverflow (x + y)
  | .sub => checkOverflow (x - y)
  | .mul => checkOverflow (x * y)
  | .div => if y == 0 then divZero else checkOverflow (x / y)
  | .floorDiv => if y == 0 then divZero else checkOverflow (x / y).floor
  | .pow => checkOverflow (Numeric.pow x y)
  | .mod => if y == 0 then divZero else checkOverflow (Numeric.rem x y)

/-- `a op b`; concatenation places a new list or tuple on the heap. -/
def arith (h : Heap) (op : ArithOp) (a b : Value) : Except Diagnostic (Value × Heap) :=
  if op == .add then
    if a.isScalar && b.isScalar then (checkOverflow (a.scalar + b.scalar)).map (·, h)
    else match a, b with
      | .str x, .str y => .ok (.str (x ++ y), h)
      | .ref x, .ref y =>
        match h.get? x, h.get? y with
        | some (.list p), some (.list q) => .ok (h.alloc (.list (p ++ q)))
        | some (.tuple p), some (.tuple q) => .ok (h.alloc (.tuple (p ++ q)))
        | _, _ => .error (h.unsupported "+" a b)
      | _, _ => .error (h.unsupported "+" a b)
  else do
    let (x, y) ← h.numbers op a b
    let v ← applyNumbers op x y
    return (v, h)

def negate (h : Heap) (v : Value) : Except Diagnostic Value :=
  match toNumber v with
  | some x => checkOverflow (-x)
  | none => .error (runtimeError .badUnaryOperand [.text "-", .text (h.typeName v)])

end Heap

end ScriptMachine
