import ScriptMachine.Value.Heap
import ScriptMachine.Decimal.Layout
import ScriptMachine.Numeric.Arith
/-!
# Printed forms of values

`numberText` is the language's number format: an integral number below `10^16` in magnitude is
written positionally with all its digits, any other number in the shortest general form
(`1e+16`, `1.5e-07`, `NaN`, `+Inf`).

`Heap.repr` is the display form used inside containers and events: `None`, `True`, `False`,
texts in single quotes with only the single quote escaped, `[1, 2]`, `(1,)`, `{k: v}` in
insertion order, `range(a, b)` or `range(a, b, s)`, `<function name>`. `Heap.display` is the
printed form: texts without quotes, everything else as `repr`.
-/

namespace ScriptMachine

open Decimal

def numberText (x : Float) : String :=
  if Numeric.truncate x == x && x.abs < 1e16 then
    match Class.ofFloat x with
    | .finite negative digits => (if negative then "-" else "") ++ digits.positionalShortest
    | c => c.general
  else general x

def quoteSingle (s : String) : String :=
  "\x27" ++ String.join (s.toList.map fun c => if c.toNat == 39 then "\\\x27" else c.toString) ++
    "\x27"

def Progression.render (r : Progression) : String :=
  "range(" ++ toString r.start.toInt ++ ", " ++ toString r.stop.toInt ++
    (if r.step != 1 then ", " ++ toString r.step.toInt else "") ++ ")"

namespace Heap

/-- The display form of a value, nesting at most `fuel` levels deep. -/
def reprWith (h : Heap) : Nat → Value → String
  | 0, _ => "..."
  | fuel + 1, v =>
    match v with
    | .none => "None"
    | .bool b => if b then "True" else "False"
    | .num x => numberText x
    | .str s => quoteSingle s
    | .range r => r.render
    | .builtin n => "<function " ++ n ++ ">"
    | .ref loc =>
      match h.get? loc with
      | some (.list xs) => "[" ++ ", ".intercalate (xs.toList.map (h.reprWith fuel)) ++ "]"
      | some (.tuple xs) =>
        "(" ++ ", ".intercalate (xs.toList.map (h.reprWith fuel)) ++
          (if xs.size == 1 then "," else "") ++ ")"
      | some (.dict d) =>
        "\x7b" ++ ", ".intercalate (d.pairs.map fun e =>
          h.reprWith fuel e.1 ++ ": " ++ h.reprWith fuel e.2) ++ "\x7d"
      | some (.closure c) => "<function " ++ c.proto.name ++ ">"
      | none => "<object>"

def repr (h : Heap) (v : Value) : String := h.reprWith h.depth v

/-- The printed form: texts as they are, everything else in display form. -/
def display (h : Heap) (v : Value) : String :=
  match v with
  | .str s => s
  | _ => h.repr v

end Heap

end ScriptMachine
