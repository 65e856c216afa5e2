import ScriptMachine.Machine.State
/-!
# Built-in functions

`print` writes the printed forms of its arguments separated by spaces and ends the line;
`__print__` writes the display form of its one argument unless it is `None` (the echo of the
interactive mode); `len` counts; `range` builds a progression from one to three integers
(`stop`, `start, stop` or `start, stop, step`, with a step other than zero); `list` and `tuple`
collect the elements of their one argument (or nothing); `abs` takes a number or truth value;
`str` gives the printed form as text.

A built-in with a fixed number of arguments refuses any other number.
-/

namespace ScriptMachine

namespace Machine

variable {α : Type}

def nativeArity : String → Option Nat
  | "__print__" | "len" | "abs" | "str" => some 1
  | _ => none

def badArgument (h : Heap) (fn want : String) (v : Value) : Trap :=
  .error (Diagnostic.runtime .badArgument [.text fn, .text want, .text (h.typeName v)])

/-- An integral argument: a number or truth value with no fractional part, cut to a word. -/
def intArg (h : Heap) (fn : String) (v : Value) : Except Trap Int64 :=
  match v with
  | .bool _ | .num _ =>
    if Numeric.truncate v.scalar != v.scalar then .error (badArgument h fn "an integer" v)
    else .ok (Numeric.truncWord v.scalar)
  | _ => .error (badArgument h fn "an integer" v)

/-- `range(stop)`, `range(start, stop)` or `range(start, stop, step)`. -/
def nativeRange (h : Heap) (args : Array Value) : Except Trap Value := do
  if args.size < 1 || args.size > 3 then
    throw (.error (Diagnostic.runtime .argumentCount [.text "range", .int 3, .int args.size]))
  let bounds ← args.toList.mapM (intArg h "range")
  let (start, stop, step) := match bounds with
    | [stop] => (0, stop, 1)
    | [start, stop] => (start, stop, 1)
    | [start, stop, step] => (start, stop, step)
    | _ => (0, 0, 1)
  if step == 0 then throw (badArgument h "range" "a non-zero step" (args.getD 2 .none))
  pure (.range ⟨start, stop, step⟩)

/-- The elements `list` and `tuple` collect from their arguments. -/
def elementsOf (h : Heap) (fn : String) (args : Array Value) : Except Trap (Array Value) :=
  match args.toList with
  | [] => .ok #[]
  | [v] => (h.unpack v).mapError fun
    | .runtime d => .error d
    | .tooMany => .crash CollectError.tooManyText
  | _ => .error (.error (Diagnostic.runtime .argumentCount [.text fn, .int 1, .int args.size]))

def callNative (m : Machine α) (name : String) (args : Array Value) :
    Except Trap (Value × Machine α) := do
  let h := m.heap
  if let some n := nativeArity name then
    if args.size != n then
      throw (.error (Diagnostic.runtime .argumentCount [.text name, .int n, .int args.size]))
  let arg := args.getD 0 .none
  match name with
  | "print" => pure (.none, m.print (" ".intercalate (args.toList.map h.display) ++ "\n"))
  | "__print__" =>
    match arg with
    | .none => pure (.none, m)
    | v => pure (.none, m.print (h.repr v ++ "\n"))
  | "len" =>
    let n ← (h.length arg).mapError Trap.error
    pure (.num (Float.ofInt n), m)
  | "range" => pure (← nativeRange h args, m)
  | "list" =>
    let items ← elementsOf h "list" args
    let (v, h') := h.newList items
    pure (v, { m with heap := h' })
  | "tuple" =>
    let items ← elementsOf h "tuple" args
    let (v, h') := h.newTuple items
    pure (v, { m with heap := h' })
  | "abs" =>
    match arg with
    | .bool _ | .num _ => pure (.num arg.scalar.abs, m)
    | v => throw (badArgument h "abs" "a number" v)
  | "str" => pure (.str (h.display arg), m)
  | _ => throw (.error (Diagnostic.runtime .notCallable [.text "function"]))

end Machine

end ScriptMachine
