import ScriptMachine.Value.Render
import ScriptMachine.Syntax.Operator
/-!
# Events

What a running program reports at its event sites: assignments to variables and elements,
arithmetic, unary operations and comparisons with their operands and results, calls and
returns, the start of each source line, and entry to and exit from tagged regions.

Each event has a kind, a span and a one-line text, written with the values' display forms as
the heap shows them when the text is made: `[Ln 4, Col 0 - Ln 4, Col 0] b:2 Add a:1 = 3`.
-/

namespace ScriptMachine

open Syntax

/-- An operand of an operation, with the name of the variable it was read from (or none). -/
structure Operand where
  name : String
  value : Value
  deriving Inhabited

/-- A tag of a tagged region as an event shows it: its arguments' texts on entry, their values
on exit. -/
structure TagView where
  name : String
  args : List String
  values : Option (List Value)
  deriving Inhabited

inductive Event where
  /-- A variable received a value; `storage` 1 is a local, anything else a global. -/
  | assignment (span : Span) (name : String) (storage : Int) (value : Value)
  | subscriptAssignment (span : Span) (name : String) (storage : Int) (key value : Value)
  | binary (span : Span) (left : Operand) (op : Int) (right : Operand) (result : Value)
  | unary (span : Span) (op : Int) (operand : Operand) (result : Value)
  | comparison (span : Span) (left : Operand) (op : Int) (right : Operand) (result : Bool)
  | funcCalled (span : Span) (name : String) (args : List Value)
  | funcReturned (span : Span) (name : String) (result : Value)
  | singleStep (span : Span)
  | vtagEntered (span : Span) (tags : List TagView)
  | vtagExited (span : Span) (tags : List TagView)
  deriving Inhabited

namespace Event

def kind : Event → Kind
  | assignment .. => .assignment
  | subscriptAssignment .. => .subscriptAssignment
  | binary .. => .binary
  | unary .. => .unary
  | comparison .. => .comparison
  | funcCalled .. => .funcCalled
  | funcReturned .. => .funcReturned
  | singleStep .. => .singleStep
  | vtagEntered .. => .vtagEntered
  | vtagExited .. => .vtagExited

def span : Event → Span
  | assignment s .. | subscriptAssignment s .. | binary s .. | unary s .. | comparison s ..
  | funcCalled s .. | funcReturned s .. | singleStep s | vtagEntered s _ | vtagExited s _ => s

def operandText (h : Heap) (o : Operand) : String :=
  if o.name.isEmpty then h.repr o.value else o.name ++ ":" ++ h.repr o.value

def tagText (h : Heap) (t : TagView) : String :=
  let inner := match t.values with
    | none => ",".intercalate t.args
    | some vs => ",".intercalate (vs.map h.repr)
  t.name ++ "(" ++ inner ++ ")"

def render (h : Heap) (e : Event) : String :=
  let at_ := e.span.render ++ " "
  let target (storage : Int) (name : String) := storageName storage ++ ":" ++ name
  match e with
  | assignment _ name storage v => at_ ++ target storage name ++ " = " ++ h.repr v
  | subscriptAssignment _ name storage k v =>
    at_ ++ target storage name ++ "[" ++ h.repr k ++ "] = " ++ h.repr v
  | binary _ l op r res =>
    at_ ++ operandText h l ++ " " ++ shownName 's' (binaryName op) ++ " " ++ operandText h r ++
      " = " ++ h.repr res
  | unary _ op x res =>
    at_ ++ shownName 's' (unaryName op) ++ " " ++ operandText h x ++ " = " ++ h.repr res
  | comparison _ l op r res =>
    at_ ++ operandText h l ++ " " ++ shownName 's' (comparisonName op) ++ " " ++
      operandText h r ++ " = " ++ (if res then "True" else "False")
  | funcCalled _ name args =>
    at_ ++ "FuncCalled: " ++ name ++ "(" ++ ", ".intercalate (args.map h.repr) ++ ")"
  | funcReturned _ name res => at_ ++ "FuncReturned: " ++ name ++ " " ++ h.repr res
  | singleStep _ => at_ ++ "SingleStep"
  | vtagEntered _ tags => at_ ++ "VTagEntered: " ++ ",".intercalate (tags.map (tagText h))
  | vtagExited _ tags => at_ ++ "VTagExited: " ++ ",".intercalate (tags.map (tagText h))

end Event

end ScriptMachine
