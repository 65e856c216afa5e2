import ScriptMachine.Event.Registry
/-!
# Line debugger

A debugger pauses a run at breakpoint lines and after steps. It listens to single steps, and to
calls and returns to track the call depth. At a single step it stops when a step asked for one
(`into` at the next line, `over` at the next line no deeper than where the step was asked, `out`
at the next line shallower) or when the line has an enabled breakpoint; stopping ends the step
and asks the run to pause.

Breakpoints live on lines from 1 up; a breakpoint can be disabled and stays listed.
-/

namespace ScriptMachine.Debug

inductive StepMode where
  | none
  /-- Stop at the next line no deeper than where the step was asked, stepping over calls. -/
  | overCalls
  | into
  | out
  deriving Repr, DecidableEq, Inhabited

namespace StepMode

def name : StepMode → String
  | none => "none"
  | overCalls => "over"
  | into => "into"
  | out => "out"

def nameOfCode (n : Int) : String :=
  if n == 1 then "over" else if n == 2 then "into" else if n == 3 then "out" else "none"

def ofName? : String → Option StepMode
  | "none" => some none
  | "over" => some overCalls
  | "into" => some into
  | "out" => some out
  | _ => Option.none

end StepMode

structure StopEvent where
  reason : String
  span : Span
  depth : Int
  deriving Inhabited

def StopEvent.text (e : StopEvent) : String :=
  s!"{e.reason} at {e.span.render} (depth {e.depth})"

structure Debugger where
  /-- Breakpoint lines with whether each is enabled. -/
  breakpoints : List (Int × Bool) := []
  handles : List Handle := []
  mode : StepMode := .none
  stepDepth : Int := 0
  depth : Int := 0
  last : Option StopEvent := Option.none
  deriving Inhabited

namespace Debugger

def detach {α : Type} (d : Debugger) (r : Registry α) : Debugger × Registry α :=
  let r := d.handles.foldl (fun r h => (r.unregister h).2) r
  ({ d with handles := [] }, r)

/-- Listens on a registry, as `listener`, to single steps, calls and returns. -/
def attach {α : Type} (d : Debugger) (r : Registry α) (listener : α) : Debugger × Registry α :=
  let (d, r) := d.detach r
  let (h1, r) := r.register .singleStep listener
  let (h2, r) := r.register .funcCalled listener
  let (h3, r) := r.register .funcReturned listener
  ({ d with handles := [h1, h2, h3] }, r)

def reset (d : Debugger) : Debugger := { d with mode := .none, depth := 0, last := Option.none }

def setBreakpoint (d : Debugger) (line : Int) : Except String Debugger :=
  if line < 1 then .error s!"invalid breakpoint line {line}"
  else .ok { d with breakpoints := (d.breakpoints.filter (·.1 != line)) ++ [(line, true)] }

def removeBreakpoint (d : Debugger) (line : Int) : Except String Debugger :=
  if d.breakpoints.any (·.1 == line) then
    .ok { d with breakpoints := d.breakpoints.filter (·.1 != line) }
  else .error s!"no breakpoint at line {line}"

def disableBreakpoint (d : Debugger) (line : Int) : Except String Debugger :=
  if d.breakpoints.any (·.1 == line) then
    .ok { d with breakpoints := d.breakpoints.map fun (l, on) => (l, if l == line then false else on) }
  else .error s!"no breakpoint at line {line}"

def hasBreakpoint (d : Debugger) (line : Int) : Bool := (d.breakpoints.lookup line).getD false

def breakpointLines (d : Debugger) : List Int :=
  (d.breakpoints.map (·.1)).mergeSort (· ≤ ·)

def step (d : Debugger) (mode : StepMode) : Debugger := { d with mode := mode, stepDepth := d.depth }

/-- Hears an event: calls and returns move the depth; a single step may stop, which pauses the
run. -/
def hear (d : Debugger) (e : Event) : Debugger × Option StopEvent :=
  match e with
  | .funcCalled .. => ({ d with depth := d.depth + 1 }, Option.none)
  | .funcReturned .. => ({ d with depth := if d.depth > 0 then d.depth - 1 else 0 }, Option.none)
  | .singleStep s =>
    let stepped := match d.mode with
      | .into => true
      | .overCalls => d.depth ≤ d.stepDepth
      | .out => d.depth < d.stepDepth
      | .none => false
    let reason := if stepped then some "step"
      else if d.hasBreakpoint s.start.line then some "breakpoint" else Option.none
    match reason with
    | some r =>
      let stop : StopEvent := ⟨r, s, d.depth⟩
      ({ d with mode := .none, last := some stop }, some stop)
    | Option.none => (d, Option.none)
  | _ => (d, Option.none)

end Debugger

end ScriptMachine.Debug
