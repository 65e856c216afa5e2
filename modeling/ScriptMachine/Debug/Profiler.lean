import ScriptMachine.Event.Registry
/-!
# Call profiler

A profiler counts calls per function name and entries per source line, listening to calls and
single steps. A function becomes hot when its calls reach the threshold (a threshold of 0 makes
nothing hot); it is reported once, when it becomes hot.
-/

namespace ScriptMachine.Debug

structure FunctionProfile where
  name : String
  calls : Nat
  hot : Bool
  deriving Inhabited

structure ProfileStats where
  functions : Nat
  hotFunctions : Nat
  calls : Nat
  linesHit : Nat
  lineEntries : Nat
  deriving Inhabited

structure Profiler where
  functions : List FunctionProfile := []
  lines : List (Int × Nat) := []
  handles : List Handle := []
  threshold : Nat := 100
  deriving Inhabited

namespace Profiler

def detach {α : Type} (p : Profiler) (r : Registry α) : Profiler × Registry α :=
  let r := p.handles.foldl (fun r h => (r.unregister h).2) r
  ({ p with handles := [] }, r)

def attach {α : Type} (p : Profiler) (r : Registry α) (listener : α) : Profiler × Registry α :=
  let (p, r) := p.detach r
  let (h1, r) := r.register .funcCalled listener
  let (h2, r) := r.register .singleStep listener
  ({ p with handles := [h1, h2] }, r)

def reset (p : Profiler) : Profiler := { p with functions := [], lines := [] }

/-- Counts a call; the profile of a function that just became hot is returned. -/
def recordCall (p : Profiler) (name : String) : Profiler × Option FunctionProfile :=
  let old := (p.functions.find? (·.name == name)).getD ⟨name, 0, false⟩
  let calls := old.calls + 1
  let becameHot := !old.hot && p.threshold > 0 && calls ≥ p.threshold
  let fp : FunctionProfile := { old with calls := calls, hot := old.hot || becameHot }
  let functions := if p.functions.any (·.name == name) then
      p.functions.map fun f => if f.name == name then fp else f
    else p.functions ++ [fp]
  ({ p with functions := functions }, if becameHot then some fp else none)

def recordLine (p : Profiler) (line : Int) : Profiler :=
  let n := (p.lines.lookup line).getD 0
  { p with lines := if p.lines.any (·.1 == line) then
      p.lines.map fun (l, k) => if l == line then (l, n + 1) else (l, k)
    else p.lines ++ [(line, 1)] }

def hear (p : Profiler) (e : Event) : Profiler × Option FunctionProfile :=
  match e with
  | .funcCalled _ name _ => p.recordCall name
  | .singleStep s => (p.recordLine s.start.line, none)
  | _ => (p, none)

def profiles (p : Profiler) : List FunctionProfile :=
  p.functions.mergeSort fun a b => a.calls > b.calls || (a.calls == b.calls && a.name ≤ b.name)

def hotNames (p : Profiler) : List String :=
  ((p.functions.filter (·.hot)).map (·.name)).mergeSort (· ≤ ·)

def lineHits (p : Profiler) : List (Int × Nat) := p.lines.mergeSort fun a b => a.1 ≤ b.1

def stats (p : Profiler) : ProfileStats :=
  { functions := p.functions.length,
    hotFunctions := (p.functions.filter (·.hot)).length,
    calls := (p.functions.map (·.calls)).foldl (· + ·) 0,
    linesHit := p.lines.length,
    lineEntries := (p.lines.map (·.2)).foldl (· + ·) 0 }

end Profiler

end ScriptMachine.Debug
