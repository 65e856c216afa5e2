import ScriptMachine.Machine.Run
import ScriptMachine.Compiler.Stmt
import ScriptMachine.Debug.Debugger
import ScriptMachine.Debug.Profiler
/-!
# Debugging sessions

A session keeps one machine, one registry and the listeners registered on it across many runs:
watches, recorders, the debugger and the profiler. Programs are compiled against the session's
registry, so they carry event sites for the kinds listened to at compile time.
-/

namespace ScriptMachine.Debug

open Bytecode Compiler

/-- How a watching listener reacts to the events it hears. -/
structure Watch where
  /-- Whether each sighting keeps the globals and locals seen at the event. -/
  inspect : Bool := false
  /-- Session delivery counts at which the run pauses. -/
  pauseAt : List Int := []
  /-- Session delivery counts at which the run stops. -/
  stopAt : List Int := []
  /-- Whether the listener keeps its view of the machine after the event. -/
  keepsView : Bool := false
  deriving Inhabited

inductive Listener where
  | watch (w : Watch)
  | record
  | debugger
  | profiler
  deriving Inhabited

abbrev Shown := List (String × String)

inductive Sighting where
  /-- An event's text, with the globals and locals seen at it when inspected. -/
  | event (text : String) (view : Option (Shown × Shown))
  | stop (e : StopEvent)
  | hot (f : FunctionProfile)
  deriving Inhabited

structure Notes where
  sightings : Array Sighting := #[]
  deliveries : Int := 0
  recorder : Recorder := {}
  viewKept : Bool := false
  debugger : Debugger := {}
  profiler : Profiler := {}
  deriving Inhabited

def shown (h : Heap) (vs : List (String × Value)) : Shown := vs.map fun (n, v) => (n, h.repr v)

/-- How the listeners of a session hear an event. Reading the locals of a frame whose named
registers are out of range faults, which breaks the run. -/
def hear : Hearing Listener Notes := fun l e sc n =>
  match l with
  | .watch w => do
    let count := n.deliveries + 1
    let view ← if w.inspect then
        sc.locals.map fun ls => some (shown sc.heap sc.globals, shown sc.heap ls)
      else pure none
    pure ({ n with sightings := n.sightings.push (.event (e.render sc.heap) view),
                   deliveries := count, viewKept := n.viewKept || w.keepsView },
      { pause := w.pauseAt.contains count, stop := w.stopAt.contains count })
  | .record => pure ({ n with recorder := n.recorder.hear e }, {})
  | .debugger =>
    let (d, stop?) := n.debugger.hear e
    match stop? with
    | some s => pure ({ n with debugger := d, sightings := n.sightings.push (.stop s) },
        { pause := true })
    | none => pure ({ n with debugger := d }, {})
  | .profiler =>
    let (p, hot?) := n.profiler.hear e
    match hot? with
    | some f => pure ({ n with profiler := p, sightings := n.sightings.push (.hot f) }, {})
    | none => pure ({ n with profiler := p }, {})

def listenAll (r : Registry Listener) (ks : List Kind) (l : Listener) :
    List Handle × Registry Listener :=
  ks.foldl (fun (acc : List Handle × Registry Listener) k =>
    let (h, r) := acc.2.register k l
    (acc.1 ++ [h], r)) ([], r)

/-- A session: the machine, the listeners' notes, the handles handed out, and the chunk last
compiled. -/
structure Session where
  machine : Machine Listener
  notes : Notes := {}
  handles : Array Handle := #[]
  chunk : Option Chunk := none

namespace Session

def create (collecting : Bool) (maxDepth : Int) : Session :=
  { machine := Machine.create (some {}) collecting maxDepth }

def registry (s : Session) : Registry Listener := s.machine.registry.getD {}

def withRegistry (s : Session) (r : Registry Listener) : Session :=
  { s with machine := { s.machine with registry := some r } }

def listen (s : Session) (ks : List Kind) (w : Watch) : Session × List Nat :=
  let (hs, r) := listenAll s.registry ks (.watch w)
  let first := s.handles.size
  ({ s.withRegistry r with handles := s.handles ++ hs.toArray },
    (List.range hs.length).map (first + ·))

/-- Removes the listener of the handle at a position; whether it was still registered. -/
def unlisten (s : Session) (i : Nat) : Session × Bool :=
  match s.handles[i]? with
  | some h =>
    let (ok, r) := s.registry.unregister h
    (s.withRegistry r, ok)
  | none => (s, false)

def compileProgram (s : Session) (p : Syntax.Program) (mode : Mode) : Session × Compiled :=
  match compile p { mode := mode, listened := s.registry.kinds } with
  | .chunk c => ({ s with chunk := some c }, .chunk c)
  | other => (s, other)

def run (s : Session) (fuel : Nat) (c : Chunk) : Except String (Session × Option Diagnostic) := do
  let (d, m, n) ← Machine.run hear fuel c s.machine s.notes
  return ({ s with machine := m, notes := n, chunk := some c }, d)

def resume (s : Session) (fuel : Nat) : Session × Option Diagnostic :=
  let (d, m, n) := Machine.resume hear fuel s.machine s.notes
  ({ s with machine := m, notes := n }, d)

def stop (s : Session) : Session × Option Diagnostic :=
  let (d, m) := s.machine.stop
  ({ s with machine := m }, d)

def pause (s : Session) : Session × Diagnostic :=
  let (d, m) := s.machine.pause
  ({ s with machine := m }, d)

/-- What a view kept after its event answers: its globals and locals, and the refusals of a
pause and then a stop asked through it. -/
structure StaleAnswers where
  globals : Option (List (String × Value))
  locals : Option (Except String (List (String × Value)))
  pause : Diagnostic
  stop : Diagnostic

def staleRequests (s : Session) : Session × StaleAnswers :=
  let (p, m) := s.machine.latePause
  let (q, m) := m.lateStop
  ({ s with machine := m }, ⟨Inspector.stale.globals?, Inspector.stale.locals?, p, q⟩)

def define (s : Session) (heap : Heap) (name : String) (v : Value) : Session :=
  { s with machine := { s.machine with heap := heap }.defineGlobal name v }

def attachDebugger (s : Session) : Session :=
  let (d, r) := s.notes.debugger.attach s.registry .debugger
  { s.withRegistry r with notes := { s.notes with debugger := d } }

def detachDebugger (s : Session) : Session :=
  let (d, r) := s.notes.debugger.detach s.registry
  { s.withRegistry r with notes := { s.notes with debugger := d } }

def withDebugger (s : Session) (f : Debugger → Except String Debugger) :
    Session × Option String :=
  match f s.notes.debugger with
  | .ok d => ({ s with notes := { s.notes with debugger := d } }, none)
  | .error t => (s, some t)

/-- Listens with the profiler, first setting its threshold when one is given. -/
def attachProfiler (s : Session) (threshold : Option Nat) : Session :=
  let p := s.notes.profiler
  let p := match threshold with
    | some t => { p with threshold := t }
    | none => p
  let (p, r) := p.attach s.registry .profiler
  { s.withRegistry r with notes := { s.notes with profiler := p } }

def detachProfiler (s : Session) : Session :=
  let (p, r) := s.notes.profiler.detach s.registry
  { s.withRegistry r with notes := { s.notes with profiler := p } }

end Session

end ScriptMachine.Debug
