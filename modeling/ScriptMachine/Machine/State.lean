import ScriptMachine.Event.Registry
import ScriptMachine.Value.Arith
/-!
# Machine state

The state of the virtual machine: the heap, the global variables, the stack of call frames,
the cells of captured variables, the text printed so far, and where the run stands.
-/

namespace ScriptMachine

open Bytecode Text

inductive Status where
  | ready
  | running
  | paused
  | stopped
  | completed
  deriving Repr, DecidableEq, Inhabited

def Status.name : Status → String
  | .ready => "Ready"
  | .running => "Running"
  | .paused => "Paused"
  | .stopped => "Stopped"
  | .completed => "Completed"

def Status.all : List Status := [.ready, .running, .paused, .stopped, .completed]

def Status.nameOfCode (n : Int) : Except Int String :=
  Syntax.tableEntry (Status.all.map Status.name) "Unknown" n

inductive Cell where
  /-- Register `register` of the active frame numbered `frame`. -/
  | live (frame : Nat) (register : Nat)
  | closed (value : Value)
  deriving Inhabited

structure Global where
  name : String
  value : Value := .none
  defined : Bool := false
  native : Bool := false
  deriving Inhabited

structure Frame where
  /-- A number no other frame of the run has. -/
  id : Nat
  proto : Chunk
  /-- The cells of the closure's captured variables. -/
  captures : Array Nat
  /-- The global names the closure's module was linked with, by slot. -/
  links : Array String
  registers : Array Value
  pc : Int := 0
  /-- The caller's register that receives the result. -/
  result : Nat := 0
  /-- The cells open on this frame's registers. -/
  opened : List (Nat × Nat) := []
  deriving Inhabited

inductive Trap where
  /-- A runtime error of the program. -/
  | error (d : Diagnostic)
  /-- Malformed bytecode broke the machine; the text says how. -/
  | crash (text : String)
  deriving Inhabited

def indexFault (i : Int) (n : Nat) : String :=
  if i < 0 then s!"runtime error: index out of range [{i}]"
  else s!"runtime error: index out of range [{i}] with length {n}"

def elementOr {β : Type} (xs : Array β) (i : Int) : Except Trap β :=
  if h : 0 ≤ i ∧ i.toNat < xs.size then .ok xs[i.toNat] else .error (.crash (indexFault i xs.size))

/-- The slice `[lo, hi)` of `xs`, or the fault of slicing out of bounds. -/
def sliceOr {β : Type} (xs : Array β) (lo hi : Int) : Except Trap (Array β) :=
  if hi < 0 then .error (.crash s!"runtime error: slice bounds out of range [:{hi}]")
  else if hi > xs.size then
    .error (.crash s!"runtime error: slice bounds out of range [:{hi}] with capacity {xs.size}")
  else if lo < 0 then .error (.crash s!"runtime error: slice bounds out of range [{lo}:]")
  else if lo > hi then .error (.crash s!"runtime error: slice bounds out of range [{lo}:{hi}]")
  else .ok (xs.extract lo.toNat hi.toNat)

def nativeNames : List String := ["print", "__print__", "len", "range", "list", "tuple", "abs", "str"]

def defaultMaxDepth : Nat := 256

/-- The virtual machine, with listeners of type `α`. -/
structure Machine (α : Type) where
  registry : Option (Registry α) := none
  /-- Whether reports are kept in `diagnostics`. -/
  collecting : Bool := false
  diagnostics : Array Diagnostic := #[]
  output : String := ""
  maxDepth : Nat := defaultMaxDepth
  heap : Heap := {}
  globals : Array Global :=
    (nativeNames.map fun n => { name := n, value := .builtin n, defined := true, native := true }).toArray
  /-- Globals defined by programs, in order of first definition. -/
  order : Array Nat := #[]
  /-- The active frames, innermost last. -/
  frames : Array Frame := #[]
  cells : Array Cell := #[]
  nextFrame : Nat := 0
  status : Status := .ready
  pauseRequested : Bool := false
  stopRequested : Bool := false
  deriving Inhabited

namespace Machine

variable {α : Type}

def create (registry : Option (Registry α)) (collecting : Bool) (maxDepth : Int) : Machine α :=
  { registry := registry, collecting := collecting,
    maxDepth := if maxDepth ≤ 0 then defaultMaxDepth else maxDepth.toNat }

def report (m : Machine α) (d : Diagnostic) : Machine α :=
  if m.collecting then { m with diagnostics := m.diagnostics.push d } else m

def print (m : Machine α) (s : String) : Machine α := { m with output := m.output ++ s }

def globalIndex? (m : Machine α) (name : String) : Option Nat :=
  m.globals.findIdx? (·.name == name)

def globalCell (m : Machine α) (name : String) : Nat × Machine α :=
  match m.globalIndex? name with
  | some i => (i, m)
  | none => (m.globals.size, { m with globals := m.globals.push { name := name } })

/-- Stores into a global cell; a first definition, or one replacing a built-in, joins the
order of definitions. -/
def setGlobal (m : Machine α) (i : Nat) (v : Value) : Machine α :=
  match m.globals[i]? with
  | none => m
  | some g =>
    let joins := !g.defined || g.native
    { m with globals := m.globals.set! i { g with value := v, defined := true, native := false },
             order := if joins then m.order.push i else m.order }

def defineGlobal (m : Machine α) (name : String) (v : Value) : Machine α :=
  let (i, m) := m.globalCell name
  m.setGlobal i v

def lookupGlobal (m : Machine α) (name : String) : Option Value :=
  match m.globalIndex? name with
  | some i => match m.globals[i]? with
    | some g => if g.defined then some g.value else none
    | none => none
  | none => none

def globalVars (m : Machine α) : List (String × Value) :=
  m.order.toList.filterMap fun i => (m.globals[i]?).map fun g => (g.name, g.value)

/-- The named locals of the innermost frame live at its current instruction, with their
values; a local naming a register the frame lacks is a fault. -/
def localVars (m : Machine α) : Except String (List (String × Value)) :=
  match m.frames.back? with
  | none => .ok []
  | some f =>
    (f.proto.localsAt f.pc).mapM fun l =>
      match elementOr f.registers l.register with
      | .ok v => .ok (l.name, v)
      | .error (.crash t) => .error t
      | .error (.error d) => .error d.text

def callDepth (m : Machine α) : Nat := m.frames.size

def frameFault : String := "runtime error: makeslice: len out of range"

/-- A frame for a closure, whose result goes to register `result` of the caller. It has as many
registers as the chunk asks for, and at least one per parameter; a negative count is a fault. -/
def newFrame (m : Machine α) (proto : Chunk) (captures : Array Nat) (links : Array String)
    (result : Nat) : Except String (Frame × Machine α) :=
  let n := max proto.registers proto.params
  if n < 0 then .error frameFault
  else
    let f : Frame := { id := m.nextFrame, proto := proto, captures := captures, links := links,
                       registers := Array.replicate n.toNat .none, result := result }
    .ok (f, { m with nextFrame := m.nextFrame + 1 })

def cellValue (m : Machine α) (c : Nat) : Except Trap Value :=
  match m.cells[c]? with
  | some (.closed v) => .ok v
  | some (.live fid reg) =>
    match m.frames.find? (·.id == fid) with
    | some f => elementOr f.registers reg
    | none => .ok .none
  | none => .ok .none

def closeCells (m : Machine α) (f : Frame) : Machine α :=
  f.opened.foldl (fun m (reg, c) =>
    { m with cells := m.cells.set! c (.closed (f.registers.getD reg .none)) }) m

def terminate (m : Machine α) (s : Status) : Machine α :=
  let m := m.frames.foldr (fun f m => m.closeCells f) m
  { m with frames := #[], status := s }

def control (m : Machine α) (msg : Message) : Diagnostic × Machine α :=
  let d := Diagnostic.control msg
  (d, m.report d)

/-- Ends the run with a failure: the report is fatal, located at the innermost frame's current
instruction and naming its function. -/
def fail (m : Machine α) (d : Diagnostic) : Diagnostic × Machine α :=
  let d := match m.frames.back? with
    | some f => { d with span := f.proto.spanAt f.pc, module := f.proto.name }
    | none => d
  let d := { d with severity := .fatal }
  (d, (m.report d).terminate .stopped)

def invalidBytecode (text : String) : Diagnostic :=
  Diagnostic.runtime .invalidBytecode [.text text]

end Machine

end ScriptMachine
