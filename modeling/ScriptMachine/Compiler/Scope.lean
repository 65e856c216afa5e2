import ScriptMachine.Bytecode.Chunk
import ScriptMachine.Diagnostic
/-!
# Scopes, registers and name resolution

While a program is compiled, each function being compiled has a frame: its chunk so far, a
stack of scopes binding names to registers, the next free register, the variables it captures
from enclosing functions, and the count of jumps still waiting for a target. The resolver keeps
the frames of the functions nested at the current point (innermost first), the global table,
and the reports made so far.
-/

namespace ScriptMachine.Compiler

open Bytecode Text

/-- A step the compiler cannot carry out: an internal error located at a span, or an
operation on state that does not exist, described by its fault text. -/
inductive Fault where
  | internal (span : Span) (message : String)
  | broken (text : String)
  deriving Inhabited

def Fault.text : Fault → String
  | .internal span message =>
    if span.isEmpty then "internal compiler error: " ++ message
    else span.render ++ " internal compiler error: " ++ message
  | .broken text => text

def Fault.noFunction : Fault :=
  .broken "runtime error: invalid memory address or nil pointer dereference"

def Fault.noScope : Fault := .broken "runtime error: index out of range [-1]"

inductive Place where
  | register
  | capture
  | global
  deriving Repr, DecidableEq, Inhabited

def Place.name : Place → String
  | .register => "local"
  | .capture => "upvalue"
  | .global => "global"

def Place.nameOfCode (n : Int) : String :=
  if n == 0 then "local" else if n == 1 then "upvalue" else "global"

/-- A resolved name: its place and its index there (register, capture or global slot). -/
structure Variable where
  name : String
  place : Place
  index : Nat
  deriving Repr, DecidableEq, Inhabited

/-- A scope: the names it binds (latest binding first) and the first register it owns. -/
structure Scope where
  names : List (String × Nat) := []
  base : Nat
  deriving Inhabited

/-- What tells two pooled constants apart: the bit pattern of a number, the content of a text. -/
inductive ConstKey where
  | bits (b : UInt64)
  | text (s : String)
  deriving DecidableEq

/-- The ids a function's constant pool has handed out, numbers by bit pattern and texts by
content, so that a constant asked for again is found without searching the pool. -/
structure ConstantCache where
  numbers : List (UInt64 × Nat) := []
  strings : List (String × Nat) := []
  deriving Inhabited

namespace ConstantCache

def find? (cc : ConstantCache) : ConstKey → Option Nat
  | .bits b => cc.numbers.lookup b
  | .text s => cc.strings.lookup s

def remember (cc : ConstantCache) : ConstKey → Nat → ConstantCache
  | .bits b, id => { cc with numbers := (b, id) :: cc.numbers }
  | .text s, id => { cc with strings := (s, id) :: cc.strings }

@[simp] theorem find?_empty (k : ConstKey) : ({} : ConstantCache).find? k = none := by
  cases k <;> rfl

@[simp] theorem find?_remember_self (cc : ConstantCache) (k : ConstKey) (id : Nat) :
    (cc.remember k id).find? k = some id := by
  cases k <;> simp [find?, remember]

theorem find?_remember_of_ne (cc : ConstantCache) {k k' : ConstKey} (id : Nat) (h : k' ≠ k) :
    (cc.remember k id).find? k' = cc.find? k' := by
  cases k <;> cases k' <;> simp only [find?, remember, List.lookup_cons]
  case bits.bits => rw [beq_eq_false_iff_ne.mpr fun e => h (congrArg ConstKey.bits e)]
  case text.text => rw [beq_eq_false_iff_ne.mpr fun e => h (congrArg ConstKey.text e)]

end ConstantCache

structure Frame where
  chunk : Chunk
  /-- Innermost scope first. -/
  scopes : List Scope := [{ base := 0 }]
  next : Nat := 0
  /-- Captured names and their capture index. -/
  captured : List (String × Nat) := []
  /-- The line of the last single-step site, `-1` before the first. -/
  lastLine : Int := -1
  /-- Whether this is the top level, whose names are globals. -/
  module : Bool
  openJumps : Int := 0
  /-- The position of this function among all functions begun. -/
  order : Nat := 0
  consts : ConstantCache := {}
  deriving Inhabited

namespace Frame

def lookup (f : Frame) (name : String) : Option Nat :=
  f.scopes.findSome? fun s => s.names.lookup name

def addCapture (f : Frame) (c : Capture) : Nat × Frame :=
  let i := f.chunk.captures.size
  (i, { f with chunk := { f.chunk with captures := f.chunk.captures.push c },
               captured := (c.name, i) :: f.captured })

end Frame

/-- The capture index of `name` in the first frame of a stack of frames (innermost first),
creating captures along the enclosing functions as needed, with the updated frames. -/
def captureIn (name : String) : List Frame → Option (Nat × List Frame)
  | [] => none
  | f :: outer =>
    match f.captured.lookup name with
    | some i => some (i, f :: outer)
    | none =>
      match outer with
      | [] => none
      | parent :: _ =>
        if parent.module then none
        else
          let found : Option (Capture × List Frame) :=
            match parent.lookup name with
            | some reg => some ({ name := name, inParent := true, index := reg }, outer)
            | none => (captureIn name outer).map fun (i, outer') =>
                ({ name := name, inParent := false, index := i }, outer')
          found.map fun (c, outer') =>
            let (i, f') := f.addCapture c
            (i, f' :: outer')

/-- The state of name resolution across the functions being compiled. -/
structure Resolver where
  /-- Innermost function first. -/
  frames : List Frame := []
  globals : Array String := #[]
  reports : Array Diagnostic := #[]
  /-- How many functions were begun. -/
  begun : Nat := 0
  /-- The finished functions' chunks, with their positions among all functions begun. -/
  finished : Array (Nat × Chunk) := #[]
  deriving Inhabited

abbrev ResolveM := StateT Resolver (Except Fault)

namespace Resolver

def frame : ResolveM Frame := do
  match (← get).frames with
  | f :: _ => pure f
  | [] => throw Fault.noFunction

def modifyFrame (g : Frame → Frame) : ResolveM Unit := do
  match (← get).frames with
  | f :: outer => modify fun r => { r with frames := g f :: outer }
  | [] => throw Fault.noFunction

def chunk : ResolveM Chunk := return (← frame).chunk

def chunkCount (count : Chunk → Nat) : ResolveM Nat := do
  match (← get).frames with
  | f :: _ => pure (count f.chunk)
  | [] => throw Fault.noFunction

def modifyChunk (g : Chunk → Chunk) : ResolveM Unit :=
  modifyFrame fun f => { f with chunk := g f.chunk }

def report (d : Diagnostic) : ResolveM Unit :=
  modify fun r => { r with reports := r.reports.push d }

/-- The slot of a global, creating it at the end of the table if new. -/
def globalSlot (name : String) : ResolveM Nat := do
  let r ← get
  match r.globals.idxOf? name with
  | some i => pure i
  | none =>
    set { r with globals := r.globals.push name }
    pure r.globals.size

def beginFunction (chunk : Chunk) (module : Bool) : ResolveM Unit :=
  modify fun r => { r with begun := r.begun + 1,
                           frames := { chunk := chunk, module := module, order := r.begun } :: r.frames }

/-- Finishes the innermost function: every named local lives to the end of its code. Jumps
still waiting for a target are an internal error. -/
def endFunction : ResolveM Chunk := do
  let f ← frame
  if f.openJumps != 0 then
    throw (.internal Span.empty s!"{f.openJumps} unpatched jumps in {f.chunk.name}")
  let finish (l : LocalVar) : LocalVar := { l with endPc := f.chunk.code.size }
  let c := { f.chunk with locals := f.chunk.locals.map finish }
  modify fun r => { r with frames := r.frames.drop 1, finished := r.finished.push (f.order, c) }
  pure c

def beginScope : ResolveM Unit :=
  modifyFrame fun f => { f with scopes := { base := f.next } :: f.scopes }

def endScope : ResolveM Unit := do
  let f ← frame
  match f.scopes with
  | s :: rest => modifyFrame fun f => { f with scopes := rest, next := s.base }
  | [] => throw Fault.noScope

/-- The next free register. Past the register limit the function is reported once and every
request gets the last register. -/
def alloc : ResolveM Nat := do
  let f ← frame
  if f.next ≥ registerLimit then
    if f.chunk.registers ≤ registerLimit then
      report { reporter := Reporter.compiler, severity := .error,
               message := .tooManyRegisters,
               args := [.text f.chunk.name, .int registerLimit] }
      modifyChunk fun c => { c with registers := registerLimit + 1 }
    pure (registerLimit - 1)
  else
    let reg := f.next
    modifyFrame fun f =>
      { f with next := reg + 1,
               chunk := { f.chunk with registers := max f.chunk.registers (reg + 1) } }
    pure reg

def temp : ResolveM Nat := alloc

/-- `n` consecutive registers, returning the first; none (and register 0) for `n = 0`. -/
def temps (n : Nat) : ResolveM Nat := do
  if n == 0 then return 0
  let base ← temp
  for _ in [1:n] do
    let _ ← temp
  return base

/-- Declares a variable: a global slot at the top level, else a register bound in the innermost
scope and recorded as a named local. -/
def define (name : String) : ResolveM Variable := do
  let f ← frame
  if f.module then
    return ⟨name, .global, ← globalSlot name⟩
  let reg ← alloc
  let f ← frame
  match f.scopes with
  | s :: rest =>
    modifyFrame fun f =>
      { f with scopes := { s with names := (name, reg) :: s.names } :: rest,
               chunk := { f.chunk with locals := f.chunk.locals.push ⟨name, reg, 0, 0⟩ } }
    return ⟨name, .register, reg⟩
  | [] => throw Fault.noScope

/-- Resolves a name: a register of the current function, a captured variable, or a global
slot. -/
def find (name : String) : ResolveM Variable := do
  let f ← frame
  match f.lookup name with
  | some reg => return ⟨name, .register, reg⟩
  | none =>
    match captureIn name (← get).frames with
    | some (i, frames) =>
      modify fun r => { r with frames := frames }
      return ⟨name, .capture, i⟩
    | none => return ⟨name, .global, ← globalSlot name⟩

def inFunction : ResolveM Bool := return !(← frame).module

/-- The operand id of the constant with key `k` and value `v`: the id the cache holds for `k`,
else that of `v` appended to the pool, which the cache then remembers. -/
def intern (k : ConstKey) (v : Value) : ResolveM Nat := do
  let f ← frame
  match f.consts.find? k with
  | some id => pure id
  | none =>
    let id := registerLimit + f.chunk.constants.size
    modifyFrame fun f => { f with chunk := { f.chunk with constants := f.chunk.constants.push v },
                                  consts := f.consts.remember k id }
    pure id

def numberId (x : Float) : ResolveM Nat := intern (.bits x.toBits) (.num x)

def textId (s : String) : ResolveM Nat := intern (.text s) (.str s)

def chunksBegun (r : Resolver) : List Chunk :=
  let all := r.finished.toList ++ r.frames.map fun f => (f.order, f.chunk)
  (all.mergeSort fun a b => a.1 ≤ b.1).map (·.2)

end Resolver

end ScriptMachine.Compiler
