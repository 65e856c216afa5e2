import ScriptMachine.Compiler.Scope
import ScriptMachine.Text.Quote
/-!
# Emitting code

The primitives the compiler builds functions from: appending instructions with their spans,
jumps that wait for a target and are patched later, constant loads, event sites, and the
single-step sites that mark the start of each new source line.

Compiling takes options: whether top-level expression statements echo their value (the
interactive mode), and which event kinds have a listener. Event sites are compiled only for
those kinds, so a program compiled without listeners carries no event sites at all.
-/

namespace ScriptMachine.Compiler

open Bytecode Text

/-- How top-level expression statements behave: evaluated only (`script`) or also echoed
(`interactive`). -/
inductive Mode where
  | script
  | interactive
  deriving Repr, DecidableEq, Inhabited

namespace Mode

def name : Mode → String
  | script => "script"
  | interactive => "interactive"

def nameOfCode (n : Int) : String := if n == 1 then "interactive" else "script"

def ofName? : String → Option Mode
  | "script" => some script
  | "interactive" => some interactive
  | _ => none

end Mode

structure Options where
  mode : Mode := .script
  /-- The event kinds that have a listener. -/
  listened : List Kind := []
  deriving Inhabited

abbrev GenM := ReaderT Options ResolveM

def echoName : String := "__print__"

def isInternalName (name : String) : Bool := name.startsWith "__"

def endOf (s : Span) : Span := ⟨s.stop, s.stop⟩

def listening (k : Kind) : GenM Bool := return (← read).listened.contains k

def inScope {α : Type} (act : GenM α) : GenM α := do
  Resolver.beginScope
  let r ← act
  Resolver.endScope
  pure r

def temp : GenM Nat := Resolver.temp

def emit (i : Instruction) (s : Span) : GenM Nat := do
  let pc ← Resolver.chunkCount Chunk.nextPc
  Resolver.modifyChunk fun c => c.emit i s
  pure pc

def emitABC (op : Op) (a b c : Nat) (s : Span) : GenM Unit := do
  let _ ← emit (Instruction.abc op.code a b c) s

def emitABx (op : Op) (a bx : Nat) (s : Span) : GenM Unit := do
  let _ ← emit (Instruction.abx op.code a bx) s

def here : GenM Nat := return (← Resolver.chunk).nextPc

def openJump (op : Op) (a : Nat) (s : Span) : GenM Nat := do
  Resolver.modifyFrame fun f => { f with openJumps := f.openJumps + 1 }
  emit (Instruction.asbx op.code a 0) s

def jump (s : Span) : GenM Nat := openJump .jmp 0 s

/-- Points the waiting jumps at `pcs` to `target`. A jump that cannot reach it is an internal
error at the jump's span. -/
def patch (pcs : List Nat) (target : Nat) : GenM Unit :=
  pcs.forM fun pc => do
    let c ← Resolver.chunk
    match c.patchJump pc target with
    | .ok c' =>
      Resolver.modifyFrame fun f => { f with chunk := c', openJumps := f.openJumps - 1 }
    | .error e => throw (.internal (c.spanAt pc) e)

def patchHere (pcs : List Nat) : GenM Unit := do patch pcs (← here)

def errorAt (s : Span) (m : Message) (args : List Arg) : GenM Unit :=
  Resolver.report { reporter := Reporter.compiler, severity := .error, message := m,
                    span := s, args := args }

def maxBx : Nat := 262143

def maxOperand : Nat := 511

/-- Loads the constant with operand id `id` into `dst`. A pool too large for `Bx` is reported
and the load reads constant 0. -/
def loadK (dst id : Nat) (s : Span) : GenM Unit := do
  let idx := id - registerLimit
  if idx > maxBx then
    errorAt s .tooManyConstants [.text (← Resolver.chunk).name, .int (maxBx + 1)]
    emitABx .loadK dst 0 s
  else emitABx .loadK dst idx s

/-- An operand for a constant id: the id itself when `B` and `C` can address it, else a
register loaded with it. -/
def rk (id : Nat) (s : Span) : GenM Nat := do
  if id - registerLimit < maxOperand + 1 - registerLimit then pure id
  else
    let t ← temp
    loadK t id s
    pure t

/-- A register holding operand `src`: the register itself, or a fresh one loaded with the
constant. -/
def inRegister (src : Nat) (s : Span) : GenM Nat := do
  if src < registerLimit then pure src
  else
    let t ← temp
    loadK t src s
    pure t

def notify (n : Notification) : GenM Unit := do
  let idx ← Resolver.chunkCount (·.notifications.size)
  Resolver.modifyChunk fun c => { c with notifications := c.notifications.push n }
  emitABx .notify 0 idx n.span

/-- A single-step site for a statement, unless the last one was on the same line. -/
def step (s : Span) : GenM Unit := do
  if ← listening .singleStep then
    let f ← Resolver.frame
    if s.start.line != f.lastLine then
      Resolver.modifyFrame fun f => { f with lastLine := s.start.line }
      notify { kind := Kind.singleStep.code, span := s }

/-- The variable an assignment to `name` stores into: a global at the top level; inside a
function the name must already be one of its registers. -/
def targetOf (name : String) (s : Span) : GenM Variable := do
  if !(← Resolver.inFunction) then Resolver.define name
  else
    let v ← Resolver.find name
    if v.place != .register then
      throw (.internal s ("assignment target " ++ quote name ++ " was not declared as a local"))
    pure v

def storageOf (name : String) : GenM Int := do
  let v ← Resolver.find name
  pure (if v.place == .register then 1 else 0)

def notifyAssign (s : Span) (name : String) (storage : Int) (value : Nat) : GenM Unit := do
  if ← listening .assignment then
    notify { kind := Kind.assignment.code, span := s, name := name, storage := storage,
             value := value }

end ScriptMachine.Compiler
