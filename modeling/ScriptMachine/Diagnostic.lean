import ScriptMachine.Text.Span
import ScriptMachine.Text.Template
/-!
# Diagnostics

Every failure of compiling, running or controlling a program, and of the chunk store, is one
structured report: who reported it, how severe it is, which message (an identifier with
arguments), where in the program, and for runtime failures the name of the failing function.

Main definitions: `Message.template` fixes each message's wording, `Diagnostic.text` is the full
line `[span] Reporter Severity: message`, and `Diagnostics` is the ordered log a session keeps.
-/

namespace ScriptMachine

open Text

/-- The known messages; any other identifier is kept by name. -/
inductive Message where
  | tooManyRegisters
  | tooManyConstants
  | invalidAssignTarget
  | assignCount
  | tooManyOperands
  | returnOutsideFunction
  | emptyProgram
  | divideByZero
  | overflow
  | unsupportedOperands
  | badUnaryOperand
  | notCallable
  | badArgument
  | argumentCount
  | outOfRange
  | invalidIndex
  | noKey
  | unhashable
  | notSubscriptable
  | notSupportAssignment
  | notIterable
  | unpackCount
  | stackOverflow
  | undefinedVariable
  | invalidBytecode
  | notPaused
  | notRunning
  | pauseOutsideNotification
  | busy
  | generic
  | other (name : String)
  deriving Repr, DecidableEq, Inhabited

namespace Message

/-- Every known message, in the order of their identifiers' families. -/
def known : List Message :=
  [tooManyRegisters, tooManyConstants, invalidAssignTarget, assignCount, tooManyOperands,
   returnOutsideFunction, emptyProgram, divideByZero, overflow, unsupportedOperands,
   badUnaryOperand, notCallable, badArgument, argumentCount, outOfRange, invalidIndex, noKey,
   unhashable, notSubscriptable, notSupportAssignment, notIterable, unpackCount, stackOverflow,
   undefinedVariable, invalidBytecode, notPaused, notRunning, pauseOutsideNotification, busy,
   generic]

def name : Message → String
  | tooManyRegisters => "CompileErrorTooManyRegisters"
  | tooManyConstants => "CompileErrorTooManyConstants"
  | invalidAssignTarget => "CompileErrorInvalidAssignTarget"
  | assignCount => "CompileErrorAssignCount"
  | tooManyOperands => "CompileErrorTooManyOperands"
  | returnOutsideFunction => "CompileErrorReturnOutsideFunc"
  | emptyProgram => "CompileErrorEmptyProgram"
  | divideByZero => "RuntimeErrorDivideByZero"
  | overflow => "RuntimeErrorOverflow"
  | unsupportedOperands => "RuntimeErrorUnsupportedOperands"
  | badUnaryOperand => "RuntimeErrorBadUnaryOperand"
  | notCallable => "RuntimeErrorNotCallable"
  | badArgument => "RuntimeErrorBadArgument"
  | argumentCount => "RuntimeErrorArgumentCount"
  | outOfRange => "RuntimeErrorOutOfRange"
  | invalidIndex => "RuntimeErrorInvalidIndex"
  | noKey => "RuntimeErrorNoKey"
  | unhashable => "RuntimeErrorUnhashable"
  | notSubscriptable => "RuntimeErrorNotSubscriptable"
  | notSupportAssignment => "RuntimeErrorNotSupportAssignment"
  | notIterable => "RuntimeErrorNotIterable"
  | unpackCount => "RuntimeErrorUnpackCount"
  | stackOverflow => "RuntimeErrorStackOverflow"
  | undefinedVariable => "RuntimeErrorUndefinedVariable"
  | invalidBytecode => "RuntimeErrorInvalidBytecode"
  | notPaused => "VMNotPaused"
  | notRunning => "VMNotRunning"
  | pauseOutsideNotification => "VMPauseOutsideNotification"
  | busy => "VMBusy"
  | generic => "GenericError"
  | other n => n

def ofName (n : String) : Message :=
  (known.find? (·.name == n)).getD (other n)

/-- The wording of a known message, with its placeholders. -/
def template : Message → Option String
  | tooManyRegisters => some "function %q needs more than %d registers"
  | tooManyConstants => some "function %q has more than %d constants"
  | invalidAssignTarget => some "cannot assign to %s"
  | assignCount => some "cannot assign %d values to %d targets"
  | tooManyOperands => some "%s has more than %d elements"
  | returnOutsideFunction => some "\x27return\x27 outside function"
  | emptyProgram => some "program is empty"
  | divideByZero => some "division by zero"
  | overflow => some "numeric overflow"
  | unsupportedOperands => some "unsupported operand types for %s: %s and %s"
  | badUnaryOperand => some "bad operand type for unary %s: %s"
  | notCallable => some "%s value is not callable"
  | badArgument => some "%s() argument must be %s, not %s"
  | argumentCount => some "%s expects %d arguments, got %d"
  | outOfRange => some "index %v out of range"
  | invalidIndex => some "%s indices must be integers, not %s"
  | noKey => some "key %s not found"
  | unhashable => some "unhashable type: %s"
  | notSubscriptable => some "%s value is not subscriptable"
  | notSupportAssignment => some "%s does not support item assignment"
  | notIterable => some "%s value is not iterable"
  | unpackCount => some "expected %d values to unpack, got %d"
  | stackOverflow => some "call depth exceeded %d"
  | undefinedVariable => some "name %q is not defined"
  | invalidBytecode => some "invalid bytecode: %s"
  | notPaused => some "execution is not paused"
  | notRunning => some "execution is not running"
  | pauseOutsideNotification => some "pause can only be requested from a notification callback"
  | busy => some "a program is already running"
  | generic => some "%v"
  | other _ => none

/-- The text of a message with its arguments. A message without wording shows its identifier,
followed by the arguments in brackets when there are any. -/
def format (m : Message) (args : List Arg) : String :=
  match m.template with
  | some t => fillTemplate t args
  | none =>
    if args.isEmpty then m.name
    else m.name ++ " [" ++ " ".intercalate (args.map Arg.natural) ++ "]"

end Message

/-- How severe a report is: 0 information, 1 warning, 2 error, 3 fatal. Other levels can be
stated and print by number. -/
structure Severity where
  level : Int
  deriving Repr, DecidableEq, Inhabited

namespace Severity

def info : Severity := ⟨0⟩
def warning : Severity := ⟨1⟩
def error : Severity := ⟨2⟩
def fatal : Severity := ⟨3⟩

def name (s : Severity) : String :=
  match s.level with
  | 0 => "Info"
  | 1 => "Warning"
  | 2 => "Error"
  | 3 => "Fatal"
  | n => s!"Severity({n})"

end Severity

-- The names of the subsystems that report.
namespace Reporter

def compiler : String := "SeedCompiler"
def runtime : String := "SeedRuntime"
def machine : String := "SeedVM"
def store : String := "SeedStore"

end Reporter

structure Diagnostic where
  reporter : String
  severity : Severity
  module : String := ""
  message : Message
  span : Span := Span.empty
  args : List Arg := []
  deriving Repr, Inhabited

namespace Diagnostic

def runtime (m : Message) (args : List Arg) : Diagnostic :=
  { reporter := Reporter.runtime, severity := .error, message := m, args := args }

def control (m : Message) : Diagnostic :=
  { reporter := Reporter.machine, severity := .warning, message := m }

def generic (reporter : String) (text : String) : Diagnostic :=
  { reporter := reporter, severity := .error, message := .generic, args := [.text text] }

def located (d : Diagnostic) (s : Span) : Diagnostic := { d with span := s }

def messageText (d : Diagnostic) : String := d.message.format d.args

/-- The full line: the span (when there is one), reporter, severity and message. -/
def text (d : Diagnostic) : String :=
  let body := d.reporter ++ " " ++ d.severity.name ++ ": " ++ d.messageText
  if d.span.isEmpty then body else d.span.render ++ " " ++ body

def isError (d : Diagnostic) : Bool := d.severity.level ≥ 2

end Diagnostic

/-- An error as the diagnostic helpers meet it: a plain text, a report, or another error
wrapped under some context. Errors carry no identity, so only reports can match a target. -/
inductive ErrorChain where
  | plain (text : String)
  | report (d : Diagnostic)
  | wrapped (context : String) (inner : ErrorChain)
  deriving Inhabited

namespace ErrorChain

def diagnostic? : ErrorChain → Option Diagnostic
  | plain _ => none
  | report d => some d
  | wrapped _ e => e.diagnostic?

def text : ErrorChain → String
  | plain t => t
  | report d => d.text
  | wrapped c e => c ++ e.text

def messageOf? (e : ErrorChain) : Option String := e.diagnostic?.map (·.message.name)

end ErrorChain

def Diagnostic.matches (d : Diagnostic) (target : ErrorChain) : Bool :=
  match target.diagnostic? with
  | some t => d.message.name == t.message.name
  | none => false

def ErrorChain.matches (e target : ErrorChain) : Bool :=
  match e.diagnostic? with
  | some d => d.matches target
  | none => false

structure Diagnostics where
  entries : Array Diagnostic := #[]
  deriving Inhabited

namespace Diagnostics

def report (c : Diagnostics) (d : Diagnostic) : Diagnostics := ⟨c.entries.push d⟩

def hasErrors (c : Diagnostics) : Bool := c.entries.any Diagnostic.isError

def size (c : Diagnostics) : Nat := c.entries.size

def reportError (c : Diagnostics) (reporter : String) : Option ErrorChain → Diagnostics × Bool
  | none => (c, false)
  | some e => (c.report (e.diagnostic?.getD (Diagnostic.generic reporter e.text)), true)

end Diagnostics

end ScriptMachine
