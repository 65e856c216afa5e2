import ScriptMachine.Bytecode.Chunk
import ScriptMachine.Bytecode.Instruction
import ScriptMachine.Bytecode.Listing
import ScriptMachine.Cli.Command
import ScriptMachine.Cli.Flags
import ScriptMachine.Compiler.Emit
import ScriptMachine.Compiler.Expr
import ScriptMachine.Compiler.Scope
import ScriptMachine.Compiler.Constants
import ScriptMachine.Compiler.Stmt
import ScriptMachine.Debug.Debugger
import ScriptMachine.Debug.Profiler
import ScriptMachine.Debug.Session
import ScriptMachine.Decimal.Layout
import ScriptMachine.Decimal.Read
import ScriptMachine.Decimal.Shortest
import ScriptMachine.Diagnostic
import ScriptMachine.Digest.Sha256
import ScriptMachine.Event.Basic
import ScriptMachine.Event.Kind
import ScriptMachine.Event.Registry
import ScriptMachine.Files.Host
import ScriptMachine.Files.Path
import ScriptMachine.Files.Tree
import ScriptMachine.Machine.Natives
import ScriptMachine.Machine.Run
import ScriptMachine.Machine.State
import ScriptMachine.Machine.Step
import ScriptMachine.Main
import ScriptMachine.Numeric.Arith
import ScriptMachine.Numeric.IntegerText
import ScriptMachine.Numeric.Rounding
import ScriptMachine.Project.Settings
import ScriptMachine.Project.Toml.Document
import ScriptMachine.Project.Toml.Scalar
import ScriptMachine.Project.Toml.Scan
import ScriptMachine.Project.Toml.Value
import ScriptMachine.Proofs.Bytecode.Fields
import ScriptMachine.Proofs.Bytecode.WellFormed
import ScriptMachine.Proofs.Bytecode.Calls
import ScriptMachine.Proofs.Bytecode.Writing
import ScriptMachine.Proofs.Compiler.Frames
import ScriptMachine.Proofs.Compiler.Capture
import ScriptMachine.Proofs.Compiler.Triple
import ScriptMachine.Proofs.Compiler.Steps
import ScriptMachine.Proofs.Compiler.Emits
import ScriptMachine.Proofs.Compiler.Codes
import ScriptMachine.Proofs.Compiler.Expressions
import ScriptMachine.Proofs.Compiler.Statements
import ScriptMachine.Proofs.Machine.Controls
import ScriptMachine.Proofs.Machine.Pausing
import ScriptMachine.Proofs.Machine.Failure
import ScriptMachine.Proofs.Machine.Surface
import ScriptMachine.Proofs.Machine.Depth
import ScriptMachine.Proofs.Debug.Stepping
import ScriptMachine.Samples
import ScriptMachine.Store.Basic
import ScriptMachine.Store.File
import ScriptMachine.Syntax.Operator
import ScriptMachine.Syntax.Tree
import ScriptMachine.Text.Blank
import ScriptMachine.Text.Calendar
import ScriptMachine.Text.Printable
import ScriptMachine.Text.Quote
import ScriptMachine.Text.Span
import ScriptMachine.Text.Template
import ScriptMachine.Text.Utf8
import ScriptMachine.Value.Access
import ScriptMachine.Value.Arith
import ScriptMachine.Value.Basic
import ScriptMachine.Value.Heap
import ScriptMachine.Value.Order
import ScriptMachine.Value.Render
import ScriptMachine.Wire.Chunk
import ScriptMachine.Wire.Float
import ScriptMachine.Wire.Item
import ScriptMachine.Wire.Read
import ScriptMachine.Proofs.Wire.Floats
import ScriptMachine.Proofs.Wire.Items
import ScriptMachine.Proofs.Wire.Images
import ScriptMachine.Proofs.Compiler.Shaping
import ScriptMachine.Proofs.Bytecode.RoundTrip
import ScriptMachine.Proofs.Wire.Decoded
import ScriptMachine.Proofs.Compiler.BracketedPrograms
import ScriptMachine.Proofs.Compiler.Quiet
import ScriptMachine.Proofs.Compiler.SingleSteps
import ScriptMachine.Proofs.Compiler.Interactive
import ScriptMachine.Proofs.Compiler.StepSites
import ScriptMachine.Proofs.Debug.Scripts
import ScriptMachine.Proofs.Machine.Globals
import ScriptMachine.Proofs.Value.Keys
import ScriptMachine.Proofs.Value.Dicts
import ScriptMachine.Proofs.Value.KeyIdentity
import ScriptMachine.Proofs.Value.Progressions
import ScriptMachine.Proofs.Value.Whole
import ScriptMachine.Proofs.Value.Indexing
import ScriptMachine.Proofs.Value.Doubles
import ScriptMachine.Proofs.Value.Nesting
import ScriptMachine.Proofs.Value.Lexicographic
import ScriptMachine.Proofs.Value.Ordering
import ScriptMachine.Proofs.Compiler.ConstantPool
import ScriptMachine.Proofs.Store.Addressing
import ScriptMachine.Proofs.Compiler.Confinement
import ScriptMachine.Proofs.Compiler.ConfinedCode
