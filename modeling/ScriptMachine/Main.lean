import ScriptMachine.Cli.Command
import Std.Time
/-!
# The `seed` executable

Runs the command line against the operating system: files on disk, the process's standard
streams, its working directory and the wall clock. Every decision is made by `Cli.program`;
this layer only carries out the requests it makes.
-/

namespace ScriptMachine.Files

def reasonOf : IO.Error → Reason
  | .noFileOrDirectory .. => .notFound
  | .alreadyExists .. => .exists
  | .inappropriateType _ 21 _ => .isDirectory
  | .inappropriateType .. => .notDirectory
  | _ => .notFound

/-- Reads a whole file, failing on opening or on reading. -/
def readDisk (path : String) : IO (Except FileError (List UInt8)) := do
  match ← (IO.FS.Handle.mk path .read).toBaseIO with
  | .error e => pure (.error ⟨"open", path, reasonOf e⟩)
  | .ok h =>
    match ← h.readBinToEnd.toBaseIO with
    | .error e => pure (.error ⟨"read", path, reasonOf e⟩)
    | .ok bytes => pure (.ok bytes.toList)

/-- Whether a path exists, as a directory (`true`) or a file. -/
def statDisk (path : String) : IO (Except FileError Bool) := do
  match ← (IO.FS.Handle.mk path .read).toBaseIO with
  | .error e => pure (.error ⟨"stat", path, reasonOf e⟩)
  | .ok h =>
    match ← (h.read 1).toBaseIO with
    | .error _ => pure (.ok true)
    | .ok _ => pure (.ok false)

def attempt (op path : String) (act : IO Unit) : IO (Except FileError Unit) := do
  match ← act.toBaseIO with
  | .error e => pure (.error ⟨op, path, reasonOf e⟩)
  | .ok () => pure (.ok ())

def readConsoleLine : IO (String × Bool) := do
  let line ← (← IO.getStdin).getLine
  if line.endsWith "\n" then pure (String.ofList (line.toList.dropLast), false)
  else pure (line, true)

def Host.execute {α : Type} : Host α → IO α
  | .done a => pure a
  | .readFile p k => do Host.execute (k (← readDisk p))
  | .stat p k => do Host.execute (k (← statDisk p))
  | .writeFile p b k => do
    Host.execute (k (← attempt "open" p (IO.FS.writeBinFile p (ByteArray.mk b.toArray))))
  | .mkdirAll p k => do Host.execute (k (← attempt "mkdir" p (IO.FS.createDirAll p)))
  | .touch p k => do
    Host.execute (k (← attempt "open" p (do let _ ← IO.FS.Handle.mk p .append; pure ())))
  | .write .out t next => do
    let s ← IO.getStdout
    s.putStr t
    s.flush
    Host.execute next
  | .write .err t next => do
    let s ← IO.getStderr
    s.putStr t
    s.flush
    Host.execute next
  | .readLine k => do Host.execute (k (← readConsoleLine))
  | .workingDir k => do Host.execute (k (← IO.currentDir).toString)
  | .clock k => do
    let now ← Std.Time.Timestamp.now
    Host.execute (k now.toSecondsSinceUnixEpoch.val.toNat)

end ScriptMachine.Files

def main (args : List String) : IO UInt32 := do
  let code ← ScriptMachine.Files.Host.execute (ScriptMachine.Cli.program args)
  pure code.toUInt32
