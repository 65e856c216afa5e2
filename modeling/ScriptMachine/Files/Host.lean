import ScriptMachine.Files.Tree
/-!
# Programs that talk to their host

A `Host α` is a program that computes an `α` while asking its host for file operations,
console input and output, the working directory and the clock. Each request carries the rest
of the program as a function of the answer, so a program is a tree of requests, and one
program can be run against different hosts: `Host.runOn` answers from a file tree and a
console held in memory, and an operating-system host answers with real files.

`runOn` recurses on the program tree, so it is total for every program.
-/

namespace ScriptMachine.Files

inductive Channel where
  | out
  | err
  deriving Repr, DecidableEq, Inhabited

/-- A program asking its host for files, console and clock. -/
inductive Host (α : Type) where
  | done (a : α)
  | readFile (path : String) (k : Except FileError (List UInt8) → Host α)
  /-- Whether a path exists, as a directory (`true`) or a file. -/
  | stat (path : String) (k : Except FileError Bool → Host α)
  | writeFile (path : String) (bytes : List UInt8) (k : Except FileError Unit → Host α)
  | mkdirAll (path : String) (k : Except FileError Unit → Host α)
  /-- Opens a file for appending, creating it when missing. -/
  | touch (path : String) (k : Except FileError Unit → Host α)
  | write (channel : Channel) (text : String) (next : Host α)
  /-- The next console line without its newline, and whether input ended before a newline. -/
  | readLine (k : String × Bool → Host α)
  | workingDir (k : String → Host α)
  /-- The time in seconds. -/
  | clock (k : Nat → Host α)

namespace Host

variable {α β : Type}

/-- Runs a program, then the program its result chooses. -/
def bind : Host α → (α → Host β) → Host β
  | .done a, f => f a
  | .readFile p k, f => .readFile p fun r => (k r).bind f
  | .stat p k, f => .stat p fun r => (k r).bind f
  | .writeFile p b k, f => .writeFile p b fun r => (k r).bind f
  | .mkdirAll p k, f => .mkdirAll p fun r => (k r).bind f
  | .touch p k, f => .touch p fun r => (k r).bind f
  | .write c t next, f => .write c t (next.bind f)
  | .readLine k, f => .readLine fun r => (k r).bind f
  | .workingDir k, f => .workingDir fun r => (k r).bind f
  | .clock k, f => .clock fun r => (k r).bind f

instance : Monad Host where
  pure := .done
  bind := bind

def read (path : String) : Host (Except FileError (List UInt8)) := .readFile path .done

def exists? (path : String) : Host (Except FileError Bool) := .stat path .done

def save (path : String) (bytes : List UInt8) : Host (Except FileError Unit) :=
  .writeFile path bytes .done

def makeDirs (path : String) : Host (Except FileError Unit) := .mkdirAll path .done

def openAppend (path : String) : Host (Except FileError Unit) := .touch path .done

def out (text : String) : Host Unit := .write .out text (.done ())

def err (text : String) : Host Unit := .write .err text (.done ())

def line : Host (String × Bool) := .readLine .done

def cwd : Host String := .workingDir .done

def now : Host Nat := .clock .done

end Host

/-- A host held in memory: a file tree, the console input left, what was printed, and a
fixed time. -/
structure Console where
  tree : Tree
  input : List Char := []
  out : String := ""
  err : String := ""
  time : Nat := 0
  deriving Inhabited

/-- Splits the next line off console input: the line, whether input ended before a newline,
and the input after it. -/
def splitLine (input : List Char) : String × Bool × List Char :=
  let line := input.takeWhile (· != '\n')
  let rest := input.drop line.length
  match rest with
  | [] => (String.ofList line, true, [])
  | _ :: after => (String.ofList line, false, after)

namespace Host

variable {α : Type}

def runOn : Host α → Console → α × Console
  | .done a, c => (a, c)
  | .readFile p k, c => runOn (k (c.tree.readFile p)) c
  | .stat p k, c => runOn (k (c.tree.stat p)) c
  | .writeFile p b k, c => match c.tree.writeFile p b with
    | .ok t => runOn (k (.ok ())) { c with tree := t }
    | .error e => runOn (k (.error e)) c
  | .mkdirAll p k, c => match c.tree.mkdirAll p with
    | .ok t => runOn (k (.ok ())) { c with tree := t }
    | .error e => runOn (k (.error e)) c
  | .touch p k, c => match c.tree.openWrite p false with
    | .ok t => runOn (k (.ok ())) { c with tree := t }
    | .error e => runOn (k (.error e)) c
  | .write .out t next, c => runOn next { c with out := c.out ++ t }
  | .write .err t next, c => runOn next { c with err := c.err ++ t }
  | .readLine k, c =>
    let (l, ended, rest) := splitLine c.input
    runOn (k (l, ended)) { c with input := rest }
  | .workingDir k, c => runOn (k c.tree.cwd) c
  | .clock k, c => runOn (k c.time) c

end Host

end ScriptMachine.Files
