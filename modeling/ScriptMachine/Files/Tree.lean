import ScriptMachine.Files.Path
/-!
# File trees

A file tree maps clean absolute paths to directories and files. It answers the few file
operations the command line performs, with the failures an operating system reports: a missing
element (`no such file or directory`), a file where a directory is needed (`not a directory`),
a directory where a file is needed (`is a directory`), and an existing name where a new one is
made (`file exists`). Some directories are sealed: nothing can be made inside them, which
reports a missing element, as the process table directory of the host does.
-/

namespace ScriptMachine.Files

inductive Reason where
  | notFound
  | notDirectory
  | isDirectory
  | exists
  deriving Repr, DecidableEq, Inhabited

def Reason.text : Reason → String
  | .notFound => "no such file or directory"
  | .notDirectory => "not a directory"
  | .isDirectory => "is a directory"
  | .exists => "file exists"

structure FileError where
  op : String
  path : String
  reason : Reason
  deriving Repr, DecidableEq, Inhabited

def FileError.text (e : FileError) : String := e.op ++ " " ++ e.path ++ ": " ++ e.reason.text

inductive Node where
  | dir
  | file (bytes : List UInt8)
  deriving Repr, DecidableEq, Inhabited

/-- A file tree, with a working directory for relative paths. -/
structure Tree where
  /-- Entries by clean absolute path; the root is always a directory. -/
  entries : List (String × Node) := []
  sealed : List String := []
  cwd : String := "/"
  deriving Inhabited

namespace Tree

def node? (t : Tree) (abs : String) : Option Node :=
  if abs == "/" then some .dir else t.entries.lookup abs

/-- The entry at a clean absolute path, after checking that every ancestor is a directory. -/
def resolve (t : Tree) (abs : String) : Except Reason (Option Node) := do
  for a in ancestors abs do
    match t.node? a with
    | none => throw .notFound
    | some (.file _) => throw .notDirectory
    | some .dir => pure ()
  pure (t.node? abs)

def put (t : Tree) (abs : String) (n : Node) : Tree :=
  { t with entries := (t.entries.filter (·.1 != abs)) ++ [(abs, n)] }

/-- Whether a new entry can be made at a clean absolute path: its parent must be an unsealed
directory. -/
def parentReady (t : Tree) (abs : String) : Except Reason Unit := do
  let parent := dir abs
  match ← t.resolve parent with
  | none => throw .notFound
  | some (.file _) => throw .notDirectory
  | some .dir => if t.sealed.contains parent then throw .notFound else pure ()

structure Walked where
  /-- The clean absolute path reached. -/
  abs : String
  /-- The entry there, if any. -/
  node : Option Node
  /-- Whether the path ends in `/`, so that only a directory can stand there. -/
  trailing : Bool

/-- Follows path elements from a clean absolute path whose entry is `here`. Every element is
looked up in a directory, so passing through a file or a missing entry fails; empty elements
and `.` stay, and `..` goes up, the root being its own parent. -/
def walkFrom (t : Tree) : String → Option Node → List String → Except Reason (String × Option Node)
  | cur, here, [] => pure (cur, here)
  | cur, here, e :: rest =>
    match here with
    | none => throw .notFound
    | some (.file _) => throw .notDirectory
    | some .dir =>
      if e.isEmpty || e == "." then t.walkFrom cur here rest
      else
        let next := if e == ".." then dir cur else join [cur, e]
        t.walkFrom next (t.node? next) rest

/-- Follows a path as written, from the root or the working directory, element by element:
`f/../g` passes through `f`, which must be a directory. The empty path names nothing. -/
def walk (t : Tree) (path : String) : Except Reason Walked := do
  if path.isEmpty then throw .notFound
  let start := if isAbsolute path then "/" else t.cwd
  let elems := ((path.splitOn "/").reverse.dropWhile (·.isEmpty)).reverse
  let (abs, node) ← t.walkFrom start (t.node? start) elems
  pure ⟨abs, node, path.endsWith "/"⟩

def lookup (t : Tree) (path : String) : Except Reason Walked := do
  let w ← t.walk path
  match w.node with
  | some (.file _) => if w.trailing then throw .notDirectory else pure w
  | _ => pure w

def readFile (t : Tree) (path : String) : Except FileError (List UInt8) :=
  match t.lookup path with
  | .error r => .error ⟨"open", path, r⟩
  | .ok ⟨_, none, _⟩ => .error ⟨"open", path, .notFound⟩
  | .ok ⟨_, some .dir, _⟩ => .error ⟨"read", path, .isDirectory⟩
  | .ok ⟨_, some (.file b), _⟩ => .ok b

/-- Whether an entry exists, as a directory (`true`) or a file (`false`). -/
def stat (t : Tree) (path : String) : Except FileError Bool :=
  match t.lookup path with
  | .error r => .error ⟨"stat", path, r⟩
  | .ok ⟨_, none, _⟩ => .error ⟨"stat", path, .notFound⟩
  | .ok ⟨_, some .dir, _⟩ => .ok true
  | .ok ⟨_, some (.file _), _⟩ => .ok false

/-- Opens a file for writing, creating it when missing; `truncate` empties it. A name written
with a trailing `/` cannot be opened as a file, and is refused as a directory. -/
def openWrite (t : Tree) (path : String) (truncate : Bool) : Except FileError Tree :=
  match t.walk path with
  | .error r => .error ⟨"open", path, r⟩
  | .ok ⟨_, some .dir, _⟩ => .error ⟨"open", path, .isDirectory⟩
  | .ok ⟨abs, node, trailing⟩ =>
    if trailing then .error ⟨"open", path, .isDirectory⟩
    else match node with
      | some (.file b) => .ok (if truncate then t.put abs (.file []) else t.put abs (.file b))
      | _ => match t.parentReady abs with
        | .error r => .error ⟨"open", path, r⟩
        | .ok () => .ok (t.put abs (.file []))

def writeFile (t : Tree) (path : String) (bytes : List UInt8) : Except FileError Tree := do
  let t' ← t.openWrite path true
  match t.walk path with
  | .ok w => pure (t'.put w.abs (.file bytes))
  | .error _ => pure t'

/-- Makes one directory; any existing entry at the name, even a file named with a trailing
`/`, is reported as existing. -/
def mkdir (t : Tree) (path : String) : Except FileError Tree :=
  match t.walk path with
  | .error r => .error ⟨"mkdir", path, r⟩
  | .ok ⟨_, some _, _⟩ => .error ⟨"mkdir", path, .exists⟩
  | .ok ⟨abs, none, _⟩ => match t.parentReady abs with
    | .error r => .error ⟨"mkdir", path, r⟩
    | .ok () => .ok (t.put abs .dir)

/-- The text of a path before its last element, with trailing slashes skipped: the parent
that `mkdirAll` makes first, if any. -/
def parentText (path : String) : Option String :=
  let cs := (path.toList.reverse.dropWhile (· == '/'))
  let rest := cs.dropWhile (· != '/')
  match rest with
  | [] => none
  | _ :: before => if before.isEmpty then none else some (String.ofList before.reverse)

/-- Makes a directory and any missing parents; an existing directory is fine, an existing
file is not. At most `fuel` levels are made. -/
def mkdirAllWith (t : Tree) : Nat → String → Except FileError Tree
  | 0, path => t.mkdir path
  | fuel + 1, path =>
    match t.stat path with
    | .ok true => .ok t
    | .ok false => .error ⟨"mkdir", path, .notDirectory⟩
    | .error _ =>
      let made := match parentText path with
        | some parent => t.mkdirAllWith fuel parent
        | none => .ok t
      match made with
      | .error e => .error e
      | .ok t' => match t'.mkdir path with
        | .ok t'' => .ok t''
        | .error e => match t'.stat path with
          | .ok true => .ok t'
          | _ => .error e

def mkdirAll (t : Tree) (path : String) : Except FileError Tree :=
  t.mkdirAllWith (path.length + 1) path

end Tree

end ScriptMachine.Files
