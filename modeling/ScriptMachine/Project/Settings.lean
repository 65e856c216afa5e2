import ScriptMachine.Project.Toml.Document
import ScriptMachine.Files.Host
/-!
# Project settings

A project keeps its settings in a `seed.toml` file with three tables: `run` (`mode`,
`max-call-depth`), `log` (`verbosity`, `file`) and `store` (`path`). Missing or empty settings
take defaults, and looking for settings walks up from a directory to the first `seed.toml`.
-/

namespace ScriptMachine.Project

open Files

def fileName : String := "seed.toml"

/-- A project's settings, and the directory of the file they came from. -/
structure Settings where
  mode : String := ""
  maxCallDepth : Int := 0
  verbosity : Int := 0
  logFile : String := ""
  storePath : String := ""
  dir : String := ""
  deriving Inhabited, Repr

inductive SettingsError where
  | unreadable (path : String) (e : FileError)
  /-- The file is not TOML, or a value has the wrong type; with the reader's account. -/
  | malformed (path : String) (detail : String)
  | unknownKey (path : String) (key : String)
  | badMode (path : String) (mode : String)
  deriving Inhabited

def SettingsError.text : SettingsError → String
  | .unreadable p e => "cannot read " ++ p ++ ": " ++ e.text
  | .malformed p d => "parse error in " ++ p ++ ": " ++ d
  | .unknownKey p k => p ++ ": unknown key " ++ Text.quote k
  | .badMode p m => p ++ ": run.mode must be \"script\" or \"interactive\", not " ++ Text.quote m

namespace Settings

def withDefaults (s : Settings) : Settings :=
  { s with
    mode := if s.mode.isEmpty then "script" else s.mode
    maxCallDepth := if s.maxCallDepth ≤ 0 then 256 else s.maxCallDepth
    storePath := if s.storePath.isEmpty then ".seed/chunks.db" else s.storePath }

def default : Settings := ({} : Settings).withDefaults

def storeLocation (s : Settings) : String :=
  if isAbsolute s.storePath || s.storePath == ":memory:" then s.storePath
  else join [s.dir, s.storePath]

def logLocation (s : Settings) : String :=
  if s.logFile.isEmpty || isAbsolute s.logFile then s.logFile
  else join [s.dir, s.logFile]

end Settings

inductive Field where
  | mode
  | maxCallDepth
  | verbosity
  | logFile
  | storePath
  deriving DecidableEq, Inhabited

def tables : List (String × List (String × Field)) :=
  [("run", [("mode", .mode), ("max-call-depth", .maxCallDepth)]),
   ("log", [("verbosity", .verbosity), ("file", .logFile)]),
   ("store", [("path", .storePath)])]

def foldChar (c : Char) : Char :=
  if c.toNat == 0x17F then 's' else if c.toNat == 0x212A then 'k' else c.toLower

def sameFolded (a b : String) : Bool :=
  a.length == b.length && (a.toList.zip b.toList).all fun (x, y) => foldChar x == foldChar y

def named {α : Type} (entries : List (String × α)) (k : String) : Option α :=
  match entries.find? (·.1 == k) with
  | some e => some e.2
  | none => (entries.find? fun e => sameFolded e.1 k).map (·.2)

def typeError (line : Nat) (path : List String) (found wanted : String) : String :=
  "toml: line " ++ toString line ++ " (last key " ++ Text.quote (Toml.keyText path) ++
    "): incompatible types: TOML value has type " ++ found ++ "; destination has type " ++ wanted

/-- Sets one setting from a value, which must have the setting's type. -/
def Settings.set (s : Settings) (line : Nat) (path : List String) :
    Field → Toml.Value → Except String Settings
  | .mode, .text t => pure { s with mode := t }
  | .maxCallDepth, .integer n => pure { s with maxCallDepth := n }
  | .verbosity, .integer n => pure { s with verbosity := n }
  | .logFile, .text t => pure { s with logFile := t }
  | .storePath, .text t => pure { s with storePath := t }
  | .mode, v | .logFile, v | .storePath, v => throw (typeError line path v.typeName "string")
  | .maxCallDepth, v | .verbosity, v => throw (typeError line path v.typeName "integer")

def lineOf (p : Toml.Parsed) (path : List String) : Nat :=
  ((p.keys.find? (·.1 == path)).map (·.2)).getD 0

/-- Sets the settings of one table's keys, noting each key used. -/
def decodeTable (p : Toml.Parsed) (name : String) (fields : List (String × Field)) :
    Settings × List String → List (String × Toml.Value) →
    Except String (Settings × List String)
  | acc, [] => pure acc
  | (s, used), (k, v) :: rest =>
    match named fields k with
    | none => decodeTable p name fields (s, used) rest
    | some f => do
      let path := [name, k]
      let s ← s.set (lineOf p path) path f v
      decodeTable p name fields (s, used ++ [Toml.keyText path]) rest

def decode (p : Toml.Parsed) : Except String (Settings × List String) :=
  p.table.foldlM (fun (acc : Settings × List String) (k, v) =>
    match named tables k with
    | none => pure acc
    | some fields =>
      let used := acc.2 ++ [Toml.keyText [k]]
      match v with
      | .table es => decodeTable p k fields (acc.1, used) es
      | other => throw ("toml: line " ++ toString (lineOf p [k]) ++ " (last key " ++
          Text.quote (Toml.keyText [k]) ++ "): type mismatch: expected table but found " ++
          other.typeName)) ({}, [])

/-- Reads the settings file text of a file at `path` in directory `dir`, given the working
directory. -/
def readSettings (cwd dir path : String) (bytes : List UInt8) : Except SettingsError Settings := do
  let parsed ← match Toml.parseBytes bytes with
    | .ok p => pure p
    | .error msg => throw (.malformed path msg)
  let (s, used) ← match decode parsed with
    | .ok r => pure r
    | .error msg => throw (.malformed path msg)
  match parsed.keys.find? fun (k, _) => !used.contains (Toml.keyText k) with
  | some (k, _) => throw (.unknownKey path (Toml.keyText k))
  | none => pure ()
  let s := { s with dir := absolute cwd dir }.withDefaults
  if s.mode != "script" && s.mode != "interactive" then throw (.badMode path s.mode)
  pure s

def load (dir : String) : Host (Except SettingsError Settings) := do
  let path := join [dir, fileName]
  match ← Host.read path with
  | .error e => pure (.error (.unreadable path e))
  | .ok bytes => pure (readSettings (← Host.cwd) dir path bytes)

/-- Walks up from a directory, at most `fuel` levels, to the first with a settings file. -/
def findFrom (start : String) : Nat → String → Host (Except SettingsError Settings)
  | 0, _ => pure (.ok { Settings.default with dir := start })
  | fuel + 1, dir => do
    match ← Host.exists? (join [dir, fileName]) with
    | .ok _ => load dir
    | .error _ =>
      let parent := Files.dir dir
      if parent == dir then pure (.ok { Settings.default with dir := start })
      else findFrom start fuel parent

def find (start : String) : Host (Except SettingsError Settings) := do
  let dir := absolute (← Host.cwd) start
  findFrom dir (dir.length + 1) dir

end ScriptMachine.Project
