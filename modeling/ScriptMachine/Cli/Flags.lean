import ScriptMachine.Text.Quote
import ScriptMachine.Numeric.IntegerText
/-!
# Command-line flags

Flags come before the other arguments: `-name value`, `-name=value`, or, for a switch, `-name`
alone (`-name=false` turns it off). Two dashes work like one, and a bare `--` ends the flags.
The first argument that is not a flag ends them too. A flag given twice keeps its last value.
-/

namespace ScriptMachine.Cli

open ScriptMachine.Numeric

inductive FlagType where
  | text
  | integer
  | switch
  deriving DecidableEq, Inhabited

/-- A flag: its name, type, the line of help that explains it, and its default as text. -/
structure Flag where
  name : String
  type : FlagType
  usage : String
  default : String
  deriving Inhabited

inductive FlagValue where
  | text (s : String)
  | integer (n : Int)
  | switch (b : Bool)
  deriving Inhabited

/-- The flags given, newest first, and the arguments after them. -/
structure Given where
  values : List (String × FlagValue) := []
  args : List String := []
  deriving Inhabited

namespace Given

def text (g : Given) (name default : String) : String :=
  match g.values.lookup name with
  | some (.text s) => s
  | _ => default

def integer (g : Given) (name : String) (default : Int) : Int :=
  match g.values.lookup name with
  | some (.integer n) => n
  | _ => default

def switch (g : Given) (name : String) : Bool :=
  match g.values.lookup name with
  | some (.switch b) => b
  | _ => false

end Given

inductive Outcome where
  | parsed (g : Given)
  | help
  /-- A mistake, explained in one line. -/
  | failed (msg : String)
  deriving Inhabited

def readSwitch : String → Option Bool
  | "1" | "t" | "T" | "true" | "TRUE" | "True" => some true
  | "0" | "f" | "F" | "false" | "FALSE" | "False" => some false
  | _ => none

/-- A set of flags, named by the command it belongs to (empty for the program's own flags). -/
structure FlagSet where
  name : String
  flags : List Flag
  deriving Inhabited

namespace FlagSet

def find? (fs : FlagSet) (name : String) : Option Flag := fs.flags.find? (·.name == name)

def setValue (f : Flag) (value : String) (g : Given) : Except String Given :=
  match f.type with
  | .text => .ok { g with values := (f.name, .text value) :: g.values }
  | .integer => match readInteger value with
    | .ok n => .ok { g with values := (f.name, .integer n) :: g.values }
    | .error e =>
      .error ("invalid value " ++ Text.quote value ++ " for flag -" ++ f.name ++ ": " ++ e.text)
  | .switch => match readSwitch value with
    | some b => .ok { g with values := (f.name, .switch b) :: g.values }
    | none =>
      .error ("invalid boolean value " ++ Text.quote value ++ " for -" ++ f.name ++
        ": parse error")

/-- Reads flags off the front of the arguments; each round reads one flag. -/
def parseWith (fs : FlagSet) : Nat → Given → List String → Outcome
  | 0, g, args => .parsed { g with args := args }
  | fuel + 1, g, args =>
    match args with
    | [] => .parsed { g with args := [] }
    | s :: rest =>
      let cs := s.toList
      if cs.length < 2 || cs.head? != some '-' then .parsed { g with args := args }
      else if s == "--" then .parsed { g with args := rest }
      else
        let name := if cs[1]? == some '-' then cs.drop 2 else cs.drop 1
        match name with
        | [] | '-' :: _ | '=' :: _ => .failed ("bad flag syntax: " ++ s)
        | first :: more =>
          let before := more.takeWhile (· != '=')
          let key := String.ofList (first :: before)
          let value? := match more.drop before.length with
            | _ :: v => some (String.ofList v)
            | [] => none
          match fs.find? key with
          | none =>
            if key == "help" || key == "h" then .help
            else .failed ("flag provided but not defined: -" ++ key)
          | some f =>
            let step : Except String (Given × List String) :=
              match f.type, value? with
              | .switch, none => .ok ({ g with values := (key, .switch true) :: g.values }, rest)
              | _, some v => (setValue f v g).map (·, rest)
              | _, none => match rest with
                | v :: after => (setValue f v g).map (·, after)
                | [] => .error ("flag needs an argument: -" ++ key)
            match step with
            | .ok (g, rest) => parseWith fs fuel g rest
            | .error msg => .failed msg

def parse (fs : FlagSet) (args : List String) : Outcome :=
  fs.parseWith (args.length + 1) {} args

def isZero (f : Flag) : Bool :=
  match f.type with
  | .text => f.default.isEmpty
  | .integer => f.default == "0"
  | .switch => f.default == "false"

/-- The help text of one flag: its name and type, then its explanation and default. -/
def flagHelp (f : Flag) : String :=
  let typeName := match f.type with
    | .text => " string"
    | .integer => " int"
    | .switch => ""
  let head := "  -" ++ f.name ++ typeName
  let sep := if head.length ≤ 4 then "\t" else "\n    \t"
  let default := if isZero f then ""
    else match f.type with
      | .text => " (default " ++ Text.quote f.default ++ ")"
      | _ => " (default " ++ f.default ++ ")"
  head ++ sep ++ f.usage ++ default ++ "\n"

def defaults (fs : FlagSet) : String :=
  String.join ((fs.flags.mergeSort fun a b => a.name ≤ b.name).map flagHelp)

def usage (fs : FlagSet) : String := "Usage of " ++ fs.name ++ ":\n" ++ fs.defaults

end FlagSet

end ScriptMachine.Cli
