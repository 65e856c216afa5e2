import ScriptMachine.Text.Blank
import ScriptMachine.Text.Quote
/-!
# Event kinds

The ten kinds of observable events, numbered 0 to 9 in the order below, and the comma lists that
select them: a list is blank (no kinds), `all` (every kind) or names separated by commas, each
matched without regard to case and with blanks around it ignored.
-/

namespace ScriptMachine

inductive Kind where
  | assignment
  | binary
  | comparison
  | funcCalled
  | funcReturned
  | singleStep
  | subscriptAssignment
  | unary
  | vtagEntered
  | vtagExited
  deriving Repr, DecidableEq, Inhabited

namespace Kind

def all : List Kind :=
  [assignment, binary, comparison, funcCalled, funcReturned, singleStep, subscriptAssignment,
   unary, vtagEntered, vtagExited]

def code (k : Kind) : Nat := (all.idxOf? k).getD 0

def ofCode? (n : Nat) : Option Kind := all[n]?

def name : Kind → String
  | assignment => "Assignment"
  | binary => "Binary"
  | comparison => "Comparison"
  | funcCalled => "FuncCalled"
  | funcReturned => "FuncReturned"
  | singleStep => "SingleStep"
  | subscriptAssignment => "SubscriptAssignment"
  | unary => "Unary"
  | vtagEntered => "VTagEntered"
  | vtagExited => "VTagExited"

def nameOfCode (n : Nat) : String :=
  match ofCode? n with
  | some k => k.name
  | none => s!"Kind({n})"

def foldCase (c : Char) : Char :=
  if c.toNat == 0x17F then 's' else if c.toNat == 0x212A then 'k' else c.toLower

def sameIgnoringCase (a b : String) : Bool :=
  a.toList.map foldCase == b.toList.map foldCase

def parse (s : String) : Except String Kind :=
  match all.find? (fun k => sameIgnoringCase k.name s) with
  | some k => .ok k
  | none => .error ("unknown event kind " ++ Text.quote s)

def parseList (list : String) : Except String (List Kind) :=
  if Text.trim list == "" then .ok []
  else if sameIgnoringCase (Text.trim list) "all" then .ok all
  else (list.splitOn ",").mapM fun part => parse (Text.trim part)

end Kind

def storageName (n : Int) : String := if n == 1 then "Local" else "Global"

end ScriptMachine
