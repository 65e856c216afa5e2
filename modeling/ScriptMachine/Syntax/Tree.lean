import ScriptMachine.Text.Span
/-!
# Syntax trees

The programs the compiler takes: expressions and statements of a small language with numbers,
texts, lists, tuples, dicts, functions and tagged regions, each node carrying the span of its
source text. Operators are integer codes (`Syntax.Operator`). A block's span runs from its first
statement's start to its last statement's end, and is empty for an empty block.
-/

namespace ScriptMachine.Syntax

inductive Expr where
  /-- The constant `None`. -/
  | nil (span : Span)
  | bool (span : Span) (value : Bool)
  | num (span : Span) (value : Float)
  | str (span : Span) (value : String)
  /-- A variable. -/
  | ident (span : Span) (name : String)
  | binary (span : Span) (op : Int) (left right : Expr)
  | unary (span : Span) (op : Int) (operand : Expr)
  /-- Operands joined by one boolean operator: `a and b and c`. -/
  | logic (span : Span) (op : Int) (operands : List Expr)
  /-- A comparison chain `first ops[0] rest[0] ops[1] rest[1] …`. -/
  | compare (span : Span) (first : Expr) (ops : List Int) (rest : List Expr)
  | list (span : Span) (items : List Expr)
  | tuple (span : Span) (items : List Expr)
  | dict (span : Span) (entries : List (Expr × Expr))
  /-- An element read `container[key]`. -/
  | index (span : Span) (container key : Expr)
  | call (span : Span) (callee : Expr) (args : List Expr)
  deriving Inhabited

namespace Expr

def span : Expr → Span
  | nil s | bool s _ | num s _ | str s _ | ident s _ | binary s _ _ _ | unary s _ _
  | logic s _ _ | compare s _ _ _ | list s _ | tuple s _ | dict s _ | index s _ _
  | call s _ _ => s

def nameOf : Expr → String
  | ident _ n => n
  | _ => ""

def ident? : Expr → Option String
  | ident _ n => some n
  | _ => none

/-- What an expression is, as the error for assigning to it says. -/
def describe : Expr → String
  | call .. => "function call"
  | binary .. | unary .. | logic .. | compare .. => "operator"
  | list .. => "list"
  | tuple .. => "tuple"
  | dict .. => "dict"
  | _ => "literal"

end Expr

/-- One tag of a tagged region: its name and its arguments, each with its source text. -/
structure Tag where
  name : String
  args : List (String × Expr)
  deriving Inhabited

inductive Stmt where
  /-- An expression evaluated for its effect. -/
  | eval (span : Span) (expr : Expr)
  /-- Stores values into targets: one value per target, several values packed into a tuple
  for one target, or one value unpacked over several targets. -/
  | assign (span : Span) (targets values : List Expr)
  | block (span : Span) (body : List Stmt)
  /-- `if test: yes else: no`. -/
  | cond (span : Span) (test : Expr) (yes : Stmt) (no : Option Stmt)
  /-- `while test: body`. -/
  | loop (span : Span) (test : Expr) (body : Stmt)
  /-- `for var in seq: body`; `varSpan` is the span of the variable. -/
  | each (span : Span) (var : String) (varSpan : Span) (seq : Expr) (body : Stmt)
  /-- A function definition. -/
  | define (span : Span) (name : String) (params : List String) (body : Stmt)
  | ret (span : Span) (values : List Expr)
  | pass (span : Span)
  /-- A region observed through its tags. -/
  | tagged (span : Span) (tags : List Tag) (body : List Stmt)
  deriving Inhabited

namespace Stmt

def span : Stmt → Span
  | eval s _ | assign s _ _ | block s _ | cond s _ _ _ | loop s _ _ | each s _ _ _ _
  | define s _ _ _ | ret s _ | pass s | tagged s _ _ => s

def blockSpan : List Stmt → Span
  | [] => Span.empty
  | first :: rest => Span.cover first.span (rest.getLast?.getD first).span

def blockOf (body : List Stmt) : Stmt := block (blockSpan body) body

end Stmt

/-- The names a statement assigns, directly or in nested statements, in order of appearance
with repeats: assignment targets that are variables, loop variables and the names of defined
functions. Function bodies are not entered. -/
def assignedIn : Stmt → List String
  | .block _ body => assignedInAll body
  | .assign _ targets _ => targets.filterMap Expr.ident?
  | .cond _ _ yes none => assignedIn yes
  | .cond _ _ yes (some no) => assignedIn yes ++ assignedIn no
  | .loop _ _ body => assignedIn body
  | .each _ var _ _ body => var :: assignedIn body
  | .define _ name _ _ => [name]
  | .tagged _ _ body => assignedInAll body
  | .eval .. | .ret .. | .pass .. => []
where
  /-- The names a list of statements assigns. -/
  assignedInAll : List Stmt → List String
    | [] => []
    | s :: rest => assignedIn s ++ assignedInAll rest

def firstOccurrences : List String → List String
  | [] => []
  | x :: xs => x :: (firstOccurrences xs).filter (· != x)

/-- A whole program: its name and its statements; a program without a body is empty. -/
structure Program where
  name : String
  body : Option (List Stmt)
  deriving Inhabited

end ScriptMachine.Syntax
