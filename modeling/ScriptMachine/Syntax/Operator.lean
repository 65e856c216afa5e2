/-!
# Operators of the syntax tree

Operators are carried in the tree as integer codes, so a tree may hold a code that names no
operator. The four families are numbered from zero in the order of their name tables below.
A code past the end of a table prints as `Family(n)`; a negative code names no entry at all,
and looking it up is an index fault at that code (`Except.error n`). The boolean family is
decided case by case and so has a name for every code.
-/

namespace ScriptMachine.Syntax

def tableEntry (table : List String) (fallback : String) (n : Int) : Except Int String :=
  if n < 0 then .error n else .ok ((table[n.toNat]?).getD fallback)

def binaryNames : List String :=
  ["Add", "Subtract", "Multiply", "Divide", "FloorDivide", "Power", "Modulo"]

def binarySymbols : List String := ["+", "-", "*", "/", "//", "**", "%"]

def unaryNames : List String := ["Positive", "Negative", "Not"]

def comparisonNames : List String :=
  ["Less", "Greater", "LessEqual", "GreaterEqual", "EqEqual", "NotEqual", "In"]

def comparisonSymbols : List String := ["<", ">", "<=", ">=", "==", "!=", "in"]

def binaryName (n : Int) : Except Int String :=
  tableEntry binaryNames s!"BinaryOperator({n})" n

def binarySymbol (n : Int) : Except Int String := tableEntry binarySymbols "?" n

def unaryName (n : Int) : Except Int String :=
  tableEntry unaryNames s!"UnaryOperator({n})" n

def booleanName (n : Int) : String :=
  if n == 0 then "And" else if n == 1 then "Or" else s!"BooleanOperator({n})"

def comparisonName (n : Int) : Except Int String :=
  tableEntry comparisonNames s!"ComparisonOperator({n})" n

def comparisonSymbol (n : Int) : Except Int String := tableEntry comparisonSymbols "?" n

def faultText (n : Int) : String := s!"runtime error: index out of range [{n}]"

def shownName (verb : Char) : Except Int String → String
  | .ok s => s
  | .error n => "%!" ++ verb.toString ++ "(PANIC=String method: " ++ faultText n ++ ")"

def codeOfName (table : List String) (s : String) : Option Int :=
  (table.idxOf? s).map Int.ofNat

end ScriptMachine.Syntax
