import ScriptMachine.Decimal.Layout
import ScriptMachine.Text.Quote
/-!
# Message templates

A template is text with placeholders `%s` (a text), `%d` (an integer), `%q` (a quoted text, or
an integer shown as the quoted character of that code point) and `%v` (any argument in its
natural form); `%%` is a literal percent sign. Placeholders take the arguments in order.

A placeholder whose argument has the wrong type shows `%!d(float64=2.5)`: verb, type name and
natural form; for the absent value, `%!d(<nil>)`. One without an argument shows `%!d(MISSING)`.
Arguments left over are listed at the end as `%!(EXTRA int=1, string=a)`.
-/

namespace ScriptMachine.Text

inductive Arg where
  | int (n : Int)
  | real (x : Float)
  | text (s : String)
  | bool (b : Bool)
  /-- The absent value. -/
  | nil
  deriving Repr

namespace Arg

/-- The type name shown when an argument does not fit its placeholder. -/
def typeName : Arg → String
  | .int _ => "int"
  | .real _ => "float64"
  | .text _ => "string"
  | .bool _ => "bool"
  | .nil => "<nil>"

/-- The natural form: integers in decimal, reals in the shortest general form, texts as they
are, truth values as `true` and `false`, the absent value as `<nil>`. -/
def natural : Arg → String
  | .int n => toString n
  | .real x => Decimal.general x
  | .text s => s
  | .bool b => toString b
  | .nil => "<nil>"

def typed : Arg → String
  | .nil => "<nil>"
  | a => a.typeName ++ "=" ++ a.natural

def misfit (verb : Char) (a : Arg) : String :=
  "%!" ++ verb.toString ++ "(" ++ a.typed ++ ")"

def toCodePoint (n : Int) : Char :=
  if 0 ≤ n && n ≤ 0x10FFFF && !(0xD800 ≤ n && n ≤ 0xDFFF) then Char.ofNat n.toNat
  else Char.ofNat 0xFFFD

def fill (verb : Char) (a : Arg) : String :=
  match verb, a with
  | 's', .text s => s
  | 'd', .int n => toString n
  | 'q', .text s => quote s
  | 'q', .int n => quoteChar (toCodePoint n)
  | 'v', a => a.natural
  | verb, a => a.misfit verb

end Arg

/-- Fills the placeholders of a template, as characters, with the arguments. -/
def fillChars : List Char → List Arg → String
  | [], [] => ""
  | [], extra =>
    "%!(EXTRA " ++ ", ".intercalate (extra.map Arg.typed) ++ ")"
  | '%' :: '%' :: rest, args => "%" ++ fillChars rest args
  | '%' :: verb :: rest, a :: args => a.fill verb ++ fillChars rest args
  | '%' :: verb :: rest, [] => "%!" ++ verb.toString ++ "(MISSING)" ++ fillChars rest []
  | c :: rest, args => c.toString ++ fillChars rest args

def fillTemplate (template : String) (args : List Arg) : String :=
  fillChars template.toList args

end ScriptMachine.Text
