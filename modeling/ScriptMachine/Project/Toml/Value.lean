import ScriptMachine.Text.Quote
/-!
# TOML values and key paths

The values a TOML document holds, and how a key path is written in messages. A part of a key is
written bare when it is made only of ASCII letters, digits, `_` and `-`; otherwise it stands in
double quotes, with quotes and backslashes escaped, the usual control characters in their short
forms, and the other control characters as `\u00XX`. Everything else, however unusual, is kept
as it is: quoting the whole message afterwards deals with it.
-/

namespace ScriptMachine.Toml

/-- A value of a TOML document. Dates and times are kept as their text. -/
inductive Value where
  | text (s : String)
  | integer (n : Int)
  | real (x : Float)
  | boolean (b : Bool)
  | moment (s : String)
  | list (items : List Value)
  | table (entries : List (String × Value))
  deriving Inhabited

def Value.typeName : Value → String
  | .text _ => "string"
  | .integer _ => "int64"
  | .real _ => "float64"
  | .boolean _ => "bool"
  | .moment _ => "time.Time"
  | .list _ => "[]interface {}"
  | .table _ => "map[string]interface {}"

def isBareChar (c : Char) : Bool :=
  ('a' ≤ c && c ≤ 'z') || ('A' ≤ c && c ≤ 'Z') || ('0' ≤ c && c ≤ '9') || c == '_' || c == '-'

def keyCharText (c : Char) : String :=
  match c with
  | '"' => "\\\""
  | '\\' => "\\\\"
  | '\x08' => "\\b"
  | '\t' => "\\t"
  | '\n' => "\\n"
  | '\x0c' => "\\f"
  | '\r' => "\\r"
  | c => if c.toNat < 0x20 || c.toNat == 0x7f then "\\u" ++ Text.hexPadded 4 c.toNat
    else c.toString

def keyPart (k : String) : String :=
  if k.isEmpty then "\"\""
  else if k.all isBareChar then k
  else "\"" ++ String.join (k.toList.map keyCharText) ++ "\""

def keyText (path : List String) : String := ".".intercalate (path.map keyPart)

end ScriptMachine.Toml
