import ScriptMachine.Text.Printable
/-!
# Double-quoted text

The quoted form of a text, as messages show names: wrapped in `"`, with the quote and the
backslash escaped by a backslash, the usual control characters as `\n`, `\t` and the like, other
characters that are not printable as `\xHH`, `\uHHHH` or `\UHHHHHHHH` (lower-case hexadecimal), and
every printable character as itself. A single character is quoted the same way between `'`.
-/

namespace ScriptMachine.Text

def unprintable (c : Char) : Bool := !isPrintable c

def hexPadded (width n : Nat) : String :=
  let digit (d : Nat) : Char := if d < 10 then Char.ofNat (48 + d) else Char.ofNat (87 + d)
  String.ofList ((List.range width).reverse.map fun i => digit (n / Nat.pow 16 i % 16))

/-- The escaped form of one character inside quotes `q`. -/
def escapeChar (q : Char) (c : Char) : String :=
  if c = q || c = '\\' then "\\" ++ c.toString
  else if !unprintable c then c.toString
  else match c.toNat with
    | 7 => "\\a"
    | 8 => "\\b"
    | 12 => "\\f"
    | 10 => "\\n"
    | 13 => "\\r"
    | 9 => "\\t"
    | 11 => "\\v"
    | n =>
      if n < 0x20 || n == 0x7F then "\\x" ++ hexPadded 2 n
      else if n < 0x10000 then "\\u" ++ hexPadded 4 n
      else "\\U" ++ hexPadded 8 n

def quote (s : String) : String :=
  "\"" ++ String.join (s.toList.map (escapeChar '"')) ++ "\""

def quoteChar (c : Char) : String :=
  "\x27" ++ escapeChar (Char.ofNat 39) c ++ "\x27"

end ScriptMachine.Text
