/-!
# Cutting text by bytes

Some limits count the bytes of a text's UTF-8 encoding. `cutBytes s n` keeps the first `n`
bytes; a character that the cut splits leaves bytes that decode to nothing, and each of them is
shown as the replacement character U+FFFD, as a decoder that replaces each invalid byte does.
-/

namespace ScriptMachine.Text

def replacement : Char := Char.ofNat 0xFFFD

/-- The first `n` bytes of the characters, as text: whole characters kept, the bytes of a split
character each shown as U+FFFD. -/
def cutChars : List Char → Nat → List Char
  | [], _ => []
  | c :: cs, n =>
    let size := c.utf8Size
    if size ≤ n then c :: cutChars cs (n - size)
    else List.replicate n replacement

def cutBytes (s : String) (n : Nat) : String := String.ofList (cutChars s.toList n)

end ScriptMachine.Text
