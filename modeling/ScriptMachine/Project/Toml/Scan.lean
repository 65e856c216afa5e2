import ScriptMachine.Project.Toml.Value
/-!
# Scanning TOML text: blanks, comments, keys and strings

The reading state is the text left; a failure keeps the text left where it happened, so that the
line of the failure can be told.
-/

namespace ScriptMachine.Toml

abbrev Scan := StateT (List Char) (Except (List Char × String))

def fail {α : Type} (msg : String) : Scan α := do throw ((← get), msg)

def orFail {α : Type} : Except String α → Scan α
  | .ok a => pure a
  | .error msg => fail msg

def expect (c : Char) (what : String) : Scan Unit := do
  match ← get with
  | d :: rest => if d == c then set rest else fail what
  | [] => fail what

def isBlank (c : Char) : Bool := c == ' ' || c == '\t'

def skipSpaces : Scan Unit := modify (·.dropWhile isBlank)

def skipComment : Scan Unit := do
  match ← get with
  | '#' :: rest => set (rest.dropWhile fun c => c != '\n' && c != '\r')
  | _ => pure ()

/-- Consumes a line end, or nothing at the end of input. -/
def lineEnd (what : String) : Scan Unit := do
  match ← get with
  | [] => pure ()
  | '\n' :: rest => set rest
  | '\r' :: '\n' :: rest => set rest
  | _ => fail what

def finishLine : Scan Unit := do
  skipSpaces
  skipComment
  lineEnd "expected a newline after a value"

/-- Skips spaces, line ends and comments, as allowed between the items of an array or an inline
table. -/
def skipBlank : Nat → Scan Unit
  | 0 => pure ()
  | fuel + 1 => do
    skipSpaces
    skipComment
    match ← get with
    | '\n' :: rest => set rest; skipBlank fuel
    | '\r' :: '\n' :: rest => set rest; skipBlank fuel
    | _ => pure ()

def hexDigit? (c : Char) : Option Nat :=
  if '0' ≤ c && c ≤ '9' then some (c.toNat - '0'.toNat)
  else if 'a' ≤ c && c ≤ 'f' then some (c.toNat - 'a'.toNat + 10)
  else if 'A' ≤ c && c ≤ 'F' then some (c.toNat - 'A'.toNat + 10)
  else none

def hexDigits (n : Nat) (cs : List Char) : Bool :=
  cs.length == n && cs.all fun c => (hexDigit? c).isSome

/-- The characters of an escape after its backslash, when they have the shape of one. -/
def escapeShape (cs : List Char) : Option (List Char) :=
  match cs with
  | c :: rest =>
    let coded (n : Nat) : Option (List Char) :=
      if hexDigits n (rest.take n) then some (c :: rest.take n) else none
    if c == 'x' then coded 2
    else if c == 'u' then coded 4
    else if c == 'U' then coded 8
    else if "btnfre\"\\ \t".toList.contains c then some [c]
    else none
  | [] => none

/-- The raw text of a one-line basic string after its opening quote, and the input after its
closing quote. -/
def basicRaw : Nat → List Char → List Char → Except String (List Char × List Char)
  | 0, _, _ => .error "unexpected end of a string"
  | fuel + 1, acc, cs =>
    match cs with
    | [] => .error "unexpected end of a string"
    | '"' :: rest => .ok (acc.reverse, rest)
    | '\n' :: _ | '\r' :: _ => .error "strings cannot contain newlines"
    | '\\' :: rest =>
      match escapeShape rest with
      | some e => basicRaw fuel (e.reverse ++ '\\' :: acc) (rest.drop e.length)
      | none => .error "invalid escape in a string"
    | c :: rest => basicRaw fuel (c :: acc) rest

def literalRaw (cs : List Char) : Except String (List Char × List Char) :=
  let body := cs.takeWhile fun c => c != '\x27' && c != '\n' && c != '\r'
  match cs.drop body.length with
  | '\x27' :: rest => .ok (body, rest)
  | _ => .error "unexpected end of a string"

def fiveAtEnd (q : Char) (acc : List Char) : Bool := acc.take 5 == List.replicate 5 q

/-- The raw text of a multi-line string with delimiter `q` after its opening delimiters, and the
input after its closing ones; `basic` strings take escapes. -/
def multiRaw (q : Char) (basic : Bool) : Nat → List Char → List Char →
    Except String (List Char × List Char)
  | 0, _, _ => .error "unexpected end of a multi-line string"
  | fuel + 1, acc, cs =>
    match cs with
    | [] => .error "unexpected end of a multi-line string"
    | '\\' :: rest =>
      if !basic then multiRaw q basic fuel ('\\' :: acc) rest
      else
        match rest with
        | c :: after =>
          if c == '\n' || c == '\r' then multiRaw q basic fuel (c :: '\\' :: acc) after
          else
            match escapeShape rest with
            | some e => multiRaw q basic fuel (e.reverse ++ '\\' :: acc) (rest.drop e.length)
            | none => .error "invalid escape in a string"
        | [] => .error "unexpected end of a multi-line string"
    | c :: rest =>
      if c == q && rest.take 2 == [q, q] then
        match rest.drop 2 with
        | d :: _ =>
          if d == q then
            let seen := q :: q :: q :: acc
            if fiveAtEnd q seen && !(basic && (seen.drop 5).head? == some '\\') then
              .error "too many quotes at the end of a multi-line string"
            else multiRaw q basic fuel (q :: acc) rest
          else .ok (acc.reverse, rest.drop 2)
        | [] => .ok (acc.reverse, [])
      else multiRaw q basic fuel (c :: acc) rest

def dropFirstNewline : List Char → List Char
  | '\n' :: rest => rest
  | '\r' :: '\n' :: rest => rest
  | cs => cs

def isLineBlank (c : Char) : Bool := c == ' ' || c == '\t' || c == '\r' || c == '\n'

/-- Removes each backslash that ends a line, with the blanks and line ends after it. A backslash
followed by blanks without a line end stays, to be refused as an escape. -/
def joinLines : Nat → List Char → List Char
  | 0, cs => cs
  | fuel + 1, cs =>
    match cs with
    | [] => []
    | '\\' :: '\\' :: rest => '\\' :: '\\' :: joinLines fuel rest
    | '\\' :: rest =>
      let blanks := rest.takeWhile isLineBlank
      if blanks.contains '\n' then joinLines fuel (rest.drop blanks.length)
      else '\\' :: joinLines fuel rest
    | c :: rest => c :: joinLines fuel rest

def codePoint (digits : List Char) : Except String Char :=
  let n := digits.foldl (fun acc c => acc * 16 + (hexDigit? c).getD 0) 0
  if n > 0x10FFFF || (0xD800 ≤ n && n ≤ 0xDFFF) then .error "escaped character is not valid UTF-8"
  else .ok (Char.ofNat n)

def unescape : Nat → List Char → List Char → Except String (List Char)
  | 0, acc, _ => .ok acc.reverse
  | fuel + 1, acc, cs =>
    match cs with
    | [] => .ok acc.reverse
    | '\\' :: c :: rest =>
      let plain (d : Char) := unescape fuel (d :: acc) rest
      let coded (n : Nat) := do
        let d ← codePoint (rest.take n)
        unescape fuel (d :: acc) (rest.drop n)
      match c with
      | 'b' => plain '\x08'
      | 't' => plain '\t'
      | 'n' => plain '\n'
      | 'f' => plain '\x0c'
      | 'r' => plain '\r'
      | 'e' => plain '\x1b'
      | '"' => plain '"'
      | '\\' => plain '\\'
      | 'x' => coded 2
      | 'u' => coded 4
      | 'U' => coded 8
      | _ => .error "invalid escape in a string"
    | c :: rest => unescape fuel (c :: acc) rest

/-- A one-line string of either kind, starting at its opening quote. -/
def lineString : Scan String := do
  match ← get with
  | '"' :: rest =>
    let (raw, after) ← orFail (basicRaw (rest.length + 1) [] rest)
    let text ← orFail (unescape (raw.length + 1) [] raw)
    set after
    pure (String.ofList text)
  | '\x27' :: rest =>
    let (raw, after) ← orFail (literalRaw rest)
    set after
    pure (String.ofList raw)
  | _ => fail "expected a string"

/-- A string of any of the four kinds, starting at its opening delimiter. -/
def stringValue : Scan String := do
  match ← get with
  | '"' :: '"' :: '"' :: rest =>
    let (raw, after) ← orFail (multiRaw '"' true (rest.length + 1) [] rest)
    let raw := dropFirstNewline raw
    let text ← orFail (unescape (raw.length + 1) [] (joinLines (raw.length + 1) raw))
    set after
    pure (String.ofList text)
  | '\x27' :: '\x27' :: '\x27' :: rest =>
    let (raw, after) ← orFail (multiRaw '\x27' false (rest.length + 1) [] rest)
    set after
    pure (String.ofList (dropFirstNewline raw))
  | _ => lineString

/-- One part of a key: bare, or a one-line quoted string. -/
def simpleKey : Scan String := do
  match ← get with
  | '"' :: _ | '\x27' :: _ => lineString
  | cs =>
    let k := cs.takeWhile isBareChar
    if k.isEmpty then fail "expected a key"
    set (cs.drop k.length)
    pure (String.ofList k)

def keyRest : Nat → List String → Scan (List String)
  | 0, acc => pure acc.reverse
  | fuel + 1, acc => do
    let saved ← get
    skipSpaces
    match ← get with
    | '.' :: rest =>
      set rest
      skipSpaces
      let k ← simpleKey
      keyRest fuel (k :: acc)
    | _ => set saved; pure acc.reverse

def key : Scan (List String) := do
  let k ← simpleKey
  keyRest ((← get).length + 1) [k]

end ScriptMachine.Toml
