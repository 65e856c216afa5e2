/-!
# Integer text in any base

The integer texts read here: an optional sign, then decimal digits, or digits of the base a
prefix names (`0x` hexadecimal, `0o` octal, `0b` binary, or a bare leading `0` for octal). An
underscore may stand between two digits, or between a prefix and a digit. Values must fit a
signed 64-bit word; a text naming a larger one is refused as out of range rather than as
malformed, as soon as its digits pass `2^64`.
-/

namespace ScriptMachine.Numeric

def digitValue (c : Char) : Option Nat :=
  if c.isDigit then some (c.toNat - '0'.toNat)
  else if c.toLower.isLower then some (c.toLower.toNat - 'a'.toNat + 10)
  else none

/-- Whether the underscores of a number stand only between digits, or between a base prefix
and a digit. -/
def underscoresFit (s : List Char) : Bool :=
  let s := match s with
    | '+' :: r | '-' :: r => r
    | r => r
  let (hex, start, body) := match s with
    | '0' :: c :: r =>
      if c.toLower == 'b' || c.toLower == 'o' || c.toLower == 'x' then
        (c.toLower == 'x', '0', r)
      else (false, '^', s)
    | _ => (false, '^', s)
  let last := body.foldl (fun (saw : Option Char) c =>
    match saw with
    | none => none
    | some saw =>
      if c.isDigit || (hex && 'a' ≤ c.toLower && c.toLower ≤ 'f') then some '0'
      else if c == '_' then (if saw == '0' then some '_' else none)
      else if saw == '_' then none
      else some '!') (some start)
  match last with
  | some saw => saw != '_'
  | none => false

/-- Why a number was not read: its text is not a number, or the number is too large. -/
inductive NumberError where
  | malformed
  | tooLarge
  deriving DecidableEq, Inhabited

def NumberError.text : NumberError → String
  | .malformed => "parse error"
  | .tooLarge => "value out of range"

/-- Reads digits of a base below 2^64, noting underscores. Too large a value is refused as
soon as it is reached. -/
def readDigits (base : Nat) : List Char → Nat → Bool → Except NumberError (Nat × Bool)
  | [], n, u => .ok (n, u)
  | '_' :: rest, n, _ => readDigits base rest n true
  | c :: rest, n, u =>
    match digitValue c with
    | some d =>
      if d < base then
        let n := n * base + d
        if n ≥ Nat.pow 2 64 then .error .tooLarge else readDigits base rest n u
      else .error .malformed
    | none => .error .malformed

/-- Reads a signed 64-bit number, the base chosen by its prefix. -/
def readInteger (s : String) : Except NumberError Int := do
  let (neg, body) := match s.toList with
    | '+' :: r => (false, r)
    | '-' :: r => (true, r)
    | r => (false, r)
  if body.isEmpty then throw .malformed
  let (base, digits) := match body with
    | '0' :: c :: r =>
      if body.length ≥ 3 && c.toLower == 'b' then (2, r)
      else if body.length ≥ 3 && c.toLower == 'o' then (8, r)
      else if body.length ≥ 3 && c.toLower == 'x' then (16, r)
      else (8, c :: r)
    | ['0'] => (8, [])
    | _ => (10, body)
  let (n, underscores) ← readDigits base digits 0 false
  if underscores && !underscoresFit body then throw .malformed
  if !neg && n ≥ Nat.pow 2 63 then throw .tooLarge
  if neg && n > Nat.pow 2 63 then throw .tooLarge
  pure (if neg then -(n : Int) else n)

end ScriptMachine.Numeric
