import ScriptMachine.Project.Toml.Scan
import ScriptMachine.Decimal.Read
import ScriptMachine.Numeric.IntegerText
/-!
# TOML numbers, booleans, dates and times

A value that is not a string, an array or an inline table is first cut out of the text by its
characters (a date or time, a prefixed or decimal integer, a float, `inf` or `nan`), then
checked: underscores only between digits, no leading zeros, days that exist in their month, and
integers that fit 64 bits.
-/

namespace ScriptMachine.Toml

/-- The pieces a value other than a string, array or table is cut into. -/
inductive Lexeme where
  | integer (text : List Char)
  | float (text : List Char)
  | moment (text : List Char)
  | boolean (b : Bool)

def isFloatChar (c : Char) : Bool :=
  c.isDigit || c == '_' || c == '.' || c == '-' || c == '+' || c == 'e' || c == 'E'

def isMomentChar (c : Char) : Bool :=
  c.isDigit || c == '-' || c == ':' || c == 'T' || c == 't' || c == ' ' || c == '.' ||
    c == 'Z' || c == 'z' || c == '+'

def isDecimalChar (c : Char) : Bool := c.isDigit || c == '_'

/-- Reads on after the digits and underscores of a number: a point or an exponent letter makes it
a float. -/
def afterDecimal (text rest : List Char) : Lexeme × List Char :=
  match rest with
  | c :: _ =>
    if c == '.' || c == 'e' || c == 'E' then
      let more := rest.takeWhile isFloatChar
      (.float (text ++ more), rest.drop more.length)
    else (.integer text, rest)
  | [] => (.integer text, [])

def decimalRun (text rest : List Char) : Lexeme × List Char :=
  let more := rest.takeWhile isDecimalChar
  afterDecimal (text ++ more) (rest.drop more.length)

def momentRun (text rest : List Char) : Lexeme × List Char :=
  let more := rest.takeWhile isMomentChar
  let whole := text ++ more
  let kept := (whole.reverse.dropWhile (· == ' ')).reverse
  (.moment kept, rest.drop (more.length - (whole.length - kept.length)))

/-- Cuts out an integer in the base a prefix letter names, the prefix read. -/
def baseRun (prefixText : List Char) (isDigitOf : Char → Bool) (rest : List Char) :
    Except String (Lexeme × List Char) :=
  match rest with
  | c :: _ =>
    if isDigitOf c then
      let more := rest.takeWhile fun c => isDigitOf c || c == '_'
      .ok (.integer (prefixText ++ more), rest.drop more.length)
    else .error "invalid digit after a base prefix"
  | [] => .error "invalid digit after a base prefix"

/-- Cuts out a number, date or time starting with a digit. -/
def numberOrMoment (cs : List Char) : Except String (Lexeme × List Char) :=
  let digits := cs.takeWhile Char.isDigit
  let rest := cs.drop digits.length
  match digits, rest with
  | ['0'], 'x' :: r => baseRun ['0', 'x'] (fun c => (hexDigit? c).isSome) r
  | ['0'], 'o' :: r => baseRun ['0', 'o'] (fun c => '0' ≤ c && c ≤ '7') r
  | ['0'], 'b' :: r => baseRun ['0', 'b'] (fun c => c == '0' || c == '1') r
  | ['0'], _ => .ok (decimalRun digits rest)
  | _, '-' :: _ | _, ':' :: _ => .ok (momentRun digits rest)
  | _, _ => .ok (decimalRun digits rest)

def signed (sign : Char) (cs : List Char) : Except String (Lexeme × List Char) :=
  match cs with
  | 'i' :: 'n' :: 'f' :: rest => .ok (.float [sign, 'i', 'n', 'f'], rest)
  | 'n' :: 'a' :: 'n' :: rest => .ok (.float [sign, 'n', 'a', 'n'], rest)
  | '0' :: c :: _ =>
    if c == 'b' || c == 'o' || c == 'x' then .error "a signed number cannot have a base prefix"
    else .ok (decimalRun [sign] cs)
  | c :: _ => if c.isDigit then .ok (decimalRun [sign] cs) else .error "expected a digit"
  | [] => .error "expected a digit"

def lexeme (cs : List Char) : Except String (Lexeme × List Char) :=
  match cs with
  | 'i' :: 'n' :: 'f' :: rest => .ok (.float ['i', 'n', 'f'], rest)
  | 'n' :: 'a' :: 'n' :: rest => .ok (.float ['n', 'a', 'n'], rest)
  | 't' :: 'r' :: 'u' :: 'e' :: rest => .ok (.boolean true, rest)
  | 'f' :: 'a' :: 'l' :: 's' :: 'e' :: rest => .ok (.boolean false, rest)
  | '+' :: rest => signed '+' rest
  | '-' :: rest => signed '-' rest
  | c :: _ => if c.isDigit then numberOrMoment cs else .error "expected a value"
  | [] => .error "expected a value"

def underscoresBetween (cs : List Char) : Bool :=
  cs.getLast? != some '_' &&
    (cs.zip (' ' :: cs)).all fun (c, before) => c != '_' || (hexDigit? before).isSome

def leadingZero (cs : List Char) : Bool :=
  match cs with
  | '0' :: c :: _ => !(c == 'b' || c == 'o' || c == 'x')
  | '+' :: '0' :: _ :: _ | '-' :: '0' :: _ :: _ => true
  | _ => false

def pointsFollowed (cs : List Char) : Bool :=
  (cs.zip (cs.tail ++ [' '])).all fun (c, next) => c != '.' || next.isDigit

def floatParts (cs : List Char) : List (List Char) :=
  ((cs.splitOn '.').flatMap (·.splitOn 'e')).flatMap (·.splitOn 'E') |>.filter (!·.isEmpty)

def integerValue (cs : List Char) : Except String Value :=
  if !underscoresBetween cs then .error "underscores must be surrounded by digits"
  else if leadingZero cs then .error "integers cannot have leading zeroes"
  else match Numeric.readInteger (String.ofList cs) with
    | .ok n => .ok (.integer n)
    | .error _ => .error "invalid integer"

def floatValue (cs : List Char) : Except String Value :=
  let parts := floatParts cs
  if !parts.all underscoresBetween then .error "underscores must be surrounded by digits"
  else if (parts.head?.map leadingZero).getD false then .error "floats cannot have leading zeroes"
  else if !pointsFollowed cs then .error "a point must be followed by digits"
  else
    let plain := cs.filter (· != '_')
    let (plain, negative) := match plain with
      | ['+', 'n', 'a', 'n'] => (['n', 'a', 'n'], false)
      | ['-', 'n', 'a', 'n'] => (['n', 'a', 'n'], true)
      | p => (p, false)
    match Decimal.read? (String.ofList plain) with
    | some r =>
      if r.outOfRange then .error "float is out of range"
      else .ok (.real (if negative then -r.value else r.value))
    | none => .error "invalid float"

def fixedDigits (n : Nat) (cs : List Char) : Option (Nat × List Char) :=
  let ds := cs.take n
  if ds.length == n && ds.all Char.isDigit then
    some (ds.foldl (fun acc c => acc * 10 + (c.toNat - '0'.toNat)) 0, cs.drop n)
  else none

def daysIn (month year : Nat) : Nat :=
  match month with
  | 2 => if year % 4 == 0 && (year % 100 != 0 || year % 400 == 0) then 29 else 28
  | 4 | 6 | 9 | 11 => 30
  | _ => 31

/-- Reads a date `YYYY-MM-DD` of the calendar off the front. -/
def readDate (cs : List Char) : Option (List Char) := do
  let (year, cs) ← fixedDigits 4 cs
  let cs ← match cs with | '-' :: r => some r | _ => none
  let (month, cs) ← fixedDigits 2 cs
  let cs ← match cs with | '-' :: r => some r | _ => none
  let (day, cs) ← fixedDigits 2 cs
  if 1 ≤ month && month ≤ 12 && 1 ≤ day && day ≤ daysIn month year then some cs else none

def readFraction (cs : List Char) : List Char :=
  match cs with
  | '.' :: d :: rest => if d.isDigit then rest.dropWhile Char.isDigit else cs
  | _ => cs

/-- Reads a time `HH:MM`, with `:SS` and a fraction when `seconds`, off the front. -/
def readClock (seconds : Bool) (cs : List Char) : Option (List Char) := do
  let (hour, cs) ← fixedDigits 2 cs
  let cs ← match cs with | ':' :: r => some r | _ => none
  let (minute, cs) ← fixedDigits 2 cs
  if hour ≥ 24 || minute ≥ 60 then none
  if !seconds then return cs
  let cs ← match cs with | ':' :: r => some r | _ => none
  let (second, cs) ← fixedDigits 2 cs
  if second ≥ 60 then none
  return readFraction cs

/-- Reads an offset `Z` or `±HH:MM` off the front. -/
def readOffset (cs : List Char) : Option (List Char) :=
  match cs with
  | 'Z' :: rest => some rest
  | s :: h1 :: h2 :: ':' :: m1 :: m2 :: rest => do
    let (hour, _) ← fixedDigits 2 [h1, h2]
    let (minute, _) ← fixedDigits 2 [m1, m2]
    if (s == '+' || s == '-') && hour ≤ 24 && minute ≤ 60 then some rest else none
  | _ => none

def readsWhole (r : Option (List Char)) : Bool := r == some []

/-- Whether a date-time text (with `T` and `Z` already upper case) has one of the accepted
shapes. -/
def validMoment (cs : List Char) : Bool :=
  let dateTime (seconds : Bool) : Option (List Char) := do
    let r ← readDate cs
    let r ← match r with | 'T' :: r => some r | _ => none
    readClock seconds r
  readsWhole (dateTime true >>= readOffset) ||
  readsWhole (dateTime true) ||
  readsWhole (readDate cs) ||
  readsWhole (readClock true cs) ||
  readsWhole (dateTime false >>= readOffset) ||
  readsWhole (dateTime false) ||
  readsWhole (readClock false cs)

def momentValue (cs : List Char) : Except String Value :=
  let cs := cs.map fun c => if c == 'z' then 'Z' else if c == 't' || c == ' ' then 'T' else c
  if validMoment cs then .ok (.moment (String.ofList cs)) else .error "invalid date or time"

def Lexeme.value : Lexeme → Except String Value
  | .integer cs => integerValue cs
  | .float cs => floatValue cs
  | .moment cs => momentValue cs
  | .boolean b => .ok (.boolean b)

def scalar : Scan Value := do
  let (lx, rest) ← orFail (lexeme (← get))
  let v ← orFail lx.value
  set rest
  pure v

end ScriptMachine.Toml
