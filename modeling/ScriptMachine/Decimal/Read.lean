import ScriptMachine.Decimal.Shortest
import ScriptMachine.Numeric.Rounding
/-!
# Reading number text as a binary64

The accepted texts: an optional sign, then decimal digits with an optional point and an optional
exponent `e±n`; or `0x` hexadecimal digits with an optional point and a required binary exponent
`p±n`; or `inf`/`infinity` with an optional sign, or `nan` without one, in any case. An underscore
may stand between two digits, or between the `0x` prefix and a digit.

The value is the exact rational the text denotes, rounded to the nearest double with ties to even
(`nearest`). A finite text too large for a double reads as an infinity and is flagged out of
range; one too small reads as zero.
-/

namespace ScriptMachine.Decimal

open ScriptMachine.Numeric

/-- A double read from text, and whether the text was beyond the finite range. -/
structure Reading where
  value : Float
  outOfRange : Bool

/-- Rounds `n · base^power` (base 10 or 2) to a double. Magnitudes far outside the range of
doubles are settled without computing them. -/
def Reading.ofExact (negative : Bool) (n : Nat) (ten : Bool) (power : Int) : Reading :=
  if n = 0 then ⟨assemble negative 0 (-1074), false⟩
  else
    let size : Int := if ten then (digitsOf n).length + power else (Nat.log2 n : Int) + power
    let (high, low) : Int × Int := if ten then (310, -330) else (1030, -1080)
    if size > high then ⟨infinity negative, true⟩
    else if size < low then ⟨assemble negative 0 (-1074), false⟩
    else
      let base := if ten then 10 else 2
      let (num, den) := if 0 ≤ power then (n * Nat.pow base power.toNat, 1)
        else (n, Nat.pow base (-power).toNat)
      match nearest negative num den with
      | some x => ⟨x, false⟩
      | none => ⟨infinity negative, true⟩

def digitIn (hex : Bool) (c : Char) : Option Nat :=
  if c.isDigit then some (c.toNat - 48)
  else if hex && 'a' ≤ c.toLower && c.toLower ≤ 'f' then some (c.toLower.toNat - 87)
  else none

/-- The digits before the exponent: their value, how many stood after the point, whether any
digit was seen. -/
structure Significand where
  value : Nat := 0
  fraction : Nat := 0
  sawDigit : Bool := false
  sawPoint : Bool := false

def Significand.scan (hex : Bool) : Significand → List Char → Significand × List Char
  | m, [] => (m, [])
  | m, c :: cs =>
    if c = '_' then Significand.scan hex m cs
    else if c = '.' then
      if m.sawPoint then (m, c :: cs) else Significand.scan hex { m with sawPoint := true } cs
    else match digitIn hex c with
      | some d => Significand.scan hex
          { m with value := m.value * (if hex then 16 else 10) + d, sawDigit := true,
                   fraction := if m.sawPoint then m.fraction + 1 else m.fraction } cs
      | none => (m, c :: cs)

/-- Reads exponent digits and underscores. The value stops growing at five digits, far beyond
any exponent that leaves a finite nonzero double. -/
def scanExponent : Nat → List Char → Nat × List Char
  | e, [] => (e, [])
  | e, c :: cs =>
    if c.isDigit then scanExponent (if e < 10000 then e * 10 + (c.toNat - 48) else e) cs
    else if c = '_' then scanExponent e cs
    else (e, c :: cs)

/-- Where an underscore may stand: after a digit or the base prefix, before a digit. -/
inductive Seen where
  | start
  | digit
  | underscore
  | other
  deriving DecidableEq

def underscoresFit (s : List Char) : Bool :=
  let s := match s with
    | '+' :: r => r
    | '-' :: r => r
    | r => r
  let (hex, body, seen) := match s with
    | '0' :: c :: r =>
      if c.toLower = 'x' then (true, r, Seen.digit)
      else if c.toLower = 'b' || c.toLower = 'o' then (false, r, Seen.digit)
      else (false, s, Seen.start)
    | _ => (false, s, Seen.start)
  let step (st : Option Seen) (c : Char) : Option Seen :=
    st.bind fun seen =>
      if c.isDigit || (hex && 'a' ≤ c.toLower && c.toLower ≤ 'f') then some .digit
      else if c = '_' then (if seen = .digit then some .underscore else none)
      else if seen = .underscore then none
      else some .other
  let final := body.foldl step (some seen)
  match final with
  | some s => s != .underscore
  | none => false

/-- `inf`, `infinity` (signed or not) and `nan` (unsigned), in any case. -/
def special? (s : List Char) : Option Float :=
  let (negative, signed, rest) := match s with
    | '+' :: r => (false, true, r)
    | '-' :: r => (true, true, r)
    | r => (false, false, r)
  let lower := rest.map Char.toLower
  if lower = "inf".toList || lower = "infinity".toList then some (infinity negative)
  else if !signed && lower = "nan".toList then some (0.0 / 0.0)
  else none

/-- Reads a whole number text; `none` when it is not one. -/
def read? (text : String) : Option Reading :=
  let s := text.toList
  match special? s with
  | some x => some ⟨x, false⟩
  | none =>
    let (negative, rest) := match s with
      | '+' :: r => (false, r)
      | '-' :: r => (true, r)
      | r => (false, r)
    let (hex, rest) := match rest with
      | '0' :: c :: d :: r => if c.toLower = 'x' then (true, d :: r) else (false, rest)
      | _ => (false, rest)
    let (m, rest) := Significand.scan hex {} rest
    if !m.sawDigit then none
    else
      let mark := if hex then 'p' else 'e'
      let exponent : Option (Int × List Char) := match rest with
        | c :: r =>
          if c.toLower = mark then
            let (sign, r) : Int × List Char := match r with
              | '+' :: r' => (1, r')
              | '-' :: r' => (-1, r')
              | r' => (1, r')
            match r with
            | d :: _ => if d.isDigit then
                let (e, r) := scanExponent 0 r
                some (sign * e, r)
              else none
            | [] => none
          else if hex then none else some (0, c :: r)
        | [] => if hex then none else some (0, [])
      match exponent with
      | none => none
      | some (e, rest) =>
        if !rest.isEmpty || !underscoresFit s then none
        else if hex then some (Reading.ofExact negative m.value false (e - 4 * m.fraction))
        else some (Reading.ofExact negative m.value true (e - m.fraction))

end ScriptMachine.Decimal
