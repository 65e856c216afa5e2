/-!
# The nearest double to an exact rational

Every operation here that produces a double from exact data goes through `nearest`: the quotient
`num / den` is brought to 53 significant bits (fewer below the normal range) and rounded to the
nearest, ties to the even significand. A result beyond the largest finite double is `none`.
-/

namespace ScriptMachine.Numeric

def assemble (negative : Bool) (q : Nat) (e : Int) : Float :=
  let magnitude := ((e + 1074).toNat * Nat.pow 2 52 + q).toUInt64
  Float.ofBits (if negative then magnitude ||| 0x8000000000000000 else magnitude)

def infinity (negative : Bool) : Float :=
  Float.ofBits (if negative then 0xFFF0000000000000 else 0x7FF0000000000000)

/-- The binary exponent `e` that puts `num / den / 2^e` into `[2^52, 2^53)`, but not below
`-1074`. The difference of the two logarithms is off by at most one. -/
def binaryExponent (num den : Nat) : Int :=
  let e0 : Int := (Nat.log2 num : Int) - Nat.log2 den - 52
  let q0 := if 0 ≤ e0 then num / (den * Nat.pow 2 e0.toNat)
    else num * Nat.pow 2 (-e0).toNat / den
  let e := if Nat.pow 2 53 ≤ q0 then e0 + 1 else if q0 < Nat.pow 2 52 then e0 - 1 else e0
  max e (-1074)

/-- The nearest double to `num / den` (with `num > 0`), ties to even; `none` when it rounds
beyond the largest finite double. -/
def nearest (negative : Bool) (num den : Nat) : Option Float :=
  let e := binaryExponent num den
  let (n, d) := if 0 ≤ e then (num, den * Nat.pow 2 e.toNat)
    else (num * Nat.pow 2 (-e).toNat, den)
  let q := n / d
  let r := n % d
  let up := 2 * r > d || (2 * r == d && q % 2 == 1)
  let (q, e) := if up then (if q + 1 == Nat.pow 2 53 then (Nat.pow 2 52, e + 1) else (q + 1, e))
    else (q, e)
  if e > 971 then none else some (assemble negative q e)

/-- The nearest double to `n · 2^e`, an infinity past the finite range. Magnitudes far outside
the range are settled without computing them. -/
def ofScaled (negative : Bool) (n : Nat) (e : Int) : Float :=
  if n = 0 then assemble negative 0 (-1074)
  else
    let size : Int := (Nat.log2 n : Int) + e
    if size > 1030 then infinity negative
    else if size < -1080 then assemble negative 0 (-1074)
    else
      let (num, den) := if 0 ≤ e then (n * Nat.pow 2 e.toNat, 1) else (n, Nat.pow 2 (-e).toNat)
      (nearest negative num den).getD (infinity negative)

end ScriptMachine.Numeric
