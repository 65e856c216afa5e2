import ScriptMachine.Numeric.Rounding
/-!
# Arithmetic on doubles beyond the four operations

`Float` supplies the correctly rounded `+ - * /`, `floor` and `sqrt`. This module adds what the
language's number semantics needs on top: splitting a double into fraction and exponent and
scaling it back (`frexp`, `ldexp`), the exact remainder `rem` whose sign follows the dividend,
a fused multiply-add `fma`, the natural logarithm and exponential by argument reduction (`log`,
`exp`), the power function `pow` computed by repeated squaring of the fraction, and the
truncation of a double to a signed 64-bit word that saturates to the least word when out of
range.
-/

namespace ScriptMachine.Numeric

def fields (x : Float) : Bool × Nat × Nat :=
  let bits := x.toBits.toNat
  (bits / Nat.pow 2 63 == 1, (bits / Nat.pow 2 52) % 2048, bits % Nat.pow 2 52)

def isFinite (x : Float) : Bool := (fields x).2.1 != 2047

def decompose (x : Float) : Bool × Nat × Int :=
  let (negative, biased, frac) := fields x
  if biased = 0 then (negative, frac, -1074) else (negative, frac + Nat.pow 2 52, (biased : Int) - 1075)

/-- `frac · 2^exp` rounded to the nearest double; zeros, infinities and NaN pass through. -/
def ldexp (frac : Float) (exp : Int) : Float :=
  if frac == 0 || !isFinite frac then frac
  else
    let (negative, m, e) := decompose frac
    ofScaled negative m (e + exp)

/-- Splits a finite nonzero double into a fraction of magnitude in `[1/2, 1)` and a power of
two; zeros, infinities and NaN give themselves and `0`. -/
def frexp (x : Float) : Float × Int :=
  if x == 0 || !isFinite x then (x, 0)
  else
    let (negative, m, e) := decompose x
    let bits := Nat.log2 m + 1
    (ofScaled negative m (-(bits : Int)), e + bits)

/-- The remainder of `x / y` truncated toward zero, exact, with the sign of `x`. NaN when `y` is
zero, `x` is infinite, or either is NaN; `x` itself when `y` is infinite. -/
def rem (x y : Float) : Float :=
  if y == 0 || !isFinite x || x.isNaN || y.isNaN then 0.0 / 0.0
  else if !isFinite y then x
  else
    let (negative, mx, ex) := decompose x
    let (_, my, ey) := decompose y
    let e := min ex ey
    let r := (mx * Nat.pow 2 (ex - e).toNat) % (my * Nat.pow 2 (ey - e).toNat)
    ofScaled negative r e

/-- The integer part of a finite double toward zero: its significand shifted by its exponent.
Below one in magnitude, subnormals and zeros included, it is `0`. -/
def wholePart (x : Float) : Int :=
  let (negative, m, e) := decompose x
  let w : Nat :=
    if (fields x).2.1 < 1023 then 0
    else if 0 ≤ e then m * Nat.pow 2 e.toNat else m / Nat.pow 2 (-e).toNat
  if negative then -w else w

def truncWord (x : Float) : Int64 :=
  if (fields x).2.1 ≥ 1086 then Int64.minValue else Int64.ofInt (wholePart x)

/-- The integer part of a double toward zero, as a double: the bits of its pattern below the unit
are cleared, and below one all bits but the sign. Doubles whose unit is at or below their last
bit (integers from `2^52` on, infinities and NaN) are kept. -/
def truncate (x : Float) : Float :=
  let biased := (fields x).2.1
  if biased ≥ 1075 then x
  else
    let bits := x.toBits.toNat
    let unit := if biased < 1023 then Nat.pow 2 63 else Nat.pow 2 (1075 - biased)
    Float.ofBits (UInt64.ofNat (bits - bits % unit))

def isOddInt (x : Float) : Bool :=
  if x.abs ≥ 9007199254740992.0 then false
  else truncate x == x && (truncWord x) % 2 != 0

/-- Multiplies `a · 2^ae` by `x · 2^xe` raised to the bits of `i`, squaring `x` at each bit and
keeping it in `[1/2, 1)`. When the exponent of the square leaves `±4096` the remaining bits
cannot matter: the exponent is added once and the loop ends. -/
def powLoop (x : Float) (xe : Int) (a : Float) (ae : Int) (i : Nat) : Float × Int :=
  if _h : i = 0 then (a, ae)
  else if xe < -4096 || 4096 < xe then (a, ae + xe)
  else
    let (a, ae) := if i % 2 = 1 then (a * x, ae + xe) else (a, ae)
    let x := x * x
    let xe := 2 * xe
    let (x, xe) := if x < 0.5 then (x + x, xe - 1) else (x, xe)
    powLoop x xe a ae (i / 2)
termination_by i
decreasing_by omega

def ln2Hi : Float := Float.ofBits 0x3fe62e42fee00000

def ln2Lo : Float := Float.ofBits 0x3dea39ef35793c76

/-- Natural logarithm. The argument is split as `2^k · (1 + f)` with `1 + f` in `[√2/2, √2)`,
and `log (1 + f)` comes from `s = f / (2 + f)` through an odd polynomial of degree 14 in `s`
whose error stays below one unit in the last place. Zero gives `-∞`, negatives give NaN.
The split reads fraction and exponent straight from the bit pattern, without normalizing a
subnormal argument first: a subnormal with fraction bits `m` is taken as
`2^-1022 · (1/2) · (1 + m · 2^-52)`, so its logarithm lies near `-709`. -/
def log (x : Float) : Float :=
  let inf : Float := 1.0 / 0.0
  if x.isNaN || x == inf then x
  else if x < 0 then 0.0 / 0.0
  else if x == 0 then -inf
  else
    let (_, biased, frac) := fields x
    let f1 := Float.ofBits (UInt64.ofNat frac ||| 0x3fe0000000000000)
    let ki : Int := (biased : Int) - 1022
    let (f1, ki) := if f1 < Float.ofBits 0x3fe6a09e667f3bcd then (f1 * 2, ki - 1) else (f1, ki)
    let f := f1 - 1
    let k := Float.ofInt ki
    let s := f / (2 + f)
    let s2 := s * s
    let s4 := s2 * s2
    let t1 := s2 * (Float.ofBits 0x3fe5555555555593 + s4 * (Float.ofBits 0x3fd2492494229359 +
      s4 * (Float.ofBits 0x3fc7466496cb03de + s4 * Float.ofBits 0x3fc2f112df3e5244)))
    let t2 := s4 * (Float.ofBits 0x3fd999999997fa04 + s4 * (Float.ofBits 0x3fcc71c51d8e78af +
      s4 * Float.ofBits 0x3fc39a09d078c69f))
    let r := t1 + t2
    let hfsq := 0.5 * f * f
    k * ln2Hi - ((hfsq - (s * (hfsq + r) + k * ln2Lo)) - f)

/-- `a · b + c` rounded once to the nearest double, as a fused multiply-add computes it. The
exact value is formed over the smaller of the two powers of two; an exact zero, and any
non-finite argument, is left to the unfused expression, whose rules for the sign of zero agree. -/
def fma (a b c : Float) : Float :=
  if !(isFinite a && isFinite b && isFinite c) then a * b + c
  else
    let (na, ma, ea) := decompose a
    let (nb, mb, eb) := decompose b
    let (nc, mc, ec) := decompose c
    let e := min (ea + eb) ec
    let product : Int := ((ma * mb * Nat.pow 2 (ea + eb - e).toNat : Nat) : Int)
    let addend : Int := ((mc * Nat.pow 2 (ec - e).toNat : Nat) : Int)
    let sum := (if na != nb then -product else product) + (if nc then -addend else addend)
    if sum = 0 then a * b + c
    else ofScaled (decide (sum < 0)) sum.natAbs e

def roundEven (w : Float) : Int :=
  let f := w.floor
  let d := w - f
  let n := (truncWord f).toInt
  if d > 0.5 then n + 1 else if d < 0.5 then n else if n % 2 == 0 then n else n + 1

/-- `e^x` by scaling and squaring. With `k` the integer nearest `x · log₂ e`, the reduced
argument `r = x - k · ln 2`, where `ln 2` is split into an upper and a lower part and each
product is subtracted in one fused step, is divided by 16. A Taylor polynomial of degree 8
gives `u = e^(r/16) - 1`; four doublings `u ↦ u · (2 + u)` turn it into `e^r - 1`, the last
one fused with the final `+ 1`; and the result is scaled by `2^k`. Carrying `e^t - 1` rather
than `e^t` keeps the small leading terms exact through the doublings. Past the overflow
threshold, or when `2^k` is past the largest power of two, the result is `+∞`. -/
def exp (x : Float) : Float :=
  let inf : Float := 1.0 / 0.0
  if x.isNaN || x == inf then x
  else if x == -inf then 0
  else if x > Float.ofBits 0x40862e42fefa39ef then inf
  else
    let k := roundEven (Float.ofBits 0x3ff71547652b82fe * x)
    let kf := Float.ofInt k
    let r := fma (-kf) (Float.ofBits 0x3d53de6af278ece6)
      (fma (-kf) (Float.ofBits 0x3fe62e42fefa3000) x)
    let t := r * 0.0625
    let coefficients : List Float :=
      [Float.ofBits 0x3f2a01a01a01a01a, Float.ofBits 0x3f56c16c16c16c17,
       Float.ofBits 0x3f81111111111111, Float.ofBits 0x3fa5555555555555,
       Float.ofBits 0x3fc5555555555555, 0.5, 1]
    let u := coefficients.foldl (fun acc coeff => fma acc t coeff) (Float.ofBits 0x3efa01a01a01a01a) * t
    let u := (2 + u) * u
    let u := (2 + u) * u
    let u := (2 + u) * u
    let y := fma u (2 + u) 1
    if k + 1023 ≥ 2047 then inf else ldexp y k

/-- `x` to the power `y`. The special cases follow the usual conventions for zeros, infinities,
NaN, one and minus one; a negative base with a non-integral exponent is NaN. Otherwise the
integral part of the exponent is applied by repeated squaring of the fraction of `x`, and a
fractional part through `exp (y · log x)`. -/
def pow (x y : Float) : Float :=
  let inf : Float := 1.0 / 0.0
  let nan : Float := 0.0 / 0.0
  if y == 0 || x == 1 then 1
  else if y == 1 then x
  else if x.isNaN || y.isNaN then nan
  else if x == 0 then
    let negativeZero := (fields x).1
    if y < 0 then (if negativeZero && isOddInt y then -inf else inf)
    else if negativeZero && isOddInt y then x else 0
  else if !isFinite y then
    if x == -1 then 1
    else if (x.abs < 1) == (y > 0) then 0
    else inf
  else if !isFinite x then
    if x < 0 then
      -- the power of `-∞` is the power of `-0` at the negated exponent
      let negativeZero := -(0 : Float)
      if -y < 0 then (if isOddInt (-y) then -inf else inf)
      else if isOddInt (-y) then negativeZero else 0
    else if y < 0 then 0 else inf
  else if y == 0.5 then x.sqrt
  else if y == -0.5 then 1 / x.sqrt
  else
    let yi0 := y.abs.floor
    let yf0 := y.abs - yi0
    if yf0 != 0 && x < 0 then nan
    else if yi0 ≥ 9223372036854775808.0 then
      if x == -1 then 1
      else if (x.abs < 1) == (y > 0) then 0
      else inf
    else
      let (yi, yf) := if yf0 > 0.5 then (yi0 + 1, yf0 - 1) else (yi0, yf0)
      let a1 : Float := if yf0 != 0 then exp (yf * log x) else 1
      let (x1, xe) := frexp x
      let (a1, ae) := powLoop x1 xe a1 0 (truncWord yi).toInt.toNat
      if y < 0 then ldexp (1 / a1) (-ae) else ldexp a1 ae

end ScriptMachine.Numeric
