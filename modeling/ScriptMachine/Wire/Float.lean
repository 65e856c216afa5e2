import ScriptMachine.Numeric.Rounding
/-!
# Floats in narrower binary formats

The 16- and 32-bit binary interchange formats, by their bit patterns. Every value of a narrower
format is a double, so `Narrow.value` reads a pattern exactly. `Narrow.narrow` writes a double
as a pattern: exactly when the format holds the double, and otherwise as some pattern of the
same sign. `Narrow.holds` tells the two cases apart the way the formats are defined to: a format
holds a double when the double's pattern reads back as the double itself.
-/

namespace ScriptMachine.Wire

/-- A binary interchange format narrower than a double: a sign bit, `exponent` bits of biased
exponent and `fraction` bits of significand after the leading one. -/
structure Narrow where
  exponent : Nat
  fraction : Nat

namespace Narrow

def half : Narrow := ⟨5, 10⟩

def single : Narrow := ⟨8, 23⟩

def bias (f : Narrow) : Nat := Nat.pow 2 (f.exponent - 1) - 1

def top (f : Narrow) : Nat := Nat.pow 2 f.exponent - 1

def body (f : Narrow) : Nat := f.exponent + f.fraction

/-- The double a pattern stands for. A finite pattern is `s · 2^E`, with the leading one of `s`
hidden in the exponent field unless the exponent field is zero. -/
def value (f : Narrow) (p : Nat) : Float :=
  let negative := p / Nat.pow 2 f.body % 2 == 1
  let e := p / Nat.pow 2 f.fraction % Nat.pow 2 f.exponent
  let m := p % Nat.pow 2 f.fraction
  if e == f.top then
    if m == 0 then Numeric.infinity negative else Float.ofBits 0x7FF8000000000000
  else
    let s := if e == 0 then m else Nat.pow 2 f.fraction + m
    Numeric.ofScaled negative s ((max e 1 : Nat) - (f.bias : Int) - f.fraction)

/-- The pattern of a double. It is exact for every double the format holds; a double beyond
the format's range becomes an infinity, one below it a zero, and one in between loses the low
bits of its fraction. -/
def narrow (f : Narrow) (x : Float) : Nat :=
  let bits := x.toBits.toNat
  let sign := bits / Nat.pow 2 63 * Nat.pow 2 f.body
  let e := bits / Nat.pow 2 52 % 2048
  let m := bits % Nat.pow 2 52
  let unit := Nat.pow 2 f.fraction
  if e == 2047 then sign + f.top * unit + (if m == 0 then 0 else unit / 2)
  else if 1023 + f.top ≤ e + f.bias then sign + f.top * unit
  else if 1024 ≤ e + f.bias then
    sign + (e + f.bias - 1023) * unit + m / Nat.pow 2 (52 - f.fraction)
  else if e == 0 then sign
  else sign + (Nat.pow 2 52 + m) / Nat.pow 2 (1076 - f.bias - f.fraction - e)

/-- Whether the format holds a double exactly: the double's pattern reads back as the double,
bit for bit. -/
def holds (f : Narrow) (x : Float) : Bool := (f.value (f.narrow x)).toBits == x.toBits

end Narrow

end ScriptMachine.Wire
