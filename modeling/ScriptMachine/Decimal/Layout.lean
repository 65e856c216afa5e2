import ScriptMachine.Decimal.Shortest
/-!
# Positional and scientific layouts of decimal digits

A double is first classified (`Finite.ofFloat`): a NaN, an infinity, or a sign with its shortest
digits `0.d₁d₂…dₙ × 10^point`. The two layouts here write such digits without losing any:
`Digits.positional` places the point among them (padding with zeros), `Digits.scientific` writes one
digit before the point and the power of ten after a mark. Which layout a printer chooses is its own
rule; see `Value.numberText`.
-/

namespace ScriptMachine.Decimal

/-- Digits `0.d₁d₂…dₙ × 10^point`; zero has no digits. -/
structure Digits where
  digits : List Nat
  point : Int
  deriving Repr, DecidableEq

inductive Class where
  | nan
  | infinite (negative : Bool)
  | finite (negative : Bool) (digits : Digits)
  deriving Repr

def Digits.ofBinary (b : Binary) : Digits :=
  let (d, k) := b.shortest
  let ds := digitsOf d
  ⟨ds, ds.length + k⟩

def Class.ofFloat (x : Float) : Class :=
  let bits := x.toBits
  let negative := bits >>> 63 == 1
  let biased := (bits >>> 52) &&& 0x7FF
  let frac := bits &&& 0xFFFFFFFFFFFFF
  if biased == 0x7FF then
    if frac == 0 then .infinite negative else .nan
  else if biased == 0 && frac == 0 then .finite negative ⟨[], 0⟩
  else .finite negative (Digits.ofBinary (Binary.ofBits bits))

def digitChar (d : Nat) : Char := Char.ofNat (48 + d)

def natText (n : Nat) : String := String.ofList ((digitsOf n).map digitChar)

def Digits.at (x : Digits) (i : Int) : Nat :=
  if 0 ≤ i then x.digits.getD i.toNat 0 else 0

/-- Positional layout with `places` digits after the point; no point when `places = 0`. -/
def Digits.positional (x : Digits) (places : Nat) : String :=
  let whole :=
    if 0 < x.point then String.ofList ((List.range x.point.toNat).map fun (i : Nat) => digitChar (x.at i))
    else "0"
  if places = 0 then whole
  else whole ++ "." ++ String.ofList ((List.range places).map fun (i : Nat) =>
    digitChar (x.at (x.point + i)))

def Digits.positionalShortest (x : Digits) : String :=
  x.positional (x.digits.length - x.point).toNat

def Digits.exponent (x : Digits) : Int :=
  if x.digits.isEmpty then 0 else x.point - 1

/-- Scientific layout `d.ddd` + `mark` + sign + exponent, the exponent padded with zeros to at
least `width` digits. -/
def Digits.scientific (x : Digits) (mark : Char) (width : Nat) : String :=
  let first := digitChar (x.at 0)
  let rest := x.digits.drop 1
  let mantissa := if rest.isEmpty then first.toString
    else first.toString ++ "." ++ String.ofList (rest.map digitChar)
  let e := x.exponent
  let digits := natText e.natAbs
  let padded := String.ofList (List.replicate (width - digits.length) '0') ++ digits
  mantissa ++ mark.toString ++ (if e < 0 then "-" else "+") ++ padded

/-- The shortest general form: NaN and signed infinities by name; otherwise the fewest digits,
positional when the exponent of the first digit is in `[-4, 6)`, scientific with a two-digit
exponent beyond. -/
def Class.general : Class → String
  | .nan => "NaN"
  | .infinite negative => if negative then "-Inf" else "+Inf"
  | .finite negative x =>
    let body :=
      if x.exponent < -4 || 6 ≤ x.exponent then x.scientific 'e' 2 else x.positionalShortest
    if negative then "-" ++ body else body

def general (x : Float) : String := (Class.ofFloat x).general

end ScriptMachine.Decimal
