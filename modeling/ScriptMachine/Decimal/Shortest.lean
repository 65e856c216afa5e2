/-!
# Shortest decimal digits of a binary64 value

A finite nonzero double is `m · 2^e`. Every real strictly between the midpoints to its two
neighbours reads back as the same double (the midpoints themselves do too when `m` is even, since
ties go to the even neighbour). The shortest text of the double is the decimal with the fewest
significant digits inside that interval; of two such decimals the nearer one wins, and of two
equally near the one ending in an even digit.

Main definitions: `Binary.ofBits` decodes a bit pattern, `Binary.shortest` returns the digits as a
natural number `d` and a power `k` with value `d · 10^k` and no trailing zero in `d`.
-/

namespace ScriptMachine.Decimal

/-- A finite nonzero binary64 magnitude `mant · 2^exp`. `lowerClose` marks the bottom of a binade,
where the lower neighbour lies half as far away as the upper one. -/
structure Binary where
  mant : Nat
  exp : Int
  lowerClose : Bool
  deriving Repr, DecidableEq

/-- The magnitude of a finite bit pattern. Subnormals have exponent `-1074` and no hidden bit. -/
def Binary.ofBits (bits : UInt64) : Binary :=
  let frac := bits.toNat % Nat.pow 2 52
  let biased : Nat := (bits.toNat / Nat.pow 2 52) % 2048
  if biased = 0 then ⟨frac, -1074, false⟩
  else ⟨frac + Nat.pow 2 52, (biased : Int) - 1075, frac == 0 && biased > 1⟩

def scaled (a : Nat) (e k : Int) : Nat × Nat :=
  (a * Nat.pow 2 e.toNat * Nat.pow 10 (-k).toNat, Nat.pow 2 (-e).toNat * Nat.pow 10 k.toNat)

def compareScaled (d : Nat) (k : Int) (x : Nat) (e : Int) : Ordering :=
  compare (4 * d * Nat.pow 10 k.toNat * Nat.pow 2 (-e).toNat)
    (x * Nat.pow 2 e.toNat * Nat.pow 10 (-k).toNat)

def Binary.decimalExponent (b : Binary) : Int :=
  let bits : Int := (Nat.log2 b.mant : Int) + b.exp
  let est : Int := (bits * 78913) / 262144
  let (n, d) := scaled b.mant b.exp (est + 1)
  if d ≤ n then est + 1 else est

/-- Whether `d · 10^k` lies inside the interval of reals that read back as `b`. -/
def Binary.inside (b : Binary) (d : Nat) (k : Int) : Bool :=
  let low := if b.lowerClose then 4 * b.mant - 1 else 4 * b.mant - 2
  let high := 4 * b.mant + 2
  let lo := compareScaled d k low b.exp
  let hi := compareScaled d k high b.exp
  if b.mant % 2 == 0 then lo != .lt && hi != .gt else lo == .gt && hi == .lt

def Binary.distance (b : Binary) (d : Nat) (k : Int) : Nat :=
  let c : Int := (4 * d * Nat.pow 10 k.toNat * Nat.pow 2 (-b.exp).toNat : Nat)
  let v : Int := (4 * b.mant * Nat.pow 2 b.exp.toNat * Nat.pow 10 (-k).toNat : Nat)
  (c - v).natAbs

def Binary.candidates (b : Binary) (k : Int) : Nat × Nat :=
  let (n, d) := scaled b.mant b.exp k
  (n / d, n / d + 1)

/-- The decimal with `digits` significant digits nearest to `b` inside its interval, if any; of
two equally near, the one with an even last digit. -/
def Binary.pick (b : Binary) (digits : Nat) : Option (Nat × Int) :=
  let k := b.decimalExponent - digits + 1
  let (lo, hi) := b.candidates k
  match b.inside lo k, b.inside hi k with
  | true, true =>
    let (dl, dh) := (b.distance lo k, b.distance hi k)
    if dh < dl || (dh == dl && hi % 2 == 0) then some (hi, k) else some (lo, k)
  | true, false => some (lo, k)
  | false, true => some (hi, k)
  | false, false => none

def dropZeros (d : Nat) (k : Int) : Nat × Int :=
  if 0 < d ∧ d % 10 = 0 then dropZeros (d / 10) (k + 1) else (d, k)
termination_by d
decreasing_by omega

/-- The shortest decimal `d · 10^k` that reads back as `b`. Seventeen digits always suffice. -/
def Binary.shortest (b : Binary) : Nat × Int :=
  let fallback := ((b.candidates (b.decimalExponent - 16)).1, b.decimalExponent - 16)
  let (d, k) := ((List.range 17).findSome? fun i => b.pick (i + 1)).getD fallback
  dropZeros d k

def digitsOf (n : Nat) : List Nat :=
  if n < 10 then [n] else digitsOf (n / 10) ++ [n % 10]
termination_by n
decreasing_by omega

end ScriptMachine.Decimal
