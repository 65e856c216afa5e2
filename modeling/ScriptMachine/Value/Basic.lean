/-!
# Values

A value is an inline scalar (nothing, a truth value, a number), a text, an arithmetic
progression, a built-in function, or a reference to a heap object (a list, tuple, dict or
closure). Texts and progressions are immutable and compared by content, so they are held inline;
the heap objects have identity, which equality, hashing and mutation can observe.

Progressions count with 64-bit words that wrap around, so their length and elements are those
of the machine words, also at the edges of the word range.
-/

namespace ScriptMachine

/-- The arithmetic progression `start, start + step, …` up to but excluding `stop`. -/
structure Progression where
  start : Int64
  stop : Int64
  step : Int64
  deriving Repr, DecidableEq, Inhabited

namespace Progression

def length (r : Progression) : Int64 :=
  if r.step > 0 && r.start < r.stop then (r.stop - r.start + r.step - 1) / r.step
  else if r.step < 0 && r.start > r.stop then (r.start - r.stop - r.step - 1) / -r.step
  else 0

def get (r : Progression) (i : Int64) : Int64 := r.start + i * r.step

end Progression

inductive Value where
  | none
  | bool (b : Bool)
  | num (x : Float)
  | str (s : String)
  | range (r : Progression)
  | builtin (name : String)
  | ref (loc : Nat)
  deriving Repr, Inhabited

namespace Value

def isScalar : Value → Bool
  | .bool _ | .num _ => true
  | _ => false

def scalar : Value → Float
  | .bool b => if b then 1 else 0
  | .num x => x
  | _ => 0

def tag : Value → Nat
  | .none => 0
  | .bool _ => 1
  | .num _ => 2
  | _ => 3

end Value

end ScriptMachine
