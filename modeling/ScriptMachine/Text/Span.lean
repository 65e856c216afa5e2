/-!
# Source positions and spans

A position is a line (counted from one) and a column (counted from zero). A span runs from one
position to another; the span of all zeros is the empty span, used where no location is known.
Spans print as `[Ln L, Col C - Ln L2, Col C2]`.
-/

namespace ScriptMachine

structure Position where
  line : Int
  column : Int
  deriving Repr, DecidableEq, Inhabited

structure Span where
  start : Position
  stop : Position
  deriving Repr, DecidableEq, Inhabited

namespace Span

def empty : Span := ⟨⟨0, 0⟩, ⟨0, 0⟩⟩

def ofNumbers (sl sc el ec : Int) : Span := ⟨⟨sl, sc⟩, ⟨el, ec⟩⟩

def lineStart (line : Int) : Span := ⟨⟨line, 0⟩, ⟨line, 0⟩⟩

def isEmpty (s : Span) : Bool := s == empty

def render (s : Span) : String :=
  s!"[Ln {s.start.line}, Col {s.start.column} - Ln {s.stop.line}, Col {s.stop.column}]"

def cover (first last : Span) : Span := ⟨first.start, last.stop⟩

end Span

end ScriptMachine
