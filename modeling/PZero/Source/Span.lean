/-! # Positions and spans of source text

A span covers its two ends. The span whose locations are all zero stands for
"unknown" and is neutral when spans are joined.
-/
namespace PZero

/-- A position: the offset counts from 0, line and column from 1. -/
structure Location where
  offset : UInt32 := 0
  line : UInt32 := 0
  column : UInt32 := 0
  deriving DecidableEq, Inhabited

namespace Location

/-- Reading order by line and column; the offset plays no part. -/
def precedes (a b : Location) : Bool :=
  a.line < b.line || (a.line == b.line && a.column ≤ b.column)

def text (l : Location) : String := s!"{l.line}:{l.column}"

end Location

structure Span where
  start : Location := {}
  stop : Location := {}
  deriving DecidableEq, Inhabited

namespace Span

/-- The span of a single position. -/
def single (l : Location) : Span := ⟨l, l⟩

def isUnknown (s : Span) : Bool := s == {}

/-- The smallest span that covers both; an unknown span is ignored. -/
def join (a b : Span) : Span :=
  if a.isUnknown then b
  else if b.isUnknown then a
  else
    { start := if a.start.precedes b.start then a.start else b.start
      stop := if b.stop.precedes a.stop then a.stop else b.stop }

instance : Add Span := ⟨join⟩

/-- One position, a stretch of one line, or two positions. -/
def text (s : Span) : String :=
  if s.start == s.stop then s.start.text
  else if s.start.line == s.stop.line then s!"{s.start.line}:{s.start.column}-{s.stop.column}"
  else s!"{s.start.text}-{s.stop.text}"

end Span
end PZero
