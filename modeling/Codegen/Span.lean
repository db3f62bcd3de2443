import Codegen.Fault

/-!
Source spans: half-open ranges of byte offsets, carried along and never read.
-/

namespace Codegen

structure Span where
  start : Nat
  stop : Nat
  deriving DecidableEq, Repr, Inhabited

namespace Span

/-- The span of what no source text wrote. -/
def synthetic : Span := ⟨0, 0⟩

/-- The empty span at an offset. -/
def point (offset : Nat) : Span := ⟨offset, offset⟩

/-- Bytes covered; a span that ends before it starts has no length. -/
def length (s : Span) : Except Fault Nat :=
  if s.start ≤ s.stop then .ok (s.stop - s.start) else .error .subtractOverflow

def isEmpty (s : Span) : Bool := s.start == s.stop

def isSynthetic (s : Span) : Bool := s.start == 0 && s.stop == 0

/-- The least span that covers both. -/
def merge (s t : Span) : Span := ⟨min s.start t.start, max s.stop t.stop⟩

def describe (s : Span) : String := s!"{s.start}..{s.stop}"

/-- Text for people: a synthetic span says so. -/
def display (s : Span) : String := if s.isSynthetic then "<synthetic>" else s.describe

end Span

end Codegen
