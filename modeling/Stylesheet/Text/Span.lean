import Stylesheet.Text.Width

/-!
# Spans

A span is a stretch of a text, from a first offset to an end that is not before it.

* `Span.new?`: a span from two offsets, refused when they are out of order.
* `Text.slice?`: the text of a span, when both its ends fall between characters.
-/
namespace Stylesheet

/-- The bytes of a text from `start` up to `stop`, which is not among them. Mirrors `TextRange`. -/
structure Span where
  start : Nat
  stop : Nat
  start_le_stop : start ≤ stop := by omega
  deriving DecidableEq, Repr

namespace Span

/-- The span of `width` bytes at an offset. -/
def ofWidth (start width : Nat) : Span := ⟨start, start + width, by omega⟩

/-- The span at an offset that holds nothing. -/
def emptyAt (offset : Nat) : Span := ofWidth offset 0

/-- The span from one offset to another, if they stand in that order. -/
def new? (start stop : Nat) : Option Span :=
  if h : start ≤ stop then some ⟨start, stop, h⟩ else none

def width (s : Span) : Nat := s.stop - s.start

/-- The span so many bytes further on. -/
def shift (s : Span) (bytes : Nat) : Span :=
  ⟨s.start + bytes, s.stop + bytes, Nat.add_le_add_right s.start_le_stop bytes⟩

/-- Both ends, as listings write them. -/
def display (s : Span) : String := s!"{s.start}..{s.stop}"

@[simp] theorem start_ofWidth (start width : Nat) : (ofWidth start width).start = start := rfl

@[simp] theorem stop_ofWidth (start width : Nat) : (ofWidth start width).stop = start + width := rfl

@[simp] theorem width_ofWidth (start width : Nat) : (ofWidth start width).width = width := by
  simp [Span.width]

end Span

/-- The text of a span. -/
def Text.slice? (text : Text) (span : Span) : Option Text :=
  (Text.drop? span.start text).bind (Text.take? span.width)

theorem Text.slice?_append (a b c : Text) :
    Text.slice? (a ++ b ++ c) (Span.ofWidth (Text.width a) (Text.width b)) = some b := by
  simp [Text.slice?, List.append_assoc, Text.drop?_width_append, Text.take?_width_append]

end Stylesheet
