/-!
# Places in a source text

A place in a source is a half open range of byte offsets of its UTF-8 text. Sources that are fed to
a session one after another share one offset axis: each is read at the offset where the earlier
ones end, so a span also names the text it came from.
-/

namespace LoxLang

/-- The bytes from `start` up to, and not including, `stop`. -/
structure Span where
  /-- Offset of the first byte. -/
  start : Nat
  /-- Offset just after the last byte. -/
  stop : Nat
deriving DecidableEq, Repr, Inhabited

namespace Span

/-- The empty span at an offset. -/
def point (offset : Nat) : Span := ⟨offset, offset⟩

/-- From the start of the first span to the end of the second. -/
def through (first last : Span) : Span := ⟨first.start, last.stop⟩

/-- The same span of a text that is read `offset` bytes later. -/
def shift (offset : Nat) (s : Span) : Span := ⟨s.start + offset, s.stop + offset⟩

/-- Whether the second span starts exactly where the first ends. -/
def meets (first second : Span) : Bool := first.stop == second.start

/-- Earlier start first; of two spans with one start, the shorter first. -/
def before (a b : Span) : Bool :=
  a.start < b.start || (a.start == b.start && a.stop ≤ b.stop)

@[simp] theorem shift_start (offset : Nat) (s : Span) : (s.shift offset).start = s.start + offset :=
  rfl

@[simp] theorem shift_stop (offset : Nat) (s : Span) : (s.shift offset).stop = s.stop + offset :=
  rfl

/-- Shifting tells spans apart. -/
theorem shift_injective (offset : Nat) {a b : Span} (h : a.shift offset = b.shift offset) :
    a = b := by
  cases a; cases b
  simpa [shift] using h

end Span

end LoxLang
