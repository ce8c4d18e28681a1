/-!
# Spans

Positions are byte offsets into the UTF-8 form of a text. A span is a pair of such
offsets; nothing forces its ends into order, because callers may hand in any pair.

* `Span.shift` moves a span from the coordinates of a value to those of the document.
* `Located` pairs something that was read with the span it was read from.
-/

namespace DotAttributes

/-- A range of byte offsets, `stop` excluded. -/
structure Span where
  start : Nat
  stop : Nat
deriving DecidableEq, Repr

namespace Span

/-- The span of `size` bytes from `start` on. -/
def ofSize (start size : Nat) : Span := ⟨start, start + size⟩

/-- The empty span at one offset. -/
def empty (offset : Nat) : Span := ⟨offset, offset⟩

/-- Moves both ends of a span by `base` bytes to the right. -/
def shift (base : Nat) (s : Span) : Span := ⟨s.start + base, s.stop + base⟩

/-- The number of bytes covered; zero for a span whose ends are reversed. -/
def size (s : Span) : Nat := s.stop - s.start

/-- The span from the start of the first to the end of the second. -/
def through (s t : Span) : Span := ⟨s.start, t.stop⟩

@[simp] theorem ofSize_start (start size : Nat) : (ofSize start size).start = start := rfl

@[simp] theorem ofSize_stop (start size : Nat) : (ofSize start size).stop = start + size := rfl

@[simp] theorem empty_start (offset : Nat) : (empty offset).start = offset := rfl

@[simp] theorem empty_stop (offset : Nat) : (empty offset).stop = offset := rfl

@[simp] theorem through_start (s t : Span) : (s.through t).start = s.start := rfl

@[simp] theorem through_stop (s t : Span) : (s.through t).stop = t.stop := rfl

@[simp] theorem shift_start (base : Nat) (s : Span) : (s.shift base).start = s.start + base := rfl

@[simp] theorem shift_stop (base : Nat) (s : Span) : (s.shift base).stop = s.stop + base := rfl

@[simp] theorem shift_zero (s : Span) : s.shift 0 = s := rfl

theorem shift_shift (a b : Nat) (s : Span) : (s.shift a).shift b = s.shift (a + b) := by
  simp [shift, Nat.add_assoc]

@[simp] theorem size_shift (base : Nat) (s : Span) : (s.shift base).size = s.size := by
  simp only [size, shift]
  omega

end Span

/-- Something read from a text, with the place it was read from. -/
structure Located (α : Type) where
  item : α
  span : Span
deriving DecidableEq, Repr

namespace Located

variable {α β : Type}

/-- Changes what was read and keeps the place. -/
def map (f : α → β) (x : Located α) : Located β := ⟨f x.item, x.span⟩

/-- Moves the place by `base` bytes to the right. -/
def shift (base : Nat) (x : Located α) : Located α := ⟨x.item, x.span.shift base⟩

@[simp] theorem shift_item (base : Nat) (x : Located α) : (x.shift base).item = x.item := rfl

@[simp] theorem shift_span (base : Nat) (x : Located α) :
    (x.shift base).span = x.span.shift base := rfl

end Located

end DotAttributes
