import ManifestAssist.Text.Width

/-! # Spans and edits

A span is a half-open range of offsets. Offsets are 32-bit words: a larger one is held at the
greatest.
-/

namespace ManifestAssist

/-- The greatest offset that a span can hold. -/
def maxOffset : Nat := 0xFFFFFFFF

structure Span where
  start : Nat
  stop : Nat
  deriving DecidableEq, Repr, Inhabited

namespace Span

/-- The span between two offsets, each held at the greatest offset. -/
def between (start stop : Nat) : Span :=
  ⟨min start maxOffset, min stop maxOffset⟩

/-- The empty span at an offset. -/
def empty (offset : Nat) : Span :=
  between offset offset

def contains (s : Span) (offset : Nat) : Bool :=
  s.start ≤ offset && offset < s.stop

/-- Does the other span lie within this one? -/
def covers (s t : Span) : Bool :=
  s.start ≤ t.start && t.stop ≤ s.stop

variable {s t u : Span}

theorem covers_iff : s.covers t ↔ s.start ≤ t.start ∧ t.stop ≤ s.stop := by
  simp [covers]

@[simp] theorem covers_refl (s : Span) : s.covers s := by
  simp [covers]

theorem covers_trans (h : s.covers t) (h' : t.covers u) : s.covers u := by
  rw [covers_iff] at *
  omega

theorem covers_antisymm (h : s.covers t) (h' : t.covers s) : s = t := by
  obtain ⟨start, stop⟩ := s
  obtain ⟨start', stop'⟩ := t
  rw [covers_iff] at h h'
  rw [mk.injEq]
  exact ⟨Nat.le_antisymm h.1 h'.1, Nat.le_antisymm h'.2 h.2⟩

end Span

/-- Puts a text in the place of the bytes of a span. -/
structure Edit where
  span : Span
  newText : Text
  deriving DecidableEq, Repr

/-- The edited text, if the span is in order and both its ends are boundaries of the text. -/
def Edit.applied? (edit : Edit) (text : Text) : Option Text := do
  guard (edit.span.start ≤ edit.span.stop)
  let (before, _) ← text.cut? Char.utf8Size edit.span.start
  let (_, after) ← text.cut? Char.utf8Size edit.span.stop
  return before ++ edit.newText ++ after

end ManifestAssist
