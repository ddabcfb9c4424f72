import ManifestAssist.Proofs.Text.CodeUnit

/-! # Edits undone

An edit applies if and only if its span runs from one boundary of the text to another. It leaves
what is ahead of the span and what is behind it, and puts its new text between them. There, the new
text is again between two boundaries, so that another edit brings back the part it has replaced.
-/

namespace ManifestAssist

open Text

namespace Edit

variable {edit : Edit} {text edited before part after : Text}

/-- The edit that puts a part back in the place of what an edit has put there. -/
def undoing (edit : Edit) (part : Text) : Edit :=
  ⟨.between edit.span.start (edit.span.start + edit.newText.bytes), part⟩

theorem isSlice_of_applied? (h : edit.applied? text = some edited) : edit.span.IsSlice text := by
  simp only [applied?, Option.bind_eq_bind, Option.bind_eq_some_iff] at h
  obtain ⟨_, hguard, ⟨before, rest⟩, hstart, ⟨front, after⟩, hstop, -⟩ := h
  constructor
  · by_contra hle
    simp [guard, hle] at hguard
  · rw [isBoundary, hstart]
    rfl
  · rw [isBoundary, hstop]
    rfl

theorem applied?_of_span_eq (hspan : edit.span = ⟨before.bytes, (before ++ part).bytes⟩) :
    edit.applied? (before ++ part ++ after) = some (before ++ edit.newText ++ after) := by
  obtain ⟨span, newText⟩ := edit
  obtain rfl : span = _ := hspan
  exact applied?_append before part after newText

theorem isSome_applied?_iff : (edit.applied? text).isSome ↔ edit.span.IsSlice text := by
  constructor
  · intro h
    obtain ⟨edited, hedited⟩ := Option.isSome_iff_exists.mp h
    exact isSlice_of_applied? hedited
  · intro h
    obtain ⟨before, part, after, rfl, hspan⟩ := h.exists_append
    rw [applied?_of_span_eq hspan]
    rfl

theorem exists_append_of_applied? (h : edit.applied? text = some edited) :
    ∃ before part after, text = before ++ part ++ after ∧
      edit.span = ⟨before.bytes, (before ++ part).bytes⟩ ∧
      edited = before ++ edit.newText ++ after := by
  obtain ⟨before, part, after, rfl, hspan⟩ := (isSlice_of_applied? h).exists_append
  rw [applied?_of_span_eq hspan] at h
  exact ⟨before, part, after, rfl, hspan, (Option.some.inj h).symm⟩

/-- The new text of an edit stands where the replaced part stood, as far as offsets can be held. -/
theorem applied?_undoing (hspan : edit.span = ⟨before.bytes, (before ++ part).bytes⟩)
    (hbytes : edit.span.start + edit.newText.bytes < 2 ^ 32) :
    (edit.undoing part).applied? (before ++ edit.newText ++ after) =
      some (before ++ part ++ after) := by
  have hmax : maxOffset = 2 ^ 32 - 1 := rfl
  have hstart : edit.span.start = before.bytes := by rw [hspan]
  apply applied?_of_span_eq
  rw [undoing, Span.between_eq (by omega) (by omega), hstart, bytes_append]

/-- An edit applies if and only if its span is in order, within the text and between boundaries. It
puts its new text between what is ahead of the span and what is behind it, and if the end of the new
text is an offset that can be held, the edit can be undone. -/
theorem applied?_undone (edit : Edit) (text : Text) :
    ((edit.applied? text).isSome ↔
      edit.span.start ≤ edit.span.stop ∧ edit.span.stop ≤ text.bytes ∧
        text.isBoundary edit.span.start ∧ text.isBoundary edit.span.stop) ∧
    ∀ edited, edit.applied? text = some edited →
      edit.span.stop - edit.span.start ≤ text.bytes ∧
      edited.bytes = text.bytes - (edit.span.stop - edit.span.start) + edit.newText.bytes ∧
      ∃ before part after, text.slice? 0 edit.span.start = some before ∧
        text.slice? edit.span.start edit.span.stop = some part ∧
        text.slice? edit.span.stop text.bytes = some after ∧
        edited = before ++ edit.newText ++ after ∧
        (edit.span.start + edit.newText.bytes < 2 ^ 32 →
          (edit.undoing part).applied? edited = some text) := by
  constructor
  · rw [isSome_applied?_iff]
    constructor
    · intro h
      exact ⟨h.le, le_bytes_of_isBoundary h.stop, h.start, h.stop⟩
    · rintro ⟨hle, -, hstart, hstop⟩
      exact ⟨hle, hstart, hstop⟩
  · intro edited h
    obtain ⟨before, part, after, rfl, hspan, rfl⟩ := exists_append_of_applied? h
    have hstart : edit.span.start = before.bytes := by rw [hspan]
    have hstop : edit.span.stop = before.bytes + part.bytes := by rw [hspan, bytes_append]
    refine ⟨?_, ?_, before, part, after, ?_, ?_, ?_, rfl, applied?_undoing hspan⟩
    · simp only [bytes_append]
      omega
    · simp only [bytes_append]
      omega
    · have hslice := slice?_bytes_append [] before (part ++ after)
      rwa [List.nil_append, ← List.append_assoc, ← hstart] at hslice
    · rw [hspan]
      exact slice?_bytes_append before part after
    · have hslice := slice?_bytes_append (before ++ part) after []
      rwa [List.append_nil, bytes_append before part, ← hstop] at hslice

/-- A character of three bytes gives way to one of four and one of two. -/
def widening : Edit := ⟨⟨1, 4⟩, "😀é".toList⟩

theorem applied?_undone_widening :
    let text : Text := "a€b".toList
    let edited : Text := "a😀éb".toList
    (widening.applied? text = some edited ∧
        widening.span.start + widening.newText.bytes < 2 ^ 32) ∧
      (widening.span.stop ≤ text.bytes ∧ text.isBoundary 1 ∧ text.isBoundary 4) ∧
      ∃ before part after, text.slice? 0 1 = some before ∧ text.slice? 1 4 = some part ∧
        text.slice? 4 text.bytes = some after ∧ edited = before ++ widening.newText ++ after ∧
        (widening.undoing part).applied? edited = some text := by
  intro text edited
  have happlied : widening.applied? text = some edited := by cbv
  have hbytes : widening.span.start + widening.newText.bytes < 2 ^ 32 := by cbv
  obtain ⟨hiff, hundone⟩ := applied?_undone widening text
  obtain ⟨-, hbounds⟩ := hiff.mp (by rw [happlied]; rfl)
  obtain ⟨-, -, before, part, after, hbefore, hpart, hafter, hedited, hback⟩ :=
    hundone edited happlied
  exact ⟨⟨happlied, hbytes⟩, hbounds, before, part, after, hbefore, hpart, hafter, hedited,
    hback hbytes⟩

end Edit

end ManifestAssist
