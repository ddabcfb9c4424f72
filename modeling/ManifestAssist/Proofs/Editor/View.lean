import ManifestAssist.Editor.Session
import ManifestAssist.Proofs.Completion.Edits
import ManifestAssist.Proofs.Text.CodeUnit
import ManifestAssist.Proofs.Text.LineMap

/-! # Completions in code units

A position in units stands for the next boundary on its line, and the span of a completion ends
there in either form. So an editor that replaces code units arrives at the text that the edit in
bytes leads to, with the cursor behind what has been put in.
-/

namespace ManifestAssist

open Text

variable {text before part after newText : Text} {line : Line} {position : Position}

/-- The code units that are left when those in the span of an edit are replaced. -/
def Edit.spliced (edit : Edit) (codes : List UInt16) : List UInt16 :=
  codes.take edit.span.start ++ edit.newText.utf16 ++ codes.drop edit.span.stop

theorem Edit.inUnits_append (hbytes : (before ++ part ++ after).bytes < 2 ^ 32) :
    inUnits (before ++ part ++ after) ⟨⟨before.bytes, (before ++ part).bytes⟩, newText⟩ =
      ⟨⟨before.units, (before ++ part).units⟩, newText⟩ := by
  rw [inUnits, Span.inUnits_append hbytes]

theorem Edit.spliced_append (before part after newText : Text) :
    spliced ⟨⟨before.units, (before ++ part).units⟩, newText⟩ (before ++ part ++ after).utf16 =
      (before ++ newText ++ after).utf16 := by
  have hfront := take_utf16_append before (part ++ after)
  rw [← List.append_assoc] at hfront
  rw [spliced, hfront, drop_utf16_append, utf16_append, utf16_append]

theorem Edit.cursor?_append (hbytes : (before ++ newText ++ after).bytes < 2 ^ 32) :
    cursor? (before ++ part ++ after) ⟨⟨before.bytes, (before ++ part).bytes⟩, newText⟩ =
      some (before.units + newText.units) := by
  have hoffset := unitOffset_bytes_append hbytes
  rw [bytes_append, units_append] at hoffset
  rw [cursor?, applied?_append, Option.map_some, hoffset]

namespace Position

@[simp] theorem line_ofUnits (position : Position) (text : Text) :
    (position.ofUnits text).line = position.line := by
  unfold ofUnits
  split <;> rfl

theorem column_ofUnits (hbytes : text.bytes < 2 ^ 32)
    (hline : text.lines[position.line]? = some line) :
    (position.ofUnits text).column = (takeCovering unitSize position.column line.text).bytes := by
  have hmax : maxOffset = 2 ^ 32 - 1 := rfl
  have hfront : (takeCovering unitSize position.column line.text).bytes ≤ line.text.bytes :=
    width_le_of_isPrefix _ (takeCovering_isPrefix ..)
  have hstop := stop_le_bytes (List.mem_of_getElem? hline)
  unfold Line.stop at hstop
  rw [ofUnits, LineMap.line?_ofText, hline]
  change min (takeCovering unitSize position.column line.text).bytes maxOffset = _
  omega

theorem offset_ofUnits (hbytes : text.bytes < 2 ^ 32)
    (hline : text.lines[position.line]? = some line) :
    (LineMap.ofText text).offset (position.ofUnits text) =
      (text.ahead position.line ++ takeCovering unitSize position.column line.text).bytes := by
  have hfound : text.lines[(position.ofUnits text).line]? = some line := by rwa [line_ofUnits]
  obtain ⟨rest, hrest⟩ := takeCovering_isPrefix unitSize position.column line.text
  have htaken := takeWithin_width_append Char.utf8Size_pos
    (takeCovering unitSize position.column line.text) rest
  rw [hrest] at htaken
  rw [LineMap.offset_eq_bytes_ahead_append hfound, line_ofUnits, column_ofUnits hbytes hline,
    htaken]

end Position

namespace IsTyped

variable {typed : Text}

theorem append_eq_ahead_append (h : IsTyped text (position.ofUnits text) before typed after)
    (hbytes : text.bytes < 2 ^ 32) (hline : text.lines[position.line]? = some line) :
    before ++ typed = text.ahead position.line ++ takeCovering unitSize position.column line.text := by
  have hfront : text.ahead position.line ++ takeCovering unitSize position.column line.text <+:
      text :=
    ((List.prefix_append_right_inj _).mpr (takeCovering_isPrefix ..)).trans
      (ahead_append_isPrefix hline)
  refine eq_of_width_eq Char.utf8Size_pos ⟨after, h.append.symm⟩ hfront ?_
  exact h.stop.trans (Position.offset_ofUnits hbytes hline)

theorem eq_of_beyond (h : IsTyped text position before typed after)
    (hline : text.lines[position.line]? = none) : before = text ∧ typed = [] := by
  have hstart : (LineMap.ofText text).start? position.line = none := by simp [hline]
  have htext : before <+: text := ⟨typed ++ after, by rw [← List.append_assoc, ← h.append]⟩
  refine ⟨?_, h.beyond hstart⟩
  exact eq_of_width_eq Char.utf8Size_pos htext (List.prefix_refl text)
    (h.eq_bytes_of_beyond hstart).1

theorem inUnits (h : IsTyped text position before typed after) (hbytes : text.bytes < 2 ^ 32) :
    Span.inUnits text ⟨before.bytes, (before ++ typed).bytes⟩ =
      ⟨before.units, (before ++ typed).units⟩ := by
  obtain rfl := h.append
  exact Span.inUnits_append hbytes

end IsTyped

namespace View

/-- A completion at a position in units replaces the code units up to the next boundary of its line,
or none at the end of the text. Each of its edits does to the code units of the text what the edit in
bytes does to the text, and leaves the cursor behind what it has put in. -/
theorem spliced_complete (hbytes : text.bytes < 2 ^ 32) (position : Position)
    (manifest : Manifest) (context : Context) :
    let completion := ManifestAssist.complete text (position.ofUnits text) manifest context
    let view := complete text position manifest context
    (∀ line, text.lines[position.line]? = some line →
      ∃ n, line.text.IsNextBoundary (min position.column line.text.units) n ∧
        view.replace.stop = (text.ahead position.line).units + n) ∧
    (text.lines[position.line]? = none → view.replace = ⟨text.units, text.units⟩) ∧
    view.offers = completion.offers.map (Offer.view text) ∧
    ∀ offer ∈ completion.offers, ∃ edited, offer.edit.applied? text = some edited ∧
      let shown := offer.view text
      shown.edit.newText = offer.edit.newText ∧
      shown.edit.span.start ≤ shown.edit.span.stop ∧
      shown.edit.span.stop ≤ text.utf16.length ∧
      shown.edit.spliced text.utf16 = edited.utf16 ∧
      (edited.bytes < 2 ^ 32 →
        shown.cursor = some (shown.edit.span.start + shown.edit.newText.utf16.length)) := by
  intro completion view
  obtain ⟨before, typed, after, htyped, hcomplete⟩ :=
    exists_isTyped_complete hbytes (position.ofUnits text) manifest context
  have hreplace : view.replace = ⟨before.units, (before ++ typed).units⟩ := by
    change completion.replace.inUnits text = _
    rw [show completion.replace = _ from hcomplete, htyped.inUnits hbytes]
  rw [hreplace]
  refine ⟨?_, ?_, rfl, ?_⟩
  · intro line hline
    refine ⟨_, isNextBoundary_takeCovering position.column line.text, ?_⟩
    change (before ++ typed).units = _
    rw [htyped.append_eq_ahead_append hbytes hline, units_append]
  · intro hline
    obtain ⟨rfl, rfl⟩ := htyped.eq_of_beyond (by simpa using hline)
    rw [List.append_nil]
  · intro offer hoffer
    have hedit := edit_of_mem_offers_complete hoffer
    rw [hcomplete] at hedit
    obtain rfl := htyped.append
    have hshown : (offer.view (before ++ typed ++ after)).edit =
        ⟨⟨before.units, (before ++ typed).units⟩, offer.suggestion.insertText.toList⟩ := by
      change offer.edit.inUnits _ = _
      rw [hedit, Edit.inUnits_append hbytes]
    refine ⟨before ++ offer.suggestion.insertText.toList ++ after, ?_, ?_⟩
    · rw [hedit]
      exact Edit.applied?_append before typed after _
    · dsimp only
      rw [hshown, hedit]
      refine ⟨rfl, units_le_units_append before typed, ?_, Edit.spliced_append .., ?_⟩
      · rw [length_utf16]
        exact units_le_units_append (before ++ typed) after
      · intro hedited
        change offer.edit.cursor? _ = _
        rw [hedit, Edit.cursor?_append hedited, length_utf16]

/-- A cursor within a pair of surrogates, behind another such pair. -/
def pairs : Text := "# 😀\ntopology:\n  relationships:\n    - typeOfRelation: 😀".toList

theorem spliced_complete_pairs :
    let completion := ManifestAssist.complete pairs (Position.ofUnits pairs ⟨3, 23⟩)
      (.ofText pairs) .default
    let view := complete pairs ⟨3, 23⟩ (.ofText pairs) .default
    pairs.bytes < 2 ^ 32 ∧ view.replace = ⟨54, 56⟩ ∧
      (∃ n, Text.IsNextBoundary "    - typeOfRelation: 😀".toList 23 n ∧
        56 = (pairs.ahead 3).units + n) ∧
      completion.offers.length = 6 ∧
      ∀ offer ∈ completion.offers, ∃ edited, offer.edit.applied? pairs = some edited ∧
        (offer.view pairs).edit.spliced pairs.utf16 = edited.utf16 := by
  intro completion view
  have hbytes : pairs.bytes < 2 ^ 32 := by cbv
  have hreplace : view.replace = ⟨54, 56⟩ := by decide +kernel
  have hlength : completion.offers.length = 6 := by decide +kernel
  obtain ⟨hline, -, -, hoffers⟩ := spliced_complete hbytes ⟨3, 23⟩ (.ofText pairs) .default
  obtain ⟨n, hn, hstop⟩ := hline ⟨3, 34, "    - typeOfRelation: 😀".toList⟩ (by cbv)
  refine ⟨hbytes, hreplace, ⟨n, hn, ?_⟩, hlength, fun offer hoffer => ?_⟩
  · rw [← hstop, hreplace]
  · obtain ⟨edited, happlied, -, -, -, hspliced, -⟩ := hoffers offer hoffer
    exact ⟨edited, happlied, hspliced⟩

end View

end ManifestAssist
