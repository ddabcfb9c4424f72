import ManifestAssist.Proofs.Completion.Edits
import ManifestAssist.Proofs.Completion.Vocabularies
import ManifestAssist.Proofs.Outline.Nesting
import ManifestAssist.Proofs.Text.Edit

/-! # Offers and the line of the cursor

An offer accepts a suggestion of some vocabulary. Its edit is on the line of the cursor, and the
text that it leaves is told line by line.
-/

namespace ManifestAssist

open Text

/-- What a line holds from a column of bytes on. -/
def Text.lineFrom? (text : Text) (line column : Nat) : Option Text := do
  let content ← (LineMap.ofText text).line? line
  let (_, back) ← content.cut? Char.utf8Size column
  return back

theorem Suggestion.mem_of_mem_sortBy {query : Text} {suggestions : List Suggestion}
    {suggestion : Suggestion} (h : suggestion ∈ sortBy query suggestions) :
    suggestion ∈ suggestions := by
  unfold sortBy at h
  split at h
  · exact h
  · obtain ⟨⟨rank, found⟩, hranked, rfl⟩ := List.mem_map.mp h
    obtain ⟨source, hsource, hmatch⟩ := List.mem_filterMap.mp (List.mem_mergeSort.mp hranked)
    obtain ⟨_, -, hpair⟩ := Option.map_eq_some_iff.mp hmatch
    obtain ⟨-, rfl⟩ := Prod.mk.inj hpair
    exact hsource

theorem exists_vocabulary_of_mem_offers {text : Text} {position : Position} {manifest : Manifest}
    {context : Context} {offer : Offer}
    (h : offer ∈ (complete text position manifest context).offers) :
    ∃ cursor, Cursor.at? text position = some cursor ∧
      ∃ vocabulary ∈ Completion.vocabularies,
        ∃ draft, vocabulary ⟨cursor, manifest, context⟩ = some draft ∧
          ∃ suggestion ∈ draft.suggestions, ∃ retriggers : Bool,
            offer = ⟨{ suggestion with retriggers }, draft.replace, suggestion.insertText.toList⟩ := by
  revert h
  unfold complete
  split
  · exact nofun
  case h_2 cursor hcursor =>
    split
    · exact nofun
    case h_2 draft hdraft =>
      intro h
      obtain ⟨vocabulary, hmem, hfilter⟩ := List.exists_of_findSome?_eq_some hdraft
      obtain ⟨suggestion, hsuggestion, rfl⟩ := List.mem_map.mp h
      exact ⟨cursor, hcursor, vocabulary, hmem, draft, (Option.filter_eq_some_iff.mp hfilter).1,
        suggestion, Suggestion.mem_of_mem_sortBy hsuggestion, _, rfl⟩

/-- What is offered is suggested by the one vocabulary that has an answer. -/
theorem exists_suggestion_of_mem_offers {text : Text} {position : Position} {manifest : Manifest}
    {context : Context} {cursor : Cursor} (hcursor : Cursor.at? text position = some cursor)
    {vocabulary : Request → Option Draft} (hvocabulary : vocabulary ∈ Completion.vocabularies)
    {draft : Draft} (hdraft : vocabulary ⟨cursor, manifest, context⟩ = some draft) {offer : Offer}
    (hoffer : offer ∈ (complete text position manifest context).offers) :
    ∃ suggestion ∈ draft.suggestions, ∃ retriggers : Bool,
      offer = ⟨{ suggestion with retriggers }, draft.replace, suggestion.insertText.toList⟩ := by
  obtain ⟨cursor', hcursor', other, hother, draft', hdraft', hsuggestion⟩ :=
    exists_vocabulary_of_mem_offers hoffer
  obtain rfl := Option.some.inj (hcursor.symm.trans hcursor')
  have hsymm : Std.Symm fun v w : Request → Option Draft =>
      v ⟨cursor, manifest, context⟩ = none ∨ w ⟨cursor, manifest, context⟩ = none :=
    ⟨fun _ _ => Or.symm⟩
  have hsame : vocabulary = other := by
    by_contra hne
    have hpairwise := Completion.pairwise_vocabularies ⟨cursor, manifest, context⟩
    rcases hpairwise.forall hvocabulary hother hne with h | h
    · rw [h] at hdraft
      cases hdraft
    · rw [h] at hdraft'
      cases hdraft'
  subst hsame
  obtain rfl := Option.some.inj (hdraft.symm.trans hdraft')
  exact hsuggestion

theorem Slot.valueColumn_eq {typed front : Text} {slot : Slot} (h : ofTyped? typed = some slot)
    (htyped : typed = front ++ slot.value) : slot.valueColumn = front.bytes := by
  have hcolumn : slot.valueColumn = typed.bytes - slot.value.bytes := by
    simp only [ofTyped?, Option.bind_eq_bind, Option.bind_eq_some_iff, Option.pure_def,
      Option.some.injEq] at h
    obtain ⟨-, -, -, -, rfl⟩ := h
    rfl
  rw [hcolumn, htyped, bytes_append, Nat.add_sub_cancel]

theorem Text.lineFrom?_of_splitAll {text front back : Text} {i : Nat}
    (h : (text.splitAll '\n')[i]? = some (front ++ back)) :
    text.lineFrom? i front.bytes = some back := by
  rw [← map_text_lines, List.getElem?_map] at h
  rw [lineFrom?, LineMap.line?_ofText, h]
  simp [cut?_bytes_append]

namespace Cursor

variable {text : Text} {position : Position} {cursor : Cursor}

theorem exists_line_of_at? (h : at? text position = some cursor) :
    ∃ line front, text.lines[position.line]? = some line ∧ line.text = front ++ cursor.rest ∧
      Slot.ofTyped? front = some cursor.slot ∧ cursor.offset = line.start + front.bytes := by
  obtain ⟨start, content, front, hstart, hline, hcut, hslot, -, -, hoffset⟩ :=
    exists_cut?_of_at? h
  rw [LineMap.offset_eq hline hstart] at hoffset
  rw [LineMap.line?_ofText, Option.map_eq_some_iff] at hline
  obtain ⟨line, hget, rfl⟩ := hline
  rw [LineMap.start?_ofText, hget, Option.map_some, Option.some.injEq] at hstart
  obtain ⟨hfront, hwidth⟩ := cut?_eq_some hcut
  refine ⟨line, front, hget, hfront.symm, hslot, ?_⟩
  simp only [bytes]
  omega

theorem chain_of_at? (h : at? text position = some cursor) :
    cursor.chain = Outline.chain text position.line := by
  simp only [at?, Option.bind_eq_bind, Option.bind_eq_some_iff, Option.pure_def,
    Option.some.injEq] at h
  obtain ⟨-, -, -, -, -, -, -, -, rfl⟩ := h
  rfl

theorem indent?_ne_zero_of_endsWith (h : at? text position = some cursor) {line : Line}
    (hget : text.lines[position.line]? = some line) {labels : List String}
    (hends : cursor.endsWith labels) (hlength : 2 ≤ labels.length) : line.indent? ≠ some 0 := by
  intro hzero
  have hle := (List.isSuffixOf_iff_suffix.mp hends).length_le
  rw [chain_of_at? h, Outline.chain_eq_ownLabel hget hzero, List.length_singleton] at hle
  omega

theorem offset_le_maxOffset (hbytes : text.bytes < 2 ^ 32) (h : at? text position = some cursor) :
    cursor.offset ≤ maxOffset := by
  obtain ⟨before, after, htyped⟩ := exists_isTyped_value h
  have hle := htyped.stop_le_bytes
  rw [htyped.stop, ← offset_of_at? h] at hle
  simp only [maxOffset]
  omega

theorem exists_applied?_spanOf {line : Line} {i : Nat} {front typed : Text}
    (hget : text.lines[i]? = some line) (hline : line.text = front ++ typed ++ cursor.rest)
    (hcursor : cursor.offset = line.start + (front ++ typed).bytes)
    (hoffset : cursor.offset ≤ maxOffset) (new : Text) :
    ∃ edited, (Edit.mk (cursor.spanOf typed) new).applied? text = some edited ∧
      edited.splitAll '\n' = (text.splitAll '\n').take i ++
        (front ++ new ++ cursor.rest).splitAll '\n' ++ (text.splitAll '\n').drop (i + 1) := by
  have hstart : cursor.offset - typed.bytes = line.start + front.bytes := by
    rw [hcursor, bytes_append]
    omega
  have hspan : cursor.spanOf typed =
      ⟨line.start + front.bytes, line.start + (front ++ typed).bytes⟩ := by
    rw [spanOf, Span.between_eq ((Nat.sub_le ..).trans hoffset) hoffset, hstart, hcursor]
  rw [hspan]
  exact Edit.exists_applied? hget hline new

end Cursor

end ManifestAssist
