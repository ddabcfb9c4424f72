import ManifestAssist.Completion.Answer
import ManifestAssist.Proofs.Text.Cut

/-! # Edits of a completion

Every vocabulary replaces an end of the value at the cursor. So all edits of a completion replace
one part of the line of the cursor, which ends at the cursor, and each of them applies.
-/

namespace ManifestAssist

open Text

namespace Slot

variable {typed : Text} {slot : Slot}

theorem dropBullets_isSuffix (text : Text) : dropBullets text <:+ text := by
  fun_induction dropBullets text with
  | case1 rest ih =>
    calc dropBullets (dropSpaces rest) <:+ dropSpaces rest := ih
      _ <:+ rest := List.dropWhile_suffix _
      _ <:+ '-' :: ' ' :: rest := ⟨['-', ' '], rfl⟩
  | case2 text => exact List.suffix_refl text

theorem dropOpeningQuote_isSuffix (text : Text) : dropOpeningQuote text <:+ text := by
  fun_cases dropOpeningQuote text with
  | case1 c rest => exact List.suffix_cons c rest
  | case2 c rest => exact List.suffix_refl _
  | case3 => exact List.suffix_refl _

theorem value_isSuffix (h : ofTyped? typed = some slot) : slot.value <:+ typed := by
  simp only [ofTyped?, Option.bind_eq_bind, Option.bind_eq_some_iff, Option.pure_def,
    Option.some.injEq] at h
  obtain ⟨⟨front, back⟩, hsplit, -, -, rfl⟩ := h
  calc dropOpeningQuote (trimStart back) <:+ trimStart back := dropOpeningQuote_isSuffix _
    _ <:+ back := List.dropWhile_suffix _
    _ <:+ dropBullets (dropSpaces typed) := ⟨_, (splitAtFirst_eq_some hsplit).symm⟩
    _ <:+ dropSpaces typed := dropBullets_isSuffix _
    _ <:+ typed := List.dropWhile_suffix _

end Slot

/-- The parts of a text around what is typed on the line of a position and ahead of it. Nothing is
typed on a line that the text does not have. -/
structure IsTyped (text : Text) (position : Position) (before typed after : Text) : Prop where
  append : text = before ++ typed ++ after
  stop : (before ++ typed).bytes = (LineMap.ofText text).offset position
  start : ∀ start, (LineMap.ofText text).start? position.line = some start → start ≤ before.bytes
  beyond : (LineMap.ofText text).start? position.line = none → typed = []

theorem exists_isTyped_nil (text : Text) (position : Position) :
    ∃ before after, IsTyped text position before [] after := by
  obtain ⟨before, after, htext, hoffset, hstart⟩ := LineMap.exists_append_offset text position
  refine ⟨before, after, ?_, ?_, hstart, fun _ => rfl⟩
  · simpa using htext
  · simpa using hoffset.symm

namespace IsTyped

variable {text before typed part after : Text} {position : Position}

theorem of_isSuffix (h : IsTyped text position before typed after) (hpart : part <:+ typed) :
    ∃ before', IsTyped text position before' part after := by
  obtain ⟨front, rfl⟩ := hpart
  refine ⟨before ++ front, ?_, ?_, ?_, ?_⟩
  · simpa using h.append
  · simpa using h.stop
  · intro start hstart
    exact Nat.le_trans (h.start start hstart) (bytes_le_bytes_append before front)
  · intro hnone
    exact (List.append_eq_nil_iff.mp (h.beyond hnone)).2

variable (h : IsTyped text position before typed after)

include h

theorem stop_le_bytes : (before ++ typed).bytes ≤ text.bytes := by
  rw [h.append]
  exact bytes_le_bytes_append (before ++ typed) after

theorem isBoundary_start : text.isBoundary before.bytes := by
  rw [h.append, List.append_assoc]
  exact isBoundary_bytes_append before (typed ++ after)

theorem isBoundary_stop : text.isBoundary (before ++ typed).bytes := by
  rw [h.append]
  exact isBoundary_bytes_append (before ++ typed) after

theorem between_eq (hbytes : text.bytes < 2 ^ 32) :
    Span.between before.bytes (before ++ typed).bytes = ⟨before.bytes, (before ++ typed).bytes⟩ := by
  have hstart := bytes_le_bytes_append before typed
  have hstop := h.stop_le_bytes
  apply Span.between_eq
  · simp only [maxOffset]
    omega
  · simp only [maxOffset]
    omega

theorem eq_bytes_of_beyond (hline : (LineMap.ofText text).start? position.line = none) :
    before.bytes = text.bytes ∧ (before ++ typed).bytes = text.bytes := by
  have hend := h.stop.trans (LineMap.offset_of_start?_eq_none hline)
  refine ⟨?_, hend⟩
  rwa [h.beyond hline, List.append_nil] at hend

end IsTyped

namespace Cursor

variable {text typed : Text} {position : Position} {cursor : Cursor}

theorem exists_cut?_of_at? (h : at? text position = some cursor) :
    ∃ start line front, (LineMap.ofText text).start? position.line = some start ∧
      (LineMap.ofText text).line? position.line = some line ∧
      line.cut? Char.utf8Size (cursor.offset - start) = some (front, cursor.rest) ∧
      Slot.ofTyped? front = some cursor.slot ∧
      cursor.text = text ∧ cursor.line = position.line ∧
      cursor.offset = (LineMap.ofText text).offset position := by
  simp only [at?, Option.bind_eq_bind, Option.bind_eq_some_iff, Option.pure_def,
    Option.some.injEq] at h
  obtain ⟨start, hstart, line, hline, ⟨front, rest⟩, hcut, slot, hslot, rfl⟩ := h
  exact ⟨start, line, front, hstart, hline, hcut, hslot, rfl, rfl, rfl⟩

theorem offset_of_at? (h : at? text position = some cursor) :
    cursor.offset = (LineMap.ofText text).offset position := by
  obtain ⟨start, line, front, -, -, -, -, -, -, hoffset⟩ := exists_cut?_of_at? h
  exact hoffset

theorem exists_isTyped_value (h : at? text position = some cursor) :
    ∃ before after, IsTyped text position before cursor.slot.value after := by
  obtain ⟨start, line, front, hstart, hline, hcut, hslot, -, -, hcursor⟩ := exists_cut?_of_at? h
  obtain ⟨hfront, hwidth⟩ := cut?_eq_some hcut
  have hbytes : front.bytes = (LineMap.ofText text).offset position - start := by
    rw [← hcursor]
    exact hwidth
  obtain ⟨before, after, htext, hbefore⟩ := LineMap.line?_eq_some hline hstart
  -- The front of the line is typed, and the value is an end of it.
  have hfrontTyped : IsTyped text position before front (cursor.rest ++ after) := by
    refine ⟨?_, ?_, ?_, ?_⟩
    · conv_lhs => rw [htext, ← hfront]
      simp
    · have hoffset := LineMap.offset_eq hline hstart
      rw [bytes_append, hbytes]
      omega
    · intro start' hstart'
      rw [hbefore, Option.some.inj (hstart.symm.trans hstart')]
    · intro hnone
      cases hstart.symm.trans hnone
  obtain ⟨before', hvalue⟩ := hfrontTyped.of_isSuffix (Slot.value_isSuffix hslot)
  exact ⟨before', cursor.rest ++ after, hvalue⟩

theorem spanOf_eq {before after : Text} (hbytes : text.bytes < 2 ^ 32)
    (h : at? text position = some cursor) (htyped : IsTyped text position before typed after) :
    cursor.spanOf typed = ⟨before.bytes, (before ++ typed).bytes⟩ := by
  have hstart : (before ++ typed).bytes - typed.bytes = before.bytes := by
    rw [bytes_append, Nat.add_sub_cancel]
  rw [spanOf, offset_of_at? h, ← htyped.stop, hstart]
  exact htyped.between_eq hbytes

end Cursor

/-- Does a draft replace an end of the value, up to the cursor? -/
def Draft.ReplacesEnd (draft : Draft) (cursor : Cursor) : Prop :=
  ∃ typed, typed <:+ cursor.slot.value ∧ draft.replace = cursor.spanOf typed

theorem Draft.replacesEnd_valueSpan (suggestions : List Suggestion) (cursor : Cursor) :
    (Draft.mk suggestions cursor.valueSpan).ReplacesEnd cursor :=
  ⟨cursor.slot.value, List.suffix_refl _, rfl⟩

theorem Draft.replacesEnd_of_bind {draft : Draft} {cursor : Cursor}
    {suggestions? : Option (List Suggestion)}
    (h : (suggestions?.bind fun suggestions => some ⟨suggestions, cursor.valueSpan⟩) =
      some draft) : draft.ReplacesEnd cursor := by
  obtain ⟨suggestions, -, hdraft⟩ := Option.bind_eq_some_iff.mp h
  obtain rfl := Option.some.inj hdraft
  exact Draft.replacesEnd_valueSpan suggestions cursor

section Vocabularies

variable {request : Request} {draft : Draft}

namespace Topology

theorem openBrace?_isSuffix {value typed : Text} (h : openBrace? value = some typed) :
    typed <:+ value := by
  simp only [openBrace?, Option.bind_eq_bind, Option.bind_eq_some_iff] at h
  obtain ⟨⟨front, rest⟩, hsplit, hrest⟩ := h
  split at hrest
  · cases hrest
  · obtain rfl := Option.some.inj hrest
    refine ⟨front, ?_⟩
    rw [splitAtLast_eq_some hsplit, List.append_assoc]
    rfl

theorem replacesEnd_of_placeholders? (h : placeholders? request = some draft) :
    draft.ReplacesEnd request.cursor := by
  simp only [placeholders?, Option.bind_eq_bind, Option.bind_eq_some_iff, Option.pure_def,
    Option.some.injEq] at h
  obtain ⟨rule, -, rfl⟩ := h
  refine ⟨_, ?_, rfl⟩
  cases htyped : openBrace? request.cursor.slot.value with
  | none => exact List.nil_suffix
  | some typed => exact openBrace?_isSuffix htyped

theorem replacesEnd_of_draft? (h : draft? request = some draft) :
    draft.ReplacesEnd request.cursor := by
  simp only [draft?, Option.bind_eq_bind, Option.bind_eq_some_iff] at h
  obtain ⟨-, -, parent, -, h⟩ := h
  -- Patterns have placeholders. Every other value is replaced as a whole.
  split at h
  case h_5 | h_6 => exact replacesEnd_of_placeholders? h
  case h_7 =>
    split at h
    · obtain rfl := Option.some.inj h
      exact Draft.replacesEnd_valueSpan _ _
    · cases h
  case h_8 => cases h
  all_goals
    obtain rfl := Option.some.inj h
    exact Draft.replacesEnd_valueSpan _ _

end Topology

namespace Selector

theorem relationshipWord?_isSuffix {mark : String} {fragment word : Text}
    (h : relationshipWord? mark fragment = some word) : word <:+ fragment := by
  simp only [relationshipWord?, Option.bind_eq_bind, Option.bind_eq_some_iff] at h
  obtain ⟨⟨front, rest⟩, hsplit, hrest⟩ := h
  split at hrest
  · obtain rfl := Option.some.inj hrest
    exact ⟨front ++ mark.toList, (splitAtLast_eq_some hsplit).symm⟩
  · cases hrest

theorem word_isSuffix {fragment : Text} {tail : Tail} (h : Tail.ofFragment? fragment = some tail) :
    tail.word <:+ fragment := by
  unfold Tail.ofFragment? at h
  split at h
  · obtain rfl := Option.some.inj h
    exact relationshipWord?_isSuffix ‹_›
  · obtain rfl := Option.some.inj h
    exact relationshipWord?_isSuffix ‹_›
  · obtain ⟨place, -, rfl⟩ := Option.map_eq_some_iff.mp h
    exact takeEndWhile_isSuffix isWordChar fragment

theorem replacesEnd_of_draft? (h : draft? request = some draft) :
    draft.ReplacesEnd request.cursor := by
  simp only [draft?, Option.bind_eq_bind, Option.bind_eq_some_iff, Option.pure_def,
    Option.some.injEq] at h
  obtain ⟨-, -, tail, htail, rfl⟩ := h
  exact ⟨tail.word, word_isSuffix htail, rfl⟩

end Selector

theorem Screens.replacesEnd_of_draft? (h : Screens.draft? request = some draft) :
    draft.ReplacesEnd request.cursor := by
  simp only [Screens.draft?, Option.bind_eq_bind, Option.bind_eq_some_iff] at h
  obtain ⟨-, -, h⟩ := h
  split at h
  case h_5 => cases h
  all_goals
    split at h
    · exact Draft.replacesEnd_of_bind h
    · cases h

theorem Prometheus.replacesEnd_of_draft? (h : Prometheus.draft? request = some draft) :
    draft.ReplacesEnd request.cursor := by
  simp only [Prometheus.draft?, Option.bind_eq_bind, Option.bind_eq_some_iff] at h
  obtain ⟨-, -, scrape, -, group, -, parent, -, h⟩ := h
  split at h
  case h_6 => cases h
  all_goals exact Draft.replacesEnd_of_bind h

theorem Completion.replacesEnd_of_draft? (h : Completion.draft? request = some draft) :
    draft.ReplacesEnd request.cursor := by
  obtain ⟨vocabulary, hmem, hfilter⟩ := List.exists_of_findSome?_eq_some h
  have hdraft := (Option.filter_eq_some_iff.mp hfilter).1
  simp only [vocabularies, List.mem_cons, List.not_mem_nil, or_false] at hmem
  rcases hmem with rfl | rfl | rfl | rfl
  · exact Topology.replacesEnd_of_draft? hdraft
  · exact Selector.replacesEnd_of_draft? hdraft
  · exact Screens.replacesEnd_of_draft? hdraft
  · exact Prometheus.replacesEnd_of_draft? hdraft

end Vocabularies

section Complete

variable {text : Text} {position : Position}

theorem Completion.exists_isTyped_nothing (hbytes : text.bytes < 2 ^ 32) {offset : Nat}
    (hoffset : offset = (LineMap.ofText text).offset position) :
    ∃ before typed after, IsTyped text position before typed after ∧
      (nothing offset).replace = ⟨before.bytes, (before ++ typed).bytes⟩ := by
  obtain ⟨before, after, htyped⟩ := exists_isTyped_nil text position
  refine ⟨before, [], after, htyped, ?_⟩
  have hstop : (before ++ []).bytes = offset := htyped.stop.trans hoffset.symm
  have hstart : before.bytes = offset := by rwa [List.append_nil] at hstop
  rw [← htyped.between_eq hbytes, hstart, hstop]
  rfl

/-- A completion replaces what is typed ahead of the cursor, or the end of it. -/
theorem exists_isTyped_complete (hbytes : text.bytes < 2 ^ 32) (position : Position)
    (manifest : Manifest) (context : Context) :
    ∃ before typed after, IsTyped text position before typed after ∧
      (complete text position manifest context).replace =
        ⟨before.bytes, (before ++ typed).bytes⟩ := by
  unfold complete
  split
  · exact Completion.exists_isTyped_nothing hbytes rfl
  case h_2 cursor hcursor =>
    split
    · exact Completion.exists_isTyped_nothing hbytes (Cursor.offset_of_at? hcursor)
    case h_2 draft hdraft =>
      obtain ⟨typed, hsuffix, hreplace⟩ := Completion.replacesEnd_of_draft? hdraft
      obtain ⟨_, after, hvalue⟩ := Cursor.exists_isTyped_value hcursor
      obtain ⟨before, htyped⟩ := hvalue.of_isSuffix hsuffix
      refine ⟨before, typed, after, htyped, ?_⟩
      exact hreplace.trans (Cursor.spanOf_eq hbytes hcursor htyped)

theorem edit_of_mem_offers_complete {manifest : Manifest} {context : Context} {offer : Offer}
    (h : offer ∈ (complete text position manifest context).offers) :
    offer.edit =
      ⟨(complete text position manifest context).replace, offer.suggestion.insertText.toList⟩ := by
  revert h
  unfold complete
  split
  · exact nofun
  · split
    · exact nofun
    · intro h
      obtain ⟨suggestion, -, rfl⟩ := List.mem_map.mp h
      rfl

/-- All edits of a completion replace one part of the line of the position, which ends at the
position, and each of them applies. -/
theorem complete_replaces_typed (hbytes : text.bytes < 2 ^ 32) (position : Position)
    (manifest : Manifest) (context : Context) :
    let completion := complete text position manifest context
    let replace := completion.replace
    (replace.start ≤ replace.stop ∧ replace.stop ≤ text.bytes ∧
      text.isBoundary replace.start ∧ text.isBoundary replace.stop) ∧
    (∀ start, (LineMap.ofText text).start? position.line = some start →
      start ≤ replace.start ∧ replace.stop = (LineMap.ofText text).offset position) ∧
    ((LineMap.ofText text).start? position.line = none → replace = ⟨text.bytes, text.bytes⟩) ∧
    ∃ before typed after, text = before ++ typed ++ after ∧ before.bytes = replace.start ∧
      (before ++ typed).bytes = replace.stop ∧
      ∀ offer ∈ completion.offers,
        offer.edit.span = replace ∧ offer.edit.newText = offer.suggestion.insertText.toList ∧
        offer.edit.applied? text = some (before ++ offer.suggestion.insertText.toList ++ after) := by
  intro completion replace
  obtain ⟨before, typed, after, htyped, hcomplete⟩ :=
    exists_isTyped_complete hbytes position manifest context
  have hreplace : replace = ⟨before.bytes, (before ++ typed).bytes⟩ := hcomplete
  rw [hreplace]
  refine ⟨⟨bytes_le_bytes_append before typed, htyped.stop_le_bytes, htyped.isBoundary_start,
    htyped.isBoundary_stop⟩, ?_, ?_, before, typed, after, htyped.append, rfl, rfl, ?_⟩
  · intro start hstart
    exact ⟨htyped.start start hstart, htyped.stop⟩
  · intro hline
    obtain ⟨hstart, hstop⟩ := htyped.eq_bytes_of_beyond hline
    rw [hstart, hstop]
  · intro offer hoffer
    have hedit := edit_of_mem_offers_complete hoffer
    rw [hcomplete] at hedit
    rw [hedit]
    refine ⟨rfl, rfl, ?_⟩
    rw [htyped.append]
    exact Edit.applied?_append before typed after _

/-- A call of a selector with half a word, behind a character of two bytes. -/
def halfWord : Text :=
  "entitySelector: \"ä, healthState(un, b\"\nc: d".toList

theorem complete_replaces_typed_halfWord :
    let completion := complete halfWord ⟨0, 35⟩ .empty .default
    halfWord.bytes < 2 ^ 32 ∧ completion.replace = ⟨33, 35⟩ ∧
      completion.offers.map (·.suggestion.insertText) = ["UNHEALTHY)"] ∧
      ∀ offer ∈ completion.offers, offer.edit.applied? halfWord =
        some ("entitySelector: \"ä, healthState(".toList ++ offer.suggestion.insertText.toList ++
          ", b\"\nc: d".toList) := by
  intro completion
  have hbytes : halfWord.bytes < 2 ^ 32 := by cbv
  have hreplace : completion.replace = ⟨33, 35⟩ := by decide +kernel
  obtain ⟨-, -, -, before, typed, after, htext, hstart, hstop, hoffers⟩ :=
    complete_replaces_typed hbytes ⟨0, 35⟩ .empty .default
  have hbefore : cut? Char.utf8Size 33 halfWord = some (before, typed ++ after) := by
    have := cut?_bytes_append before (typed ++ after)
    rwa [hstart, ← List.append_assoc, ← htext, hreplace] at this
  have hafter : cut? Char.utf8Size 35 halfWord = some (before ++ typed, after) := by
    have := cut?_bytes_append (before ++ typed) after
    rwa [hstop, ← htext, hreplace] at this
  have hfront : before = "entitySelector: \"ä, healthState(".toList :=
    congrArg Prod.fst (Option.some.inj (hbefore.symm.trans (by rfl)))
  have hback : after = ", b\"\nc: d".toList :=
    congrArg Prod.snd (Option.some.inj (hafter.symm.trans (by rfl)))
  refine ⟨hbytes, hreplace, by decide +kernel, fun offer hoffer => ?_⟩
  rw [← hfront, ← hback]
  exact (hoffers offer hoffer).2.2

end Complete

end ManifestAssist
