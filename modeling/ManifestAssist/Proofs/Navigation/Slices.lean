import ManifestAssist.Editor.View
import ManifestAssist.Proofs.Navigation.Growth
import ManifestAssist.Proofs.Outline.Items
import ManifestAssist.Proofs.Outline.Label
import ManifestAssist.Proofs.Text.CodeUnit

/-! # Spans of an outline

The spans of items, blocks, selections and lenses run between starts of lines, labels, ends of
content and the end of the text. All these are boundaries between characters, so each span is a
slice of the text, and an editor that counts code units sees the same slice.
-/

namespace ManifestAssist

open Text Outline

variable {text : Text} {line : Line} {label : String} {span : Span} {stop index i : Nat}

section Boundaries

theorem isBoundary_start_add {front rest : Text} (h : text.lines[i]? = some line)
    (hline : line.text = front ++ rest) : text.isBoundary (line.start + front.bytes) := by
  obtain ⟨after, happend⟩ := exists_append_of_getElem? h
  refine isBoundary_iff.mpr ⟨text.ahead i ++ front, rest ++ after, ?_, ?_⟩
  · simpa [hline] using happend
  · rw [bytes_append, bytes_ahead h]

theorem isBoundary_start (h : line ∈ text.lines) : text.isBoundary line.start := by
  obtain ⟨i, hline⟩ := List.getElem?_of_mem h
  exact isBoundary_start_add hline (List.nil_append line.text).symm

theorem isBoundary_bytes (text : Text) : text.isBoundary text.bytes :=
  isBoundary_iff.mpr ⟨text, [], by simp, rfl⟩

end Boundaries

namespace Outline

theorem isBoundary_stopAmong {lines : List Line} (column : Nat) (h : lines ⊆ text.lines) :
    text.isBoundary (stopAmong column text.bytes lines) := by
  unfold stopAmong
  split
  · exact isBoundary_start (h (List.mem_of_find?_eq_some ‹_›))
  · exact isBoundary_bytes text

theorem isSlice_blockOf (hbytes : text.bytes < 2 ^ 32) (hline : text.lines[i]? = some line)
    (h : line.declares label) : (blockOf text line).IsSlice text := by
  obtain ⟨front, rest, htext, hfront⟩ := exists_append_of_declares h
  have hstart := isBoundary_start_add hline htext
  rw [hfront] at hstart
  have hstop : line.stop ≤
      stopAmong line.labelColumn text.bytes (text.lines.drop (line.number + 1)) := by
    refine le_stopAmong (stop_le_bytes (List.mem_of_getElem? hline)) fun later hlater => ?_
    rw [number_of_getElem? hline] at hlater
    obtain ⟨k, hk⟩ := List.getElem?_of_mem hlater
    rw [List.getElem?_drop] at hk
    exact Nat.le_of_lt (stop_lt_start hline hk (by omega))
  have hlabel := Nat.add_le_add_left (labelColumn_le_bytes h) line.start
  exact Span.isSlice_between hbytes (Nat.le_trans hlabel hstop) hstart
    (isBoundary_stopAmong _ (List.drop_subset _ _))

theorem isSlice_of_mem_ranges (hbytes : text.bytes < 2 ^ 32) {starts : List Nat}
    (hsorted : starts.Pairwise (· < ·)) (hle : ∀ start ∈ starts, start ≤ stop)
    (hstarts : ∀ start ∈ starts, text.isBoundary start) (hstop : text.isBoundary stop) :
    ∀ item ∈ ranges stop index starts, item.span.IsSlice text := by
  fun_induction ranges stop index starts with
  | case1 => simp
  | case2 index start =>
    simpa using Span.isSlice_between hbytes (hle start (by simp)) (hstarts start (by simp)) hstop
  | case3 index start next starts ih =>
    obtain ⟨hlt, hsorted⟩ := List.pairwise_cons.mp hsorted
    obtain ⟨-, hle⟩ := List.forall_mem_cons.mp hle
    obtain ⟨hstart, hstarts⟩ := List.forall_mem_cons.mp hstarts
    refine List.forall_mem_cons.mpr ⟨?_, ih hsorted hle hstarts⟩
    exact Span.isSlice_between hbytes (Nat.le_of_lt (hlt next (by simp))) hstart
      (hstarts next (by simp))

theorem isSlice_of_mem_rangesAfter (hbytes : text.bytes < 2 ^ 32) {lines : List Line}
    (column : Nat) (h : lines.Sublist text.lines) :
    ∀ item ∈ rangesAfter column text.bytes lines, item.span.IsSlice text := by
  rw [rangesAfter_eq]
  cases hitem : firstItem? column lines with
  | none => simp
  | some found =>
    obtain ⟨marker, first, rest⟩ := found
    obtain ⟨-, -, hsub⟩ := firstItem?_eq_some hitem
    have hlines := hsub.trans h
    have hsorted := (pairwise_start_lines text).sublist hlines
    have hstop : ∀ line ∈ first :: rest, line.start ≤ text.bytes := fun line hline =>
      start_le_bytes (hlines.subset hline)
    refine isSlice_of_mem_ranges hbytes (pairwise_starts hsorted)
      (starts_le_stopAmong hsorted hstop) ?_ ?_
    · refine List.forall_mem_cons.mpr ⟨isBoundary_start (hlines.subset (by simp)), ?_⟩
      intro start hmem
      obtain ⟨line, hline, rfl⟩ := List.mem_map.mp hmem
      have hrest := (List.takeWhile_sublist _).subset (List.mem_of_mem_filter hline)
      exact isBoundary_start (hlines.subset (List.mem_cons_of_mem _ hrest))
    · exact isBoundary_stopAmong marker fun line hline =>
        hlines.subset (List.mem_cons_of_mem _ hline)

variable (label : String) (t : Nat)

theorem isSlice_of_mem_itemRanges (hbytes : text.bytes < 2 ^ 32) :
    ∀ item ∈ itemRanges label text, item.span.IsSlice text := by
  unfold itemRanges
  split
  · exact isSlice_of_mem_rangesAfter hbytes _ (List.drop_sublist _ _)
  · simp

theorem isSlice_of_mem_itemRangesAt (hbytes : text.bytes < 2 ^ 32) :
    ∀ item ∈ itemRangesAt label t text, item.span.IsSlice text := by
  unfold itemRangesAt
  split
  · exact isSlice_of_mem_rangesAfter hbytes _ (List.drop_sublist _ _)
  · simp

theorem isSlice_of_mem_blockSpan? (hbytes : text.bytes < 2 ^ 32) :
    ∀ span ∈ blockSpan? label text, span.IsSlice text := by
  intro span h
  obtain ⟨line, hfind, rfl⟩ := Option.map_eq_some_iff.mp h
  obtain ⟨i, hline⟩ := List.getElem?_of_mem (List.mem_of_find?_eq_some hfind)
  have hdeclares := List.find?_some hfind
  exact isSlice_blockOf hbytes hline hdeclares

theorem isSlice_of_mem_blockSpanAt? (hbytes : text.bytes < 2 ^ 32) :
    ∀ span ∈ blockSpanAt? label t text, span.IsSlice text := by
  intro span h
  simp only [blockSpanAt?, Option.bind_eq_bind, Option.pure_def, Option.mem_def,
    Option.bind_eq_some_iff, Option.some.injEq] at h
  obtain ⟨target, -, opening, hfind, rfl⟩ := h
  have hmem := List.mem_reverse.mp (List.mem_of_find?_eq_some hfind)
  obtain ⟨i, -, hline⟩ := exists_of_mem_take_succ hmem
  have hholds := List.find?_some hfind
  exact isSlice_blockOf hbytes hline (Bool.and_eq_true_iff.mp hholds).1

end Outline

namespace Selection

theorem isSlice_of_mem_content? (hbytes : text.bytes < 2 ^ 32) (hline : text.lines[i]? = some line) :
    ∀ span ∈ content? line.start line.text, span.IsSlice text := by
  intro span h
  by_cases hne : trim line.text = []
  · simp [content?, hne] at h
  · obtain rfl := Option.some.inj ((content?_eq hbytes hline hne).1.symm.trans h)
    exact ⟨Nat.add_le_add_left (bytes_le_bytes_append ..) _,
      isBoundary_start_add hline List.takeWhile_append_dropWhile.symm,
      isBoundary_start_add hline (takeWhile_append_trim_append hne).symm⟩

theorem mem_of_mem_grow {spans : List Span} {next : Span} (h : span ∈ grow spans next) :
    span ∈ spans ∨ span = next := by
  unfold grow at h
  split at h
  · split at h
    · simpa using h
    · exact .inl h
  · exact .inr (List.mem_singleton.mp h)

theorem mem_of_mem_foldl_grow {spans grown : List Span} (h : span ∈ spans.foldl grow grown) :
    span ∈ grown ∨ span ∈ spans := by
  induction spans generalizing grown with
  | nil => exact .inl h
  | cons next spans ih =>
    rcases ih h with hgrown | hspans
    · exact (mem_of_mem_grow hgrown).imp_right fun heq => List.mem_cons.mpr (.inl heq)
    · exact .inr (List.mem_cons_of_mem _ hspans)

theorem isSlice_of_mem_around (hbytes : text.bytes < 2 ^ 32) (t start : Nat) (label : String) :
    ∀ span ∈ around text t start label, span.IsSlice text := by
  intro span h
  rcases List.mem_append.mp h with h | h
  · obtain ⟨item, hfind, rfl⟩ := Option.map_eq_some_iff.mp (Option.mem_toList.mp h)
    exact isSlice_of_mem_itemRangesAt label t hbytes item (List.mem_of_find?_eq_some hfind)
  · exact isSlice_of_mem_blockSpanAt? label t hbytes span (Option.mem_toList.mp h)

theorem isSlice_of_mem_spansAt (hbytes : text.bytes < 2 ^ 32) (t : Nat) :
    ∀ span ∈ spansAt text t, span.IsSlice text := by
  intro span h
  simp only [spansAt, LineMap.start?_ofText, LineMap.line?_ofText] at h
  cases hline : text.lines[t]? with
  | none => simp [hline] at h
  | some line =>
    simp only [hline, Option.map_some] at h
    rcases mem_of_mem_foldl_grow h with h | h
    · cases h
    · rcases List.mem_append.mp h with h | h
      · exact isSlice_of_mem_content? hbytes hline span (Option.mem_toList.mp h)
      · obtain ⟨label, -, h⟩ := List.mem_flatMap.mp h
        exact isSlice_of_mem_around hbytes t line.start label span h

end Selection

theorem Lens.isSlice_of_mem_ofMetrics (hbytes : text.bytes < 2 ^ 32) (manifest : Manifest) :
    ∀ lens ∈ Lens.ofMetrics text manifest, lens.span.IsSlice text := by
  intro lens h
  unfold Lens.ofMetrics at h
  split at h
  · cases h
  · obtain ⟨item, hitem, hlens⟩ := List.mem_filterMap.mp h
    simp only [Option.bind_eq_bind, Option.bind_eq_some_iff, Option.pure_def,
      Option.some.injEq] at hlens
    obtain ⟨metric, -, title, -, rfl⟩ := hlens
    exact isSlice_of_mem_itemRangesAt "metrics" _ hbytes item hitem

/-- The spans of a text that an editor is shown: the items and the blocks of a label, what a
selection grows by at a line, and the lenses that a manifest gives. -/
def shownSpans (label : String) (t : Nat) (manifest : Manifest) (text : Text) : List Span :=
  (itemRanges label text).map (·.span) ++ (itemRangesAt label t text).map (·.span) ++
    (blockSpan? label text).toList ++ (blockSpanAt? label t text).toList ++
    Selection.spansAt text t ++ (Lens.ofMetrics text manifest).map (·.span)

theorem isSlice_of_mem_shownSpans (hbytes : text.bytes < 2 ^ 32) (label : String) (t : Nat)
    (manifest : Manifest) : ∀ span ∈ shownSpans label t manifest text, span.IsSlice text := by
  simp only [shownSpans, List.forall_mem_append, List.forall_mem_map]
  refine ⟨⟨⟨⟨⟨?_, ?_⟩, ?_⟩, ?_⟩, ?_⟩, ?_⟩
  · exact isSlice_of_mem_itemRanges label hbytes
  · exact isSlice_of_mem_itemRangesAt label t hbytes
  · simpa using isSlice_of_mem_blockSpan? label hbytes
  · simpa using isSlice_of_mem_blockSpanAt? label t hbytes
  · exact Selection.isSlice_of_mem_spansAt hbytes t
  · exact Lens.isSlice_of_mem_ofMetrics hbytes manifest

/-- Each span that an editor is shown is a slice of the text, and the code units between its ends
in units are those of the slice. -/
theorem slice?_of_mem_shownSpans (hbytes : text.bytes < 2 ^ 32) (label : String) (t : Nat)
    (manifest : Manifest) :
    ∀ span ∈ shownSpans label t manifest text,
      (span.start ≤ span.stop ∧ span.stop ≤ text.bytes ∧
        text.isBoundary span.start ∧ text.isBoundary span.stop) ∧
      ∃ part, text.slice? span.start span.stop = some part ∧
        let view := span.inUnits text
        view.start ≤ view.stop ∧ view.stop ≤ text.utf16.length ∧
          text.utf16.extract view.start view.stop = part.utf16 := by
  intro span h
  have hslice := isSlice_of_mem_shownSpans hbytes label t manifest span h
  refine ⟨⟨hslice.le, le_bytes_of_isBoundary hslice.stop, hslice.start, hslice.stop⟩, ?_⟩
  obtain ⟨before, part, after, rfl, rfl⟩ := hslice.exists_append
  refine ⟨part, slice?_bytes_append before part after, ?_⟩
  rw [Span.inUnits_append hbytes]
  refine ⟨units_le_units_append before part, ?_, extract_utf16_append before part after⟩
  rw [length_utf16]
  exact units_le_units_append (before ++ part) after

/-- Two items behind a character of four bytes and two units. -/
def faces : Text := "# 😀\nm:\n  - ä: 1\n  - b".toList

theorem slice?_of_mem_shownSpans_faces :
    (faces.bytes < 2 ^ 32 ∧ ⟨10, 20⟩ ∈ shownSpans "m" 2 .empty faces) ∧
      ((10 ≤ 20 ∧ 20 ≤ faces.bytes ∧ faces.isBoundary 10 ∧ faces.isBoundary 20) ∧
        ∃ part, faces.slice? 10 20 = some part ∧
          let view := Span.inUnits faces ⟨10, 20⟩
          view.start ≤ view.stop ∧ view.stop ≤ faces.utf16.length ∧
            faces.utf16.extract view.start view.stop = part.utf16) := by
  have hbytes : faces.bytes < 2 ^ 32 := by cbv
  have hmem : ⟨10, 20⟩ ∈ shownSpans "m" 2 .empty faces := by decide +kernel
  exact ⟨⟨hbytes, hmem⟩, slice?_of_mem_shownSpans hbytes "m" 2 .empty ⟨10, 20⟩ hmem⟩

end ManifestAssist
