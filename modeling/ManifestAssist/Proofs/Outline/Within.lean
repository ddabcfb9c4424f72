import ManifestAssist.Proofs.Outline.Items
import ManifestAssist.Proofs.Outline.Laminar

/-! # Items within their block

An item starts with a marker at or right of the label of its block. So a line that ends the block
ends the item, too, and no item leaves its block. An item around a line has the block of its label
around the line.
-/

namespace ManifestAssist.Outline

open Text

variable {text : Text} {line first opening target : Line} {lines rest : List Line}
  {starts : List Nat} {item : ItemRange} {label : String} {column column' marker stop index t : Nat}

theorem exits_of_le (h : exits column line) (hle : column ≤ column') : exits column' line := by
  rcases Nat.lt_or_eq_of_le hle with hlt | rfl
  · exact exits_of_lt h hlt
  · exact h

theorem not_exits_of_marker? (hm : line.marker? = some marker) (hle : column ≤ marker) :
    ¬ exits column line := by
  have hi : line.indent? = some marker := (marker?_eq_some_iff.mp hm).1
  simp only [exits, hi, hm, Bool.or_eq_true, decide_eq_true_eq, not_or]
  refine ⟨by omega, ?_⟩
  simp

theorem not_exits_of_not_isSignificant (hs : ¬ line.isSignificant) : ¬ exits column line := by
  rw [Line.isSignificant, ← isSome_contentColumn?, Option.not_isSome_iff_eq_none] at hs
  exact not_exits_of_contentColumn?_eq_none hs

theorem stopAmong_le_stopAmong (hsorted : lines.Pairwise fun a b => a.start < b.start)
    (hstop : ∀ line ∈ lines, line.start ≤ stop) (hle : column ≤ column') :
    stopAmong column' stop lines ≤ stopAmong column stop lines := by
  induction lines with
  | nil => exact Nat.le_refl _
  | cons line lines ih =>
    obtain ⟨hlater, hsorted⟩ := List.pairwise_cons.mp hsorted
    by_cases he : exits column' line
    · rw [stopAmong_cons_of_exits he]
      refine le_stopAmong (hstop line List.mem_cons_self) fun later hmem => ?_
      rcases List.mem_cons.mp hmem with rfl | hmem
      · exact Nat.le_refl _
      · exact Nat.le_of_lt (hlater later hmem)
    · have he' : ¬ exits column line := fun h => he (exits_of_le h hle)
      rw [stopAmong_cons_of_not_exits he, stopAmong_cons_of_not_exits he']
      exact ih hsorted (List.forall_mem_cons.mp hstop).2

theorem stopAmong_le_of_firstItem? (hsorted : lines.Pairwise fun a b => a.start < b.start)
    (hstop : ∀ line ∈ lines, line.start ≤ stop)
    (h : firstItem? column lines = some (marker, first, rest)) :
    stopAmong marker stop rest ≤ stopAmong column stop lines := by
  -- The lines ahead of the first item do not count, so they end neither the items nor the block.
  induction lines with
  | nil => simp [firstItem?] at h
  | cons line lines ih =>
    obtain ⟨-, hsorted⟩ := List.pairwise_cons.mp hsorted
    obtain ⟨-, hstop⟩ := List.forall_mem_cons.mp hstop
    unfold firstItem? at h
    split at h
    · split at h
      · rename_i hm
        split at h
        · rename_i hle
          simp only [Option.some.injEq, Prod.mk.injEq] at h
          obtain ⟨rfl, rfl, rfl⟩ := h
          rw [stopAmong_cons_of_not_exits (not_exits_of_marker? hm hle)]
          exact stopAmong_le_stopAmong hsorted hstop hle
        · cases h
      · cases h
    · rw [stopAmong_cons_of_not_exits (not_exits_of_not_isSignificant ‹_›)]
      exact ih hsorted hstop h

theorem exists_of_mem_ranges (hle : ∀ start ∈ starts, start ≤ stop)
    (h : item ∈ ranges stop index starts) :
    ∃ start ∈ starts, item.span.start = min start maxOffset ∧ item.span.stop ≤ stop := by
  obtain ⟨k, hk⟩ := List.getElem?_of_mem h
  rw [getElem?_ranges] at hk
  obtain ⟨start, hstart, rfl⟩ := Option.map_eq_some_iff.mp hk
  refine ⟨start, List.mem_of_getElem? hstart, rfl, (Nat.min_le_left ..).trans ?_⟩
  cases hnext : starts[k + 1]? with
  | none => exact Nat.le_refl _
  | some next => exact hle next (List.mem_of_getElem? hnext)

theorem exists_of_mem_rangesAfter (hsorted : lines.Pairwise fun a b => a.start < b.start)
    (hstop : ∀ line ∈ lines, line.start ≤ stop) (h : item ∈ rangesAfter column stop lines) :
    ∃ line ∈ lines, line.marker?.isSome ∧ item.span.start = min line.start maxOffset ∧
      item.span.stop ≤ stopAmong column stop lines := by
  rw [rangesAfter_eq] at h
  cases hitem : firstItem? column lines with
  | none => simp [hitem] at h
  | some found =>
    obtain ⟨marker, first, rest⟩ := found
    obtain ⟨hm, -, hsub⟩ := firstItem?_eq_some hitem
    simp only [hitem] at h
    have hstops : ∀ line ∈ first :: rest, line.start ≤ stop := fun line hline =>
      hstop line (hsub.subset hline)
    obtain ⟨start, hmem, hstart, hle⟩ :=
      exists_of_mem_ranges (starts_le_stopAmong (hsorted.sublist hsub) hstops) h
    have hend := hle.trans (stopAmong_le_of_firstItem? hsorted hstop hitem)
    rcases List.mem_cons.mp hmem with rfl | hmem
    · exact ⟨first, hsub.subset List.mem_cons_self, by simp [hm], hstart, hend⟩
    · obtain ⟨line, hline, rfl⟩ := List.mem_map.mp hmem
      obtain ⟨hline, hmarker⟩ := List.mem_filter.mp hline
      have hrest := (List.takeWhile_sublist _).subset hline
      refine ⟨line, hsub.subset (List.mem_cons_of_mem _ hrest), ?_, hstart, hend⟩
      simp only [decide_eq_true_eq] at hmarker
      simp [hmarker]

theorem covers_of_mem_rangesOf (hbytes : text.bytes < 2 ^ 32) (hopening : opening ∈ text.lines)
    (hdeclares : opening.declares label) (h : item ∈ rangesOf text opening) :
    (blockOf text opening).covers item.span ∧
      ∃ line ∈ text.lines, line.marker?.isSome ∧ item.span.start = line.start := by
  obtain ⟨j, hj⟩ := List.getElem?_of_mem hopening
  obtain ⟨hstart, hle⟩ := start_blockOf hbytes hopening hdeclares
  have hsub : (text.lines.drop (opening.number + 1)).Sublist text.lines := List.drop_sublist ..
  obtain ⟨line, hline, hm, hitem, hstop⟩ := exists_of_mem_rangesAfter
    ((pairwise_start_lines text).sublist hsub) (fun line hl => start_le_bytes (hsub.subset hl)) h
  have hbehind : opening.stop < line.start := by
    obtain ⟨k, hk⟩ := List.getElem?_of_mem hline
    rw [List.getElem?_drop, number_of_getElem? hj] at hk
    exact stop_lt_start hj hk (by omega)
  have hmax : item.span.start = line.start := by
    rw [hitem]
    exact Nat.min_eq_left ((start_le_bytes (hsub.subset hline)).trans (Nat.le_of_lt_succ hbytes))
  refine ⟨Span.covers_iff.mpr ⟨by omega, ?_⟩, line, hsub.subset hline, hm, hmax⟩
  rwa [stop_blockOf hbytes]

theorem exists_opening_of_mem_itemRangesAt (h : item ∈ itemRangesAt label t text) :
    ∃ opening ∈ text.lines, opening.declares label ∧ item ∈ rangesOf text opening ∧
      (text.lines.take (t + 1)).reverse.find? (·.declares label) = some opening := by
  unfold itemRangesAt at h
  split at h
  · rename_i opening hfind
    have hmem := List.mem_reverse.mp (List.mem_of_find?_eq_some hfind)
    have hdeclares : opening.declares label := by simpa using List.find?_some hfind
    exact ⟨opening, List.mem_of_mem_take hmem, hdeclares, h, hfind⟩
  · cases h

theorem exists_line_of_mem_itemRangesAt (hbytes : text.bytes < 2 ^ 32)
    (h : item ∈ itemRangesAt label t text) :
    ∃ line ∈ text.lines, line.marker?.isSome ∧ item.span.start = line.start := by
  obtain ⟨opening, hopening, hdeclares, hitem, -⟩ := exists_opening_of_mem_itemRangesAt h
  exact (covers_of_mem_rangesOf hbytes hopening hdeclares hitem).2

/-- If an item of a label is around a line, then the innermost block of the label there is the one
that the item belongs to. -/
theorem exists_blockSpanAt?_covers (hbytes : text.bytes < 2 ^ 32)
    (htarget : text.lines[t]? = some target) (h : item ∈ itemRangesAt label t text)
    (hcontains : item.span.contains target.start) :
    ∃ span, blockSpanAt? label t text = some span ∧ span.covers item.span := by
  obtain ⟨opening, hopening, hdeclares, hitem, hfind⟩ := exists_opening_of_mem_itemRangesAt h
  obtain ⟨hcovers, -⟩ := covers_of_mem_rangesOf hbytes hopening hdeclares hitem
  obtain ⟨-, after, before, heq, hnot⟩ := List.find?_eq_some_iff_append.mp hfind
  have hlt : target.start < (blockOf text opening).stop := by
    have hend : target.start < item.span.stop := by
      simp only [Span.contains, Bool.and_eq_true, decide_eq_true_eq] at hcontains
      exact hcontains.2
    exact hend.trans_le (Span.covers_iff.mp hcovers).2
  have hinnermost : (text.lines.take (t + 1)).reverse.find? (fun line => line.declares label &&
      (line.number == t || target.start < (blockOf text line).stop)) = some opening := by
    refine List.find?_eq_some_iff_append.mpr ⟨by simp [hdeclares, hlt], after, before, heq, ?_⟩
    intro line hline
    simp [hnot line hline]
  refine ⟨blockOf text opening, ?_, hcovers⟩
  simp only [blockSpanAt?, htarget, Option.bind_eq_bind, Option.bind_some, hinnermost,
    Option.pure_def]

theorem exists_blockSpan?_covers (hbytes : text.bytes < 2 ^ 32) (h : itemRanges label text ≠ []) :
    ∃ span, blockSpan? label text = some span ∧
      ∀ item ∈ itemRanges label text, span.covers item.span := by
  unfold itemRanges blockSpan? at *
  cases hfind : text.lines.find? (·.declares label) with
  | none => simp [hfind] at h
  | some opening =>
    have hopening := List.mem_of_find?_eq_some hfind
    have hdeclares : opening.declares label := by simpa using List.find?_some hfind
    refine ⟨blockOf text opening, rfl, fun item hitem => ?_⟩
    exact (covers_of_mem_rangesOf hbytes hopening hdeclares hitem).1

theorem itemRangesAt_of_declares (hopening : text.lines[t]? = some opening)
    (h : opening.declares label) : itemRangesAt label t text = rangesOf text opening := by
  simp [itemRangesAt, take_succ_of_getElem? hopening, h]

/-- No item leaves its block: the first block of a label covers the items of the label, and the
block at each declaration covers the items there. -/
theorem blocks_cover_items (hbytes : text.bytes < 2 ^ 32) (label : String) :
    (itemRanges label text ≠ [] →
      ∃ span, blockSpan? label text = some span ∧
        ∀ item ∈ itemRanges label text, span.covers item.span) ∧
    ∀ d ∈ declarations label text,
      ∃ span, blockSpanAt? label d.line text = some span ∧
        ∀ item ∈ itemRangesAt label d.line text, span.covers item.span := by
  refine ⟨exists_blockSpan?_covers hbytes, fun d hd => ?_⟩
  obtain ⟨opening, hopening, hdeclares, -⟩ := exists_of_mem_declarations hd
  refine ⟨blockOf text opening, blockSpanAt?_of_declares hopening hdeclares, fun item hitem => ?_⟩
  rw [itemRangesAt_of_declares hopening hdeclares] at hitem
  exact (covers_of_mem_rangesOf hbytes (List.mem_of_getElem? hopening) hdeclares hitem).1

/-- Items at the column of their label, with a comment left of it and a list and a second
declaration within them, and a dedent that ends all blocks. -/
def sameColumn : Text := "  m:\n  - a:\n# c\n     - b\n  - m:\n    - d\n - e".toList

theorem blocks_cover_items_sameColumn :
    sameColumn.bytes < 2 ^ 32 ∧ itemRanges "m" sameColumn = [⟨0, 5, 25⟩, ⟨1, 25, 40⟩] ∧
      (∃ span, blockSpan? "m" sameColumn = some span ∧
        ∀ item ∈ itemRanges "m" sameColumn, span.covers item.span) ∧
      ⟨4, 4, 29⟩ ∈ declarations "m" sameColumn ∧
      itemRangesAt "m" 4 sameColumn = [⟨0, 32, 40⟩] ∧
      ∃ span, blockSpanAt? "m" 4 sameColumn = some span ∧
        ∀ item ∈ itemRangesAt "m" 4 sameColumn, span.covers item.span := by
  have hbytes : sameColumn.bytes < 2 ^ 32 := by cbv
  have hitems : itemRanges "m" sameColumn = [⟨0, 5, 25⟩, ⟨1, 25, 40⟩] := by cbv
  have hd : ⟨4, 4, 29⟩ ∈ declarations "m" sameColumn := by decide +kernel
  obtain ⟨hfirst, hat⟩ := blocks_cover_items hbytes "m"
  exact ⟨hbytes, hitems, hfirst (by simp [hitems]), hd, by cbv, hat _ hd⟩

end ManifestAssist.Outline
