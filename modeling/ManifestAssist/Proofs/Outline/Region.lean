import ManifestAssist.Proofs.Outline.Nesting
import ManifestAssist.Proofs.Text.Lines

/-! # Blocks that reach a line

A block reaches the lines up to the first one that ends it, so the innermost block of a label around
a line is found if and only if the block of some declaration reaches the line. The chain of a line
is read off the columns of contents instead. A block of the chain can fail to reach the line for two
reasons: white space ahead of its key, or a list item whose marker is left of its label.
-/

namespace ManifestAssist.Outline

open Text

variable {text : Text} {lines : List Line} {line opening target : Line}
  {column stop offset d t : Nat} {label : String}

/-- Where a block with its label at a column ends among the lines behind the label. -/
def stopAmong (column stop : Nat) (lines : List Line) : Nat :=
  match lines.find? (exits column) with
  | some last => last.start
  | none => stop

theorem stopAmong_cons_of_exits (h : exits column line) :
    stopAmong column stop (line :: lines) = line.start := by
  simp [stopAmong, h]

theorem stopAmong_cons_of_not_exits (h : ¬ exits column line) :
    stopAmong column stop (line :: lines) = stopAmong column stop lines := by
  simp [stopAmong, h]

theorem le_stopAmong (hstop : offset ≤ stop) (h : ∀ line ∈ lines, offset ≤ line.start) :
    offset ≤ stopAmong column stop lines := by
  unfold stopAmong
  split
  · exact h _ (List.mem_of_find?_eq_some ‹_›)
  · exact hstop

theorem stopAmong_le (h : ∀ line ∈ lines, line.start ≤ stop) :
    stopAmong column stop lines ≤ stop := by
  unfold stopAmong
  split
  · exact h _ (List.mem_of_find?_eq_some ‹_›)
  · exact Nat.le_refl _

theorem lt_stopAmong_iff (hsorted : lines.Pairwise fun a b => a.start < b.start)
    (hstop : ∀ line ∈ lines, line.start ≤ stop) :
    offset < stopAmong column stop lines ↔
      offset < stop ∧ ∀ line ∈ lines, line.start ≤ offset → ¬ exits column line := by
  induction lines with
  | nil => simp [stopAmong]
  | cons line lines ih =>
    obtain ⟨hlt, hsorted⟩ := List.pairwise_cons.mp hsorted
    obtain ⟨hle, hstop⟩ := List.forall_mem_cons.mp hstop
    rw [List.forall_mem_cons]
    by_cases he : exits column line
    · rw [stopAmong_cons_of_exits he]
      constructor
      · intro h
        refine ⟨Nat.lt_of_lt_of_le h hle, by omega, fun later hlater hoffset => ?_⟩
        have := hlt later hlater
        omega
      · rintro ⟨-, h, -⟩
        by_contra hge
        exact h (by omega) he
    · rw [stopAmong_cons_of_not_exits he, ih hsorted hstop]
      simp [he]

/-- Does line `d` declare the label? -/
def DeclaredAt (label : String) (lines : List Line) (d : Nat) : Prop :=
  ∃ opening ∈ lines[d]?, opening.declares label

/-- Does no line behind line `d`, up to line `t`, end the block that line `d` opens? -/
def Reaches (lines : List Line) (d t : Nat) : Prop :=
  ∃ opening ∈ lines[d]?, ∀ k ≤ t, d < k → ∀ line ∈ lines[k]?, ¬ exits opening.labelColumn line

theorem reaches_of_le {s : Nat} (h : Reaches lines d t) (hle : s ≤ t) : Reaches lines d s := by
  obtain ⟨opening, hopening, hreach⟩ := h
  exact ⟨opening, hopening, fun k hk => hreach k (hk.trans hle)⟩

theorem stop_blockOf (hbytes : text.bytes < 2 ^ 32) (line : Line) :
    (blockOf text line).stop =
      stopAmong line.labelColumn text.bytes (text.lines.drop (line.number + 1)) := by
  have hle : stopAmong line.labelColumn text.bytes (text.lines.drop (line.number + 1)) ≤
      text.bytes := stopAmong_le fun _ hline => start_le_bytes (List.mem_of_mem_drop hline)
  have hmax : maxOffset = 2 ^ 32 - 1 := rfl
  change min (stopAmong ..) maxOffset = _
  omega

theorem lt_stop_blockOf_iff_forall (hbytes : text.bytes < 2 ^ 32)
    (hopening : text.lines[d]? = some opening) :
    offset < (blockOf text opening).stop ↔ offset < text.bytes ∧ ∀ k, d < k →
      ∀ line ∈ text.lines[k]?, line.start ≤ offset → ¬ exits opening.labelColumn line := by
  have hsorted : (text.lines.drop (d + 1)).Pairwise fun a b => a.start < b.start :=
    (pairwise_start_lines text).sublist (List.drop_sublist ..)
  rw [stop_blockOf hbytes, number_of_getElem? hopening, lt_stopAmong_iff hsorted fun line hline =>
    start_le_bytes (List.mem_of_mem_drop hline)]
  refine and_congr_right fun _ => ?_
  constructor
  · intro h k hk line hline
    refine h line (List.mem_of_getElem? (i := k - (d + 1)) ?_)
    rw [List.getElem?_drop, show d + 1 + (k - (d + 1)) = k by omega, hline]
  · intro h line hline
    obtain ⟨i, hi⟩ := List.getElem?_of_mem hline
    rw [List.getElem?_drop] at hi
    exact h (d + 1 + i) (by omega) line hi

theorem lt_stop_blockOf_iff (hbytes : text.bytes < 2 ^ 32)
    (hopening : text.lines[d]? = some opening) (htarget : text.lines[t]? = some target) :
    target.start < (blockOf text opening).stop ↔
      target.start < text.bytes ∧ Reaches text.lines d t := by
  rw [lt_stop_blockOf_iff_forall hbytes hopening]
  refine and_congr_right fun _ => ?_
  constructor
  · refine fun h => ⟨opening, hopening, fun k hk hd line hline => h k hd line hline ?_⟩
    by_contra hlt
    have := (start_lt_start_iff htarget hline).mp (by omega)
    omega
  · rintro ⟨opening', hopening', h⟩ k hd line hline hle
    obtain rfl : opening = opening' := Option.some.inj (hopening.symm.trans hopening')
    refine h k ?_ hd line hline
    by_contra hlt
    have := (start_lt_start_iff htarget hline).mpr (by omega)
    omega

theorem start_lt_bytes (htarget : text.lines[t]? = some target) (hs : target.isSignificant) :
    target.start < text.bytes := by
  have hstop := stop_le_bytes (List.mem_of_getElem? htarget)
  have hpos : 0 < target.text.bytes := by
    cases h : target.text with
    | nil => simp [Line.isSignificant, isSignificant, indent?, h, dropSpaces, trimEnd,
        dropEndWhile] at hs
    | cons c cs =>
      have := c.utf8Size_pos
      simp only [bytes, width_cons]
      omega
  unfold Line.stop at hstop
  omega

theorem exists_of_mem_take_succ (h : line ∈ lines.take (t + 1)) :
    ∃ d ≤ t, lines[d]? = some line := by
  obtain ⟨d, hd⟩ := List.getElem?_of_mem h
  rw [List.getElem?_take] at hd
  split at hd
  · exact ⟨d, by omega, hd⟩
  · simp at hd

theorem take_succ_of_getElem? (h : lines[t]? = some line) :
    lines.take (t + 1) = lines.take t ++ [line] := by
  rw [List.take_add_one, h, Option.toList_some]

theorem exists_of_find?_reverse_take {p : Line → Bool}
    (h : (lines.take (t + 1)).reverse.find? p = some opening) :
    ∃ d ≤ t, lines[d]? = some opening ∧ p opening ∧
      ∀ k ≤ t, d < k → ∀ line ∈ lines[k]?, ¬ p line := by
  obtain ⟨hp, after, before, heq, hnot⟩ := List.find?_eq_some_iff_append.mp h
  have htake : lines.take (t + 1) = before.reverse ++ opening :: after.reverse := by
    simpa using congrArg List.reverse heq
  have hget (k : Nat) (hk : k ≤ t) :
      lines[k]? = (before.reverse ++ opening :: after.reverse)[k]? := by
    rw [← htake, List.getElem?_take_of_lt (Nat.lt_succ_of_le hk)]
  have hlength := congrArg List.length htake
  simp only [List.length_take, List.length_append, List.length_cons, List.length_reverse]
    at hlength
  refine ⟨before.length, by omega, ?_, hp, fun k hk hlt line hline => ?_⟩
  · rw [hget _ (by omega)]
    simp
  · rw [Option.mem_def, hget k hk, List.getElem?_append_right (by simpa using hlt.le),
      List.length_reverse, show k - before.length = k - before.length - 1 + 1 by omega,
      List.getElem?_cons_succ] at hline
    simpa using hnot line (List.mem_reverse.mp (List.mem_of_getElem? hline))

theorem exists_of_blockSpanAt? {span : Span} (hbytes : text.bytes < 2 ^ 32)
    (htarget : text.lines[t]? = some target) (h : blockSpanAt? label t text = some span) :
    ∃ d ≤ t, ∃ opening, text.lines[d]? = some opening ∧ opening.declares label ∧
      Reaches text.lines d t ∧ span = blockOf text opening := by
  simp only [blockSpanAt?, htarget, Option.bind_eq_bind, Option.bind_some, Option.pure_def,
    Option.bind_eq_some_iff, Option.some.injEq] at h
  obtain ⟨opening, hfind, rfl⟩ := h
  obtain ⟨d, hdt, hopening, hholds, -⟩ := exists_of_find?_reverse_take hfind
  simp only [number_of_getElem? hopening, Bool.and_eq_true, Bool.or_eq_true, beq_iff_eq,
    decide_eq_true_eq] at hholds
  refine ⟨d, hdt, opening, hopening, hholds.1, ?_, rfl⟩
  rcases hholds.2 with rfl | hlt
  · exact ⟨opening, hopening, fun k hk hdk => absurd hk (by omega)⟩
  · exact ((lt_stop_blockOf_iff hbytes hopening htarget).mp hlt).2

/-- The innermost block of a label around a line is there, and reaches past the start of the line,
if and only if the block of some declaration up to the line reaches it. -/
theorem exists_blockSpanAt?_iff (hbytes : text.bytes < 2 ^ 32)
    (htarget : text.lines[t]? = some target) (hs : target.isSignificant) :
    (∃ span, blockSpanAt? label t text = some span ∧ target.start < span.stop) ↔
      ∃ d ≤ t, DeclaredAt label text.lines d ∧ Reaches text.lines d t := by
  have hstart := start_lt_bytes htarget hs
  constructor
  · rintro ⟨span, hspan, -⟩
    obtain ⟨d, hdt, opening, hopening, hdeclares, hreach, -⟩ :=
      exists_of_blockSpanAt? hbytes htarget hspan
    exact ⟨d, hdt, ⟨opening, hopening, hdeclares⟩, hreach⟩
  · rintro ⟨d, hdt, ⟨opening, hopening, hdeclares⟩, hreach⟩
    have hlt := (lt_stop_blockOf_iff hbytes hopening htarget).mpr ⟨hstart, hreach⟩
    have hmem : opening ∈ (text.lines.take (t + 1)).reverse := by
      refine List.mem_reverse.mpr (List.mem_of_getElem? (i := d) ?_)
      rw [List.getElem?_take_of_lt (by omega), hopening]
    have hsome : ((text.lines.take (t + 1)).reverse.find? fun opening => opening.declares label &&
        (opening.number == t || target.start < (blockOf text opening).stop)).isSome :=
      List.find?_isSome.mpr ⟨opening, hmem, by simp [hdeclares, hlt]⟩
    obtain ⟨found, hfind⟩ := Option.isSome_iff_exists.mp hsome
    have hspan : blockSpanAt? label t text = some (blockOf text found) := by
      simp [blockSpanAt?, htarget, hfind]
    obtain ⟨e, -, innermost, hinnermost, -, hreach', heq⟩ :=
      exists_of_blockSpanAt? hbytes htarget hspan
    refine ⟨_, hspan, ?_⟩
    rw [heq]
    exact (lt_stop_blockOf_iff hbytes hinnermost htarget).mpr ⟨hstart, hreach'⟩

/-- Does what line `j` holds behind its markers start with white space? -/
def StartsBlank (lines : List Line) (j : Nat) : Prop :=
  ∃ line ∈ lines[j]?, ∃ c ∈ (content line.text).head?, isBlank c

/-- Does a list item behind line `j`, up to line `t`, have its marker left of the content of line
`j`? -/
def PassedByMarker (lines : List Line) (j t : Nat) : Prop :=
  ∃ own ∈ columnAt lines j, ∃ k ≤ t, j < k ∧
    ∃ line ∈ lines[k]?, ∃ marker ∈ line.marker?, marker < own

theorem declaredAt_iff_of_labelAt {j : Nat} (h : labelAt lines j = some label) :
    DeclaredAt label lines j ↔ ¬ StartsBlank lines j := by
  obtain ⟨line, hline, hlabel⟩ := Option.bind_eq_some_iff.mp h
  have := declares_iff_of_label?_eq_some hlabel
  simp only [DeclaredAt, StartsBlank, Line.declares, Option.mem_def, hline, Option.some.injEq,
    exists_eq_left', this]
  simp

theorem not_exits_of_contentColumn?_eq_none (h : line.contentColumn? = none) :
    ¬ exits column line := by
  have hi : line.indent? = none := contentColumn?_eq_none_iff.mp h
  simp [exits, hi]

theorem reaches_iff_of_mem_openings {j : Nat} (htarget : lines[t]? = some target)
    (hcolumn : target.contentColumn? = some column) (hj : j ∈ openings lines t column) :
    Reaches lines j t ↔ ¬ PassedByMarker lines j t := by
  obtain ⟨hjt, -, own, hown, hlt, hbetween⟩ := mem_openings.mp hj
  obtain ⟨opening, hopening, hcontent⟩ := Option.bind_eq_some_iff.mp hown
  have hlabelColumn : opening.labelColumn = own := by simp [Line.labelColumn, hcontent]
  have hright {k : Nat} {line : Line} {c : Nat} (hk : k ≤ t) (hjk : j < k)
      (hline : lines[k]? = some line) (hc : line.contentColumn? = some c) : own < c := by
    rcases Nat.lt_or_eq_of_le hk with hk | rfl
    · exact hbetween k hk hjk c (Option.bind_eq_some_iff.mpr ⟨line, hline, hc⟩)
    · obtain rfl : target = line := Option.some.inj (htarget.symm.trans hline)
      obtain rfl : column = c := Option.some.inj (hcolumn.symm.trans hc)
      exact hlt
  constructor
  · rintro ⟨opening', hopening', h⟩ ⟨own', hown', k, hk, hjk, line, hline, marker, hmarker, hleft⟩
    obtain rfl : opening = opening' := Option.some.inj (hopening.symm.trans hopening')
    obtain rfl : own = own' := Option.some.inj (hown.symm.trans hown')
    have hi : line.indent? = some marker := (marker?_eq_some_iff.mp hmarker).1
    refine h k hk hjk line hline ?_
    simp [exits, hi, hlabelColumn, hleft]
  · intro h
    refine ⟨opening, hopening, fun k hk hjk line hline he => ?_⟩
    rw [hlabelColumn] at he
    cases hc : line.contentColumn? with
    | none => exact not_exits_of_contentColumn?_eq_none hc he
    | some c =>
      obtain ⟨marker, hmarker, hleft⟩ := (exits_iff_marker?_lt hc (hright hk hjk hline hc)).mp he
      exact h ⟨own, hown, k, hk, hjk, line, hline, marker, hmarker, hleft⟩

/-- A label of the chain of a line has a block around the line if and only if the block of some
declaration reaches the line. That of the open line with the label does, unless it starts with white
space or a marker is left of it. -/
theorem blockSpanAt?_of_mem_chain_iff (hbytes : text.bytes < 2 ^ 32)
    (htarget : text.lines[t]? = some target) (hs : target.isSignificant)
    (h0 : target.indent? ≠ some 0) (hlabel : label ∈ chain text t) :
    ((∃ span, blockSpanAt? label t text = some span ∧ target.start < span.stop) ↔
        ∃ d ≤ t, DeclaredAt label text.lines d ∧ Reaches text.lines d t) ∧
      (∃ j ∈ openings text.lines t (nestingColumn target), labelAt text.lines j = some label) ∧
      ∀ j ∈ openings text.lines t (nestingColumn target), labelAt text.lines j = some label →
        (DeclaredAt label text.lines j ∧ Reaches text.lines j t ↔
          ¬ StartsBlank text.lines j ∧ ¬ PassedByMarker text.lines j t) := by
  obtain ⟨column, hcolumn⟩ := Option.isSome_iff_exists.mp (isSome_contentColumn?.trans hs)
  have hnesting : nestingColumn target = column := by
    change (contentColumn? target.text).getD _ = column
    rw [hcolumn, Option.getD_some]
  rw [chain_eq_filterMap_openings htarget h0, List.mem_filterMap] at hlabel
  refine ⟨exists_blockSpanAt?_iff hbytes htarget hs, hlabel, fun j hj hlabelAt => ?_⟩
  rw [hnesting] at hj
  rw [declaredAt_iff_of_labelAt hlabelAt, reaches_iff_of_mem_openings htarget hcolumn hj]

/-- An item with a label, and one with its content further right. -/
def overhang : Text := "a:\n  - b: x\n  -    c: y".toList

theorem blockSpanAt?_of_mem_chain_iff_overhang :
    (overhang.bytes < 2 ^ 32 ∧ overhang.lines[2]? = some ⟨2, 12, "  -    c: y".toList⟩ ∧
        Line.isSignificant ⟨2, 12, "  -    c: y".toList⟩ ∧
        Line.indent? ⟨2, 12, "  -    c: y".toList⟩ ≠ some 0) ∧
      ("a" ∈ chain overhang 2 ∧ blockSpanAt? "a" 2 overhang = some ⟨0, 23⟩ ∧
        ∃ d ≤ 2, DeclaredAt "a" overhang.lines d ∧ Reaches overhang.lines d 2) ∧
      "b" ∈ chain overhang 2 ∧ blockSpanAt? "b" 2 overhang = none ∧
        ¬ ∃ d ≤ 2, DeclaredAt "b" overhang.lines d ∧ Reaches overhang.lines d 2 := by
  have hbytes : overhang.bytes < 2 ^ 32 := by cbv
  have htarget : overhang.lines[2]? = some ⟨2, 12, "  -    c: y".toList⟩ := by cbv
  have hs : Line.isSignificant ⟨2, 12, "  -    c: y".toList⟩ := by cbv
  have h0 : Line.indent? ⟨2, 12, "  -    c: y".toList⟩ ≠ some 0 := by decide +kernel
  have hlabels : "a" ∈ chain overhang 2 ∧ "b" ∈ chain overhang 2 := by decide +kernel
  have ha : blockSpanAt? "a" 2 overhang = some ⟨0, 23⟩ := by cbv
  have hb : blockSpanAt? "b" 2 overhang = none := by cbv
  obtain ⟨hreachesA, -⟩ := blockSpanAt?_of_mem_chain_iff hbytes htarget hs h0 hlabels.1
  obtain ⟨hreachesB, -⟩ := blockSpanAt?_of_mem_chain_iff hbytes htarget hs h0 hlabels.2
  refine ⟨⟨hbytes, htarget, hs, h0⟩, ⟨hlabels.1, ha, hreachesA.mp ⟨_, ha, by decide⟩⟩, hlabels.2,
    hb, fun h => ?_⟩
  obtain ⟨span, hspan, -⟩ := hreachesB.mpr h
  rw [hb] at hspan
  cases hspan

theorem not_blockSpanAt?_of_mem_chain :
    ¬ ∀ (text : Text) (t : Nat) (target : Line) (label : String), text.bytes < 2 ^ 32 →
      text.lines[t]? = some target → target.isSignificant → target.indent? ≠ some 0 →
      label ∈ chain text t →
      ∃ span, blockSpanAt? label t text = some span ∧ target.start < span.stop := by
  intro h
  obtain ⟨span, hspan, -⟩ := h overhang 2 ⟨2, 12, "  -    c: y".toList⟩ "b" (by cbv) (by cbv)
    (by cbv) (by decide +kernel) (by decide +kernel)
  have hnone : blockSpanAt? "b" 2 overhang = none := by cbv
  simp [hnone] at hspan

end ManifestAssist.Outline
