import ManifestAssist.Proofs.Outline.Items

/-! # Lines that look alike

All that the resolvers read of a line is its columns and its label, and they only pass on the
offset at which it starts. So on lines that look alike they give the same answers, and offsets that
are related as those of the lines are. Lines that do not count are passed over.
-/

namespace ManifestAssist

open Text Outline

/-- Do two lines look the same to all resolvers, and are their starts related? -/
structure Alike (R : Nat → Nat → Prop) (a b : Line) : Prop where
  start : R a.start b.start
  indent : a.indent? = b.indent?
  marker : a.marker? = b.marker?
  column : a.contentColumn? = b.contentColumn?
  label : a.label? = b.label?
  declares : ∀ label, a.declares label = b.declares label
  nesting : nestingColumn a = nestingColumn b
  own : ownLabel a = ownLabel b

variable {R : Nat → Nat → Prop} {a b : Line} {as bs : List Line} {label : String}
  {column stop stop' index : Nat}

namespace Alike

theorem of_text_eq (hstart : R a.start b.start) (htext : a.text = b.text) : Alike R a b where
  start := hstart
  indent := congrArg Outline.indent? htext
  marker := congrArg Outline.marker? htext
  column := congrArg Outline.contentColumn? htext
  label := congrArg Outline.label? htext
  declares label := congrArg (Outline.declares · label) htext
  nesting := by
    simp only [nestingColumn, Line.contentColumn?, htext]
  own := by
    simp only [ownLabel, Line.label?, htext]

theorem isSignificant (h : Alike R a b) : a.isSignificant = b.isSignificant :=
  congrArg Option.isSome h.indent

theorem labelColumn (h : Alike R a b) : a.labelColumn = b.labelColumn :=
  congrArg (Option.getD · 0) h.column

theorem exits_eq (h : Alike R a b) : exits column a = exits column b := by
  simp only [exits, h.indent, h.marker]

theorem step_eq (h : Alike R a b) (scan : ItemScan) :
    ItemScan.step label scan a = ItemScan.step label scan b := by
  simp only [ItemScan.step, h.declares, h.isSignificant, h.marker, h.labelColumn]

end Alike

/-- Are the spans of two items related by their ends? -/
def ItemRange.Related (R : Nat → Nat → Prop) (a b : ItemRange) : Prop :=
  a.index = b.index ∧ R a.span.start b.span.start ∧ R a.span.stop b.span.stop

namespace Outline

theorem forall₂_alike_of_map_text_eq (h : as.map Line.text = bs.map Line.text) :
    List.Forall₂ (Alike fun _ _ => True) as bs := by
  rw [← List.forall₂_eq_eq_eq, List.forall₂_map_left_iff, List.forall₂_map_right_iff] at h
  exact h.imp fun _ _ htext => .of_text_eq trivial htext

section Alike

variable (h : List.Forall₂ (Alike R) as bs)

include h

theorem openFrames_contents_eq :
    openFrames column (contents as) = openFrames column (contents bs) ∧
      leftmost column (contents as) = leftmost column (contents bs) := by
  induction h with
  | nil => exact ⟨rfl, rfl⟩
  | @cons a b as bs hline _ ih =>
    obtain ⟨hframes, hleft⟩ := ih
    cases hc : a.contentColumn? with
    | none =>
      rw [contents_cons_of_eq_none hc, contents_cons_of_eq_none (hline.column.symm.trans hc)]
      exact ⟨hframes, hleft⟩
    | some own =>
      rw [contents_cons_of_eq_some hc, contents_cons_of_eq_some (hline.column.symm.trans hc)]
      simp only [openFrames, leftmost_cons, hline.label, hframes, hleft, and_self]

theorem foldl_step_eq (scan : ItemScan) :
    as.foldl (ItemScan.step label) scan = bs.foldl (ItemScan.step label) scan := by
  induction h generalizing scan with
  | nil => rfl
  | cons hline _ ih => rw [List.foldl_cons, List.foldl_cons, hline.step_eq, ih]

theorem stopAmong_related (hstop : R stop stop') :
    R (stopAmong column stop as) (stopAmong column stop' bs) := by
  induction h with
  | nil => exact hstop
  | @cons a b as bs hline _ ih =>
    by_cases he : exits column a
    · rw [stopAmong_cons_of_exits he, stopAmong_cons_of_exits (hline.exits_eq ▸ he)]
      exact hline.start
    · rw [stopAmong_cons_of_not_exits he, stopAmong_cons_of_not_exits (hline.exits_eq ▸ he)]
      exact ih

theorem laterStarts_related : List.Forall₂ R (laterStarts column as) (laterStarts column bs) := by
  simp only [laterStarts, List.forall₂_map_left_iff, List.forall₂_map_right_iff]
  induction h with
  | nil => exact .nil
  | @cons a b as bs hline _ ih =>
    have hexits : exits column b = exits column a := hline.exits_eq.symm
    by_cases he : exits column a
    · simp [he, hexits]
    · by_cases hm : a.marker? = some column
      · simpa [he, hexits, hm, hline.marker ▸ hm] using ⟨hline.start, ih⟩
      · simpa [he, hexits, hm, hline.marker ▸ hm] using ih

end Alike

/-- Items whose starts are related have related spans. -/
theorem ranges_related (hmin : ∀ i j, R i j → R (min i maxOffset) (min j maxOffset))
    {starts starts' : List Nat} (h : List.Forall₂ R starts starts') (hstop : R stop stop') :
    List.Forall₂ (ItemRange.Related R) (ranges stop index starts) (ranges stop' index starts') := by
  fun_induction ranges stop index starts generalizing starts' with
  | case1 =>
    cases h
    exact .nil
  | case2 index start =>
    obtain _ | ⟨hstart, h⟩ := h
    cases h
    exact .cons ⟨rfl, hmin _ _ hstart, hmin _ _ hstop⟩ .nil
  | case3 index start next starts ih =>
    obtain _ | ⟨hstart, h⟩ := h
    have hrest := ih h
    obtain _ | ⟨hnext, h⟩ := h
    exact .cons ⟨rfl, hmin _ _ hstart, hmin _ _ hnext⟩ hrest

theorem rangesAfter_related (hmin : ∀ i j, R i j → R (min i maxOffset) (min j maxOffset))
    (h : List.Forall₂ (Alike R) as bs) (hstop : R stop stop') :
    List.Forall₂ (ItemRange.Related R) (rangesAfter column stop as)
      (rangesAfter column stop' bs) := by
  induction h with
  | nil => exact .nil
  | @cons a b as bs hline h ih =>
    rw [rangesAfter, rangesAfter, ← hline.isSignificant, ← hline.marker]
    split
    · split
      · rename_i marker _
        split
        · simp only [itemStarts_eq]
          exact ranges_related hmin (.cons hline.start (laterStarts_related h))
            (stopAmong_related h hstop)
        · exact .nil
      · exact .nil
    · exact ih

/-- The items of the first block of a label among some lines. -/
def rangesBehind (label : String) (stop : Nat) : List Line → List ItemRange
  | [] => []
  | line :: lines =>
    if line.declares label then rangesAfter line.labelColumn stop lines
    else rangesBehind label stop lines

theorem rangesBehind_append {before : List Line} (h : ∀ line ∈ before, ¬ line.declares label)
    (lines : List Line) :
    rangesBehind label stop (before ++ lines) = rangesBehind label stop lines := by
  induction before with
  | nil => rfl
  | cons line before ih =>
    obtain ⟨hline, h⟩ := List.forall_mem_cons.mp h
    rw [List.cons_append, rangesBehind, if_neg hline, ih h]

theorem itemRanges_eq_rangesBehind (label : String) (text : Text) :
    itemRanges label text = rangesBehind label text.bytes text.lines := by
  unfold itemRanges
  cases hfind : text.lines.find? (·.declares label) with
  | none =>
    have hnone : ∀ line ∈ text.lines, ¬ line.declares label := by simpa using hfind
    have hbehind : rangesBehind label text.bytes (text.lines ++ []) = [] :=
      rangesBehind_append hnone []
    rw [List.append_nil] at hbehind
    exact hbehind.symm
  | some opening =>
    obtain ⟨hdeclares, before, after, hlines, hnot⟩ := List.find?_eq_some_iff_append.mp hfind
    have hopening : text.lines[before.length]? = some opening := by simp [hlines]
    have hafter : text.lines.drop (opening.number + 1) = after := by
      rw [number_of_getElem? hopening, hlines]
      simp
    rw [hlines, rangesBehind_append (fun line hline => by simpa using hnot line hline),
      rangesBehind, if_pos hdeclares]
    simp only [rangesOf, hafter]

theorem rangesBehind_related (hmin : ∀ i j, R i j → R (min i maxOffset) (min j maxOffset))
    (h : List.Forall₂ (Alike R) as bs) (hstop : R stop stop') :
    List.Forall₂ (ItemRange.Related R) (rangesBehind label stop as)
      (rangesBehind label stop' bs) := by
  induction h with
  | nil => exact .nil
  | @cons a b as bs hline h ih =>
    rw [rangesBehind, rangesBehind, ← hline.declares, ← hline.labelColumn]
    split
    · exact rangesAfter_related hmin h hstop
    · exact ih

section Chain

variable {s t : Nat} {text text' : Text}

theorem chain_eq_of_alike (ha : text.lines[s]? = some a) (hb : text'.lines[t]? = some b)
    (h : Alike R a b)
    (hframes : openFrames (nestingColumn a) (contents (text.lines.take s)) =
      openFrames (nestingColumn a) (contents (text'.lines.take t))) :
    chain text s = chain text' t := by
  by_cases hindent : a.indent? = some 0
  · rw [chain_eq_ownLabel ha hindent, chain_eq_ownLabel hb (h.indent ▸ hindent), h.own]
  · rw [chain_eq_map_openFrames ha hindent, chain_eq_map_openFrames hb (h.indent ▸ hindent),
      ← h.nesting, hframes]

end Chain

end Outline

end ManifestAssist
