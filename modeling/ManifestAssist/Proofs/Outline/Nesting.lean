import ManifestAssist.Outline.Chain
import ManifestAssist.Proofs.Outline.Column

/-! # Nesting by columns

The columns of the frames on the stack increase from the outermost to the innermost, so closing
frames at a column keeps just those left of it. A frame is therefore open at a line if and only if
its column is left of all that counts in between. Whether the next line is deeper adds nothing.
-/

namespace ManifestAssist

open Text Outline

variable {column own next : Nat} {line : Line} {frames : List Frame}

namespace Outline

/-- The leftmost of a column and the contents of some lines. -/
def leftmost (column : Nat) (contents : List (Line × Nat)) : Nat :=
  contents.foldr (fun content n => min content.2 n) column

/-- The frames of the lines with a label whose content is left of all contents behind it and of a
column. -/
def openFrames (column : Nat) : List (Line × Nat) → List Frame
  | [] => []
  | (line, own) :: rest =>
    match line.label? with
    | some label =>
      if own < leftmost column rest then ⟨own, label⟩ :: openFrames column rest
      else openFrames column rest
    | none => openFrames column rest

@[simp] theorem leftmost_nil : leftmost column [] = column := rfl

@[simp] theorem leftmost_cons (content : Line × Nat) (rest : List (Line × Nat)) :
    leftmost column (content :: rest) = min content.2 (leftmost column rest) := rfl

theorem leftmost_append (a b : List (Line × Nat)) :
    leftmost column (a ++ b) = leftmost (leftmost column b) a := by
  simp [leftmost, List.foldr_append]

theorem openFrames_append (a b : List (Line × Nat)) :
    openFrames column (a ++ b) = openFrames (leftmost column b) a ++ openFrames column b := by
  induction a with
  | nil => rfl
  | cons content a ih =>
    obtain ⟨line, own⟩ := content
    simp only [List.cons_append, openFrames, leftmost_append, ih]
    cases line.label? with
    | none => rfl
    | some label => by_cases h : own < leftmost (leftmost column b) a <;> simp [h]

theorem lt_leftmost_iff {n : Nat} {contents : List (Line × Nat)} :
    n < leftmost column contents ↔ n < column ∧ ∀ content ∈ contents, n < content.2 := by
  induction contents with
  | nil => simp
  | cons content rest ih =>
    simp only [leftmost_cons, List.forall_mem_cons, Nat.lt_min, ih]
    tauto

end Outline

namespace Frame

/-- Frames, innermost first, whose columns decrease. -/
def Nested (frames : List Frame) : Prop :=
  frames.Pairwise fun inner outer => outer.column < inner.column

theorem close_eq_filter (h : Nested frames) :
    close column frames = frames.filter (·.column < column) := by
  induction frames with
  | nil => rfl
  | cons frame frames ih =>
    obtain ⟨hlt, h⟩ := List.pairwise_cons.mp h
    by_cases hc : column ≤ frame.column
    · rw [List.filter_cons_of_neg (by simpa using hc), ← ih h]
      simp [close, hc]
    · rw [List.filter_eq_self.mpr]
      · simp [close, hc]
      · intro f hf
        rcases List.mem_cons.mp hf with rfl | hf
        · simpa using hc
        · have := hlt f hf
          simp only [decide_eq_true_eq]
          omega

theorem Nested.close (h : Nested frames) : Nested (close column frames) :=
  h.sublist (List.dropWhile_sublist _)

theorem Nested.open? (h : Nested frames) :
    Nested (open? line own next (Frame.close own frames)) := by
  unfold Frame.open?
  split
  · split
    · refine .cons (fun frame hf => ?_) h.close
      rw [close_eq_filter h] at hf
      simpa using (List.mem_filter.mp hf).2
    · exact h.close
  · exact h.close

/-- The frames that are open at `target`, where a line opens a frame if its content is left of what
`next` says of it and the lines behind. -/
def runWith (next : Nat → List (Line × Nat) → Nat) (target : Nat) :
    List Frame → List (Line × Nat) → List Frame
  | frames, [] => close target frames
  | frames, (line, own) :: rest =>
    runWith next target (open? line own (next own rest) (close own frames)) rest

/-- The column of the next line that counts, or that of the target. -/
def nextColumn (target : Nat) (rest : List (Line × Nat)) : Nat :=
  (rest.head?.map Prod.snd).getD target

theorem run_eq_runWith (target : Nat) (contents : List (Line × Nat)) (frames : List Frame) :
    run target frames contents = runWith (fun _ => nextColumn target) target frames contents := by
  fun_induction run target frames contents with
  | case1 => rfl
  | case2 => rfl
  | case3 _ _ _ _ _ _ ih => rw [ih, runWith]; rfl

theorem leftmost_le_nextColumn (target : Nat) (rest : List (Line × Nat)) :
    leftmost target rest ≤ nextColumn target rest := by
  cases rest with
  | nil => exact Nat.le_refl _
  | cons content rest => exact Nat.min_le_left ..

theorem runWith_eq {next : Nat → List (Line × Nat) → Nat} {target : Nat}
    (hnext : ∀ own rest, own < leftmost target rest → own < next own rest)
    (contents : List (Line × Nat)) (h : Nested frames) :
    runWith next target frames contents =
      (openFrames target contents).reverse ++
        frames.filter (·.column < leftmost target contents) := by
  induction contents generalizing frames with
  | nil =>
    rw [runWith, close_eq_filter h]
    rfl
  | cons content rest ih =>
    obtain ⟨line, own⟩ := content
    -- A frame outlasts this line and the rest if it is left of both.
    have hkeep : (close own frames).filter (·.column < leftmost target rest) =
        frames.filter (·.column < min own (leftmost target rest)) := by
      rw [close_eq_filter h, List.filter_filter]
      congr 1
      ext frame
      simp [Bool.and_comm]
    rw [runWith, ih h.open?, leftmost_cons, ← hkeep]
    simp only [open?, openFrames]
    cases line.label? with
    | none => rfl
    | some label =>
      by_cases hopen : own < leftmost target rest
      · simp [hopen, hnext own rest hopen]
      · by_cases hn : own < next own rest <;> simp [hopen, hn]

end Frame

namespace Outline

/-- The label of a line, given by its number. -/
def labelAt (lines : List Line) (j : Nat) : Option String :=
  lines[j]?.bind Line.label?

/-- The column of the content of a line, given by its number. -/
def columnAt (lines : List Line) (j : Nat) : Option Nat :=
  lines[j]?.bind Line.contentColumn?

/-- Does line `j` have a label, with its content left of `column` and of the content of each line
that counts between it and line `t`? -/
def OpenAt (lines : List Line) (t column j : Nat) : Prop :=
  (labelAt lines j).isSome ∧ ∃ own ∈ columnAt lines j, own < column ∧
    ∀ k < t, j < k → ∀ c ∈ columnAt lines k, own < c

instance (lines : List Line) (t column : Nat) : DecidablePred (OpenAt lines t column) :=
  fun j => inferInstanceAs (Decidable ((labelAt lines j).isSome ∧ ∃ own ∈ columnAt lines j,
    own < column ∧ ∀ k < t, j < k → ∀ c ∈ columnAt lines k, own < c))

/-- The lines that open the blocks around line `t`, if it is nested at `column`. -/
def openings (lines : List Line) (t column : Nat) : List Nat :=
  (List.range t).filter (OpenAt lines t column)

variable {lines : List Line} {t j : Nat}

theorem mem_openings : j ∈ openings lines t column ↔ j < t ∧ OpenAt lines t column j := by
  simp [openings]

theorem mem_contents {c : Nat} :
    (line, c) ∈ contents lines ↔ line ∈ lines ∧ line.contentColumn? = some c := by
  simp only [contents, List.mem_filterMap, Option.map_eq_some_iff, Prod.mk.injEq]
  constructor
  · rintro ⟨line, hline, c, hc, rfl, rfl⟩
    exact ⟨hline, hc⟩
  · rintro ⟨hline, hc⟩
    exact ⟨line, hline, c, hc, rfl, rfl⟩

theorem contents_cons_of_eq_none (h : line.contentColumn? = none) :
    contents (line :: lines) = contents lines := by
  simp [contents, h]

theorem contents_cons_of_eq_some (h : line.contentColumn? = some own) :
    contents (line :: lines) = (line, own) :: contents lines := by
  simp [contents, h]

theorem lt_leftmost_contents_iff :
    own < leftmost column (contents lines) ↔
      own < column ∧ ∀ k < lines.length, ∀ c ∈ columnAt lines k, own < c := by
  rw [lt_leftmost_iff, and_congr_right_iff]
  intro _
  constructor
  · intro h k _ c hc
    obtain ⟨line, hline, hc⟩ := Option.bind_eq_some_iff.mp hc
    exact h (line, c) (mem_contents.mpr ⟨List.mem_of_getElem? hline, hc⟩)
  · rintro h ⟨line, c⟩ hmem
    obtain ⟨hline, hc⟩ := mem_contents.mp hmem
    obtain ⟨k, hk⟩ := List.getElem?_of_mem hline
    obtain ⟨hlt, -⟩ := List.getElem?_eq_some_iff.mp hk
    exact h k hlt c (Option.bind_eq_some_iff.mpr ⟨line, hk, hc⟩)

theorem openAt_zero_iff :
    OpenAt (line :: lines) (lines.length + 1) column 0 ↔
      line.label?.isSome ∧ ∃ own ∈ line.contentColumn?,
        own < leftmost column (contents lines) := by
  simp only [OpenAt, lt_leftmost_contents_iff]
  refine and_congr_right fun _ => exists_congr fun own => and_congr_right fun _ =>
    and_congr_right fun _ => ?_
  constructor
  · intro h k hk
    exact h (k + 1) (by omega) (by omega)
  · intro h k hk hpos
    cases k with
    | zero => omega
    | succ k => exact h k (by omega)

theorem openAt_succ_iff :
    OpenAt (line :: lines) (t + 1) column (j + 1) ↔ OpenAt lines t column j := by
  refine and_congr_right fun _ => exists_congr fun own => and_congr_right fun _ =>
    and_congr_right fun _ => ?_
  constructor
  · intro h k hk hj
    exact h (k + 1) (by omega) (by omega)
  · intro h k hk hj
    cases k with
    | zero => omega
    | succ k => exact h k (by omega) (by omega)

theorem map_label_openFrames (column : Nat) (lines : List Line) :
    (openFrames column (contents lines)).map Frame.label =
      (openings lines lines.length column).filterMap (labelAt lines) := by
  -- A line in front moves the numbers of all others by one, and opens a frame ahead of theirs.
  induction lines with
  | nil => rfl
  | cons line lines ih =>
    have hrest : ((List.range lines.length).map (· + 1)).filter
        (OpenAt (line :: lines) (lines.length + 1) column) =
          (openings lines lines.length column).map (· + 1) := by
      rw [openings, List.filter_map]
      congr 1
      exact List.filter_congr fun j _ => by simp [openAt_succ_iff]
    have hlabels : ((openings lines lines.length column).map (· + 1)).filterMap
        (labelAt (line :: lines)) = (openFrames column (contents lines)).map Frame.label := by
      rw [ih, List.filterMap_map]
      rfl
    rw [openings, List.length_cons, List.range_succ_eq_map, List.filter_cons, hrest]
    simp only [openAt_zero_iff]
    cases hc : line.contentColumn? with
    | none => simpa [contents_cons_of_eq_none hc] using hlabels.symm
    | some own =>
      rw [contents_cons_of_eq_some hc]
      cases hl : line.label? with
      | none => simpa [openFrames, hl] using hlabels.symm
      | some label =>
        by_cases h : own < leftmost column (contents lines)
        · simpa [openFrames, hl, h, labelAt] using hlabels.symm
        · simpa [openFrames, hl, h] using hlabels.symm

theorem columnAt_take (h : j < t) : columnAt (lines.take t) j = columnAt lines j := by
  rw [columnAt, List.getElem?_take_of_lt h, columnAt]

theorem labelAt_take (h : j < t) : labelAt (lines.take t) j = labelAt lines j := by
  rw [labelAt, List.getElem?_take_of_lt h, labelAt]

theorem openAt_take_iff (h : j < t) :
    OpenAt (lines.take t) t column j ↔ OpenAt lines t column j := by
  rw [OpenAt, OpenAt, labelAt_take h, columnAt_take h]
  refine and_congr_right fun _ => exists_congr fun own => and_congr_right fun _ =>
    and_congr_right fun _ => forall_congr' fun k => forall_congr' fun hk => ?_
  rw [columnAt_take hk]

variable {text : Text}

theorem chain_eq_ownLabel (hline : text.lines[t]? = some line) (h : line.indent? = some 0) :
    chain text t = [ownLabel line] := by
  simp [chain, hline, h]

/-- Behind the left margin, the chain holds the labels of the frames that stay open. -/
theorem chain_eq_map_openFrames (hline : text.lines[t]? = some line)
    (h : line.indent? ≠ some 0) :
    chain text t =
      (openFrames (nestingColumn line) (contents (text.lines.take t))).map Frame.label := by
  simp only [chain, hline, h, ↓reduceIte]
  rw [Frame.run_eq_runWith, Frame.runWith_eq _ _ .nil]
  · simp
  · intro own rest hlt
    exact Nat.lt_of_lt_of_le hlt (Frame.leftmost_le_nextColumn ..)

theorem chain_eq_filterMap_openings (hline : text.lines[t]? = some line)
    (h : line.indent? ≠ some 0) :
    chain text t =
      (openings text.lines t (nestingColumn line)).filterMap (labelAt text.lines) := by
  obtain ⟨hlt, -⟩ := List.getElem?_eq_some_iff.mp hline
  have hlength : (text.lines.take t).length = t := by simp; omega
  have hopenings : openings (text.lines.take t) t (nestingColumn line) =
      openings text.lines t (nestingColumn line) :=
    List.filter_congr fun j hj => by simp [openAt_take_iff (List.mem_range.mp hj)]
  rw [chain_eq_map_openFrames hline h, map_label_openFrames, hlength, hopenings]
  exact List.filterMap_congr fun j hj => labelAt_take (mem_openings.mp hj).1

theorem pairwise_columnAt_openings (lines : List Line) (t column : Nat) :
    ((openings lines t column).filterMap (columnAt lines)).Pairwise (· < ·) := by
  have hordered : (openings lines t column).Pairwise (· < ·) :=
    List.pairwise_lt_range.filter _
  refine List.pairwise_filterMap.mpr (hordered.imp_of_mem ?_)
  intro i j hi hj hlt c hc c' hc'
  obtain ⟨-, -, own, hown, -, hbetween⟩ := mem_openings.mp hi
  obtain rfl : own = c := Option.some.inj (hown.symm.trans hc)
  exact hbetween j (mem_openings.mp hj).1 hlt c' hc'

/-- The chain of a line, read off the columns. Past the end it is empty, and at the left margin it
is the label of the line itself. Elsewhere it consists of the labels of the lines that are open
there, whose columns increase, and it is the same if each line with a label opens a frame. -/
theorem chain_eq_labels_of_open_lines (text : Text) (t : Nat) :
    (text.lines[t]? = none → chain text t = []) ∧
      ∀ line, text.lines[t]? = some line →
        (line.indent? = some 0 →
          chain text t =
            [line.label?.getD (String.ofList (trimEnd (content line.text)))]) ∧
        (line.indent? ≠ some 0 →
          let column := line.contentColumn?.getD (leadingSpaces line.text)
          chain text t = (openings text.lines t column).filterMap (labelAt text.lines) ∧
          ((openings text.lines t column).filterMap (columnAt text.lines)).Pairwise (· < ·) ∧
          chain text t =
            (Frame.runWith (fun own _ => own + 1) column []
              (contents (text.lines.take t))).reverse.map Frame.label) := by
  refine ⟨fun h => ?_, fun line hline => ⟨fun h => ?_, fun h => ⟨?_, ?_, ?_⟩⟩⟩
  · simp [chain, h]
  · exact chain_eq_ownLabel hline h
  · exact chain_eq_filterMap_openings hline h
  · exact pairwise_columnAt_openings ..
  · rw [chain_eq_map_openFrames hline h, Frame.runWith_eq (fun _ _ _ => Nat.lt_succ_self _) _ .nil]
    simp [nestingColumn]

end Outline

end ManifestAssist
