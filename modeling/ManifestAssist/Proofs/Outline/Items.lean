import ManifestAssist.Outline.Item
import ManifestAssist.Proofs.Outline.Region

/-! # The two scans for items

Without another declaration, the scan that counts items reaches the number of markers at the column
of the first one, and the scan for spans finds the starts of the same lines up to the end of the
block. So the span of an item holds the start of a line ahead of that end if and only if the line is
counted to the item.
-/

namespace ManifestAssist

open Text Outline

variable {label : String} {column stop marker last offset : Nat} {line first target : Line}
  {lines rest : List Line}

namespace Outline

/-- The first item behind a label at a column, with the column of its marker and the lines behind
it: the first line that counts, if it is a list item at or right of the label. -/
def firstItem? (column : Nat) : List Line → Option (Nat × Line × List Line)
  | [] => none
  | line :: lines =>
    if line.isSignificant then
      match line.marker? with
      | some marker => if column ≤ marker then some (marker, line, lines) else none
      | none => none
    else
      firstItem? column lines

theorem isSignificant_of_marker? (h : line.marker? = some marker) : line.isSignificant := by
  have hi : line.indent? = some marker := (marker?_eq_some_iff.mp h).1
  change line.indent?.isSome
  simp [hi]

theorem firstItem?_eq_some (h : firstItem? column lines = some (marker, first, rest)) :
    first.marker? = some marker ∧ column ≤ marker ∧ (first :: rest).Sublist lines := by
  induction lines with
  | nil => simp [firstItem?] at h
  | cons line lines ih =>
    unfold firstItem? at h
    split at h
    · split at h
      · split at h
        · simp only [Option.some.injEq, Prod.mk.injEq] at h
          obtain ⟨rfl, rfl, rfl⟩ := h
          exact ⟨‹_›, ‹_›, .refl _⟩
        · simp at h
      · simp at h
    · obtain ⟨hm, hle, hsub⟩ := ih h
      exact ⟨hm, hle, hsub.cons _⟩

theorem firstItem?_append_of_eq_some (h : firstItem? column lines = some (marker, first, rest))
    (tail : List Line) :
    firstItem? column (lines ++ tail) = some (marker, first, rest ++ tail) := by
  induction lines with
  | nil => simp [firstItem?] at h
  | cons line lines ih =>
    unfold firstItem? at h
    rw [List.cons_append, firstItem?]
    split at h
    · rw [if_pos ‹_›]
      cases hm : line.marker? with
      | none => simp [hm] at h
      | some marker' =>
        by_cases hle : column ≤ marker' <;> simp_all
    · rw [if_neg ‹_›, ih h]

theorem firstItem?_of_append {tail : List Line} (h : firstItem? column lines = none)
    (happend : firstItem? column (lines ++ tail) = some (marker, first, rest)) :
    firstItem? column tail = some (marker, first, rest) := by
  induction lines with
  | nil => exact happend
  | cons line lines ih =>
    unfold firstItem? at h
    rw [List.cons_append, firstItem?] at happend
    split at h
    · cases hm : line.marker? with
      | none => simp_all
      | some marker' => by_cases hle : column ≤ marker' <;> simp_all
    · rw [if_neg ‹_›] at happend
      exact ih h happend

end Outline

namespace ItemScan

theorem foldl_step_of_fixed {scan : ItemScan} (h : ∀ line ∈ lines, step label scan line = scan) :
    lines.foldl (step label) scan = scan := by
  induction lines with
  | nil => rfl
  | cons line lines ih =>
    obtain ⟨hline, h⟩ := List.forall_mem_cons.mp h
    rw [List.foldl_cons, hline, ih h]

theorem step_noItems (hd : ¬ line.declares label) : step label noItems line = noItems := by
  unfold step
  split <;> simp_all

theorem foldl_step_items (hd : ∀ line ∈ lines, ¬ line.declares label) :
    lines.foldl (step label) (items column last) =
      items column (last + lines.countP (·.marker? = some column)) := by
  induction lines generalizing last with
  | nil => rfl
  | cons line lines ih =>
    obtain ⟨hdl, hd⟩ := List.forall_mem_cons.mp hd
    by_cases hm : line.marker? = some column
    · have hstep : step label (items column last) line = items column (last + 1) := by
        simp [step, hdl, isSignificant_of_marker? hm, hm]
      rw [List.foldl_cons, hstep, ih hd, List.countP_cons_of_pos (by simpa using hm)]
      congr 1
      omega
    · have hstep : step label (items column last) line = items column last := by
        unfold step
        split <;> simp_all
      rw [List.foldl_cons, hstep, ih hd, List.countP_cons_of_neg (by simpa using hm)]

theorem index_foldl_step_declared (hd : ∀ line ∈ lines, ¬ line.declares label) :
    (lines.foldl (step label) (declared column)).index =
      match firstItem? column lines with
      | some (marker, _, rest) => .item (rest.countP (·.marker? = some marker))
      | none => .beforeItems := by
  -- The first line that counts decides: behind it the scan has items, or none for good.
  induction lines with
  | nil => rfl
  | cons line lines ih =>
    obtain ⟨hdl, hd⟩ := List.forall_mem_cons.mp hd
    have hnone : lines.foldl (step label) noItems = noItems :=
      foldl_step_of_fixed fun line hline => step_noItems (hd line hline)
    rw [List.foldl_cons, firstItem?]
    by_cases hs : line.isSignificant
    · rw [if_pos hs]
      cases hm : line.marker? with
      | none => simp [step, hdl, hs, hm, hnone, index]
      | some marker =>
        by_cases hle : column ≤ marker
        · simp [step, hdl, hs, hm, hle, foldl_step_items hd, index]
        · simp [step, hdl, hs, hm, hle, hnone, index]
    · rw [if_neg hs, ← ih hd]
      simp [step, hdl, hs]

end ItemScan

namespace Outline

/-- The starts of the items behind the first one, up to the end of the items. -/
def laterStarts (marker : Nat) (lines : List Line) : List Nat :=
  ((lines.takeWhile (! exits marker ·)).filter (·.marker? = some marker)).map Line.start

theorem itemStarts_eq (column stop : Nat) (lines : List Line) :
    itemStarts column stop lines = (laterStarts column lines, stopAmong column stop lines) := by
  induction lines with
  | nil => rfl
  | cons line lines ih =>
    unfold itemStarts
    split
    · rename_i hi
      have he : exits column line = false := by simp [exits, hi]
      have hm : line.marker? = none := marker?_eq_none_iff.mpr (.inl hi)
      rw [stopAmong_cons_of_not_exits (by simp [he]), ih]
      simp [laterStarts, he, hm]
    · rename_i indent hi
      by_cases he : exits column line
      · have hend : indent < column ∨ (indent = column ∧ line.marker? = none) := by
          simpa [exits, hi] using he
        rw [if_pos hend, stopAmong_cons_of_exits he]
        simp [laterStarts, he]
      · have hend : ¬ (indent < column ∨ (indent = column ∧ line.marker? = none)) := by
          simpa [exits, hi] using he
        rw [if_neg hend, stopAmong_cons_of_not_exits he, ih]
        by_cases hm : line.marker? = some column <;> simp [laterStarts, he, hm]

theorem rangesAfter_eq (column stop : Nat) (lines : List Line) :
    rangesAfter column stop lines =
      match firstItem? column lines with
      | some (marker, first, rest) =>
        ranges (stopAmong marker stop rest) 0 (first.start :: laterStarts marker rest)
      | none => [] := by
  induction lines with
  | nil => rfl
  | cons line lines ih =>
    rw [rangesAfter, firstItem?]
    split
    · cases hm : line.marker? with
      | none => rfl
      | some marker => by_cases hle : column ≤ marker <;> simp [hle, itemStarts_eq]
    · exact ih

theorem getElem?_ranges (stop index : Nat) (starts : List Nat) (k : Nat) :
    (ranges stop index starts)[k]? =
      starts[k]?.map fun start => ⟨index + k, .between start (starts[k + 1]?.getD stop)⟩ := by
  fun_induction ranges stop index starts generalizing k with
  | case1 => simp
  | case2 index start => cases k <;> simp
  | case3 index start next starts ih =>
    cases k with
    | zero => simp
    | succ k =>
      rw [List.getElem?_cons_succ, ih, List.getElem?_cons_succ]
      simp only [List.getElem?_cons_succ, Nat.add_assoc, Nat.add_comm 1 k]

@[simp] theorem length_ranges (stop index : Nat) (starts : List Nat) :
    (ranges stop index starts).length = starts.length := by
  fun_induction ranges stop index starts <;> simp_all

theorem getLast?_ranges (stop index : Nat) {starts : List Nat} (h : starts ≠ []) :
    ∃ r, (ranges stop index starts).getLast? = some r ∧ r.span.stop = min stop maxOffset := by
  have hpos := List.length_pos_iff.mpr h
  have hlast : starts[starts.length - 1]? = some starts[starts.length - 1] :=
    List.getElem?_eq_getElem (by omega)
  have hnone : starts[starts.length - 1 + 1]? = none := List.getElem?_eq_none (by omega)
  rw [List.getLast?_eq_getElem?, getElem?_ranges, length_ranges, hlast, hnone]
  exact ⟨_, rfl, rfl⟩

theorem contains_ranges_iff {starts : List Nat} (hsorted : starts.Pairwise (· < ·))
    (hle : ∀ start ∈ starts, start ≤ stop) (hstop : stop ≤ maxOffset) (k : Nat) :
    (∃ r, (ranges stop 0 starts)[k]? = some r ∧ r.span.contains offset) ↔
      starts.countP (· ≤ offset) = k + 1 ∧ offset < stop := by
  have hcount := List.countP_le_length (p := (· ≤ offset)) (l := starts)
  rw [getElem?_ranges]
  cases hk : starts[k]? with
  | none =>
    have := List.getElem?_eq_none_iff.mp hk
    simp
    omega
  | some start =>
    have hstart := getElem?_le_iff hsorted offset hk
    have hstartle := hle start (List.mem_of_getElem? hk)
    have hcontains (next : Nat) (hnext : next ≤ stop) :
        (Span.between start next).contains offset ↔ start ≤ offset ∧ offset < next := by
      simp only [Span.between, Span.contains, Nat.min_eq_left (Nat.le_trans hstartle hstop),
        Nat.min_eq_left (Nat.le_trans hnext hstop), Bool.and_eq_true, decide_eq_true_eq]
    simp only [Option.map_some, Option.some.injEq, exists_eq_left']
    cases hk' : starts[k + 1]? with
    | none =>
      have := List.getElem?_eq_none_iff.mp hk'
      rw [Option.getD_none, hcontains stop (Nat.le_refl _)]
      omega
    | some next =>
      have hnext := getElem?_le_iff hsorted offset hk'
      have hnextle := hle next (List.mem_of_getElem? hk')
      rw [Option.getD_some, hcontains next hnextle]
      omega

theorem countP_laterStarts (hsorted : rest.Pairwise fun a b => a.start < b.start)
    (hlt : offset < stopAmong marker stop rest) :
    (laterStarts marker rest).countP (· ≤ offset) =
      rest.countP fun line => line.marker? = some marker ∧ line.start ≤ offset := by
  induction rest with
  | nil => rfl
  | cons line rest ih =>
    obtain ⟨hline, hsorted⟩ := List.pairwise_cons.mp hsorted
    by_cases he : exits marker line
    · -- The items end here, so the offset is ahead of this line and all others.
      rw [stopAmong_cons_of_exits he] at hlt
      have hzero : (line :: rest).countP (fun line =>
          line.marker? = some marker ∧ line.start ≤ offset) = 0 := by
        refine List.countP_eq_zero.mpr fun later hlater => ?_
        have hle : line.start ≤ later.start := by
          rcases List.mem_cons.mp hlater with rfl | hlater
          · exact Nat.le_refl _
          · exact Nat.le_of_lt (hline later hlater)
        simp only [decide_eq_true_eq, not_and]
        omega
      rw [hzero]
      simp [laterStarts, he]
    · rw [stopAmong_cons_of_not_exits he] at hlt
      have ih := ih hsorted hlt
      unfold laterStarts at ih ⊢
      by_cases hm : line.marker? = some marker <;> simp [he, hm, List.countP_cons, ih]

theorem le_stopAmong_of_mem_laterStarts (hsorted : rest.Pairwise fun a b => a.start < b.start)
    (hstop : ∀ line ∈ rest, line.start ≤ stop) {start : Nat} (h : start ∈ laterStarts marker rest) :
    start ≤ stopAmong marker stop rest := by
  induction rest with
  | nil => simp [laterStarts] at h
  | cons line rest ih =>
    obtain ⟨hline, hsorted⟩ := List.pairwise_cons.mp hsorted
    obtain ⟨hle, hstop⟩ := List.forall_mem_cons.mp hstop
    by_cases he : exits marker line
    · simp [laterStarts, he] at h
    · rw [stopAmong_cons_of_not_exits he]
      have hcases : start = line.start ∨ start ∈ laterStarts marker rest := by
        by_cases hm : line.marker? = some marker <;> simp [laterStarts, he, hm] at h ⊢ <;> tauto
      rcases hcases with rfl | h
      · exact le_stopAmong hle fun later hlater => Nat.le_of_lt (hline later hlater)
      · exact ih hsorted hstop h

theorem lt_of_mem_laterStarts (h : ∀ line ∈ rest, offset < line.start) {start : Nat}
    (hs : start ∈ laterStarts marker rest) : offset < start := by
  obtain ⟨line, hline, rfl⟩ := List.mem_map.mp hs
  exact h line ((List.takeWhile_sublist _).subset (List.mem_of_mem_filter hline))

theorem pairwise_starts (hsorted : (first :: rest).Pairwise fun a b => a.start < b.start) :
    (first.start :: laterStarts marker rest).Pairwise (· < ·) := by
  obtain ⟨hlater, hsorted⟩ := List.pairwise_cons.mp hsorted
  refine .cons (fun _ => lt_of_mem_laterStarts hlater) (List.pairwise_map.mpr (hsorted.sublist ?_))
  exact List.filter_sublist.trans (List.takeWhile_sublist _)

theorem starts_le_stopAmong (hsorted : (first :: rest).Pairwise fun a b => a.start < b.start)
    (hstop : ∀ line ∈ first :: rest, line.start ≤ stop) :
    ∀ start ∈ first.start :: laterStarts marker rest, start ≤ stopAmong marker stop rest := by
  obtain ⟨hlater, hsorted⟩ := List.pairwise_cons.mp hsorted
  obtain ⟨hfirst, hstop⟩ := List.forall_mem_cons.mp hstop
  refine List.forall_mem_cons.mpr ⟨?_, fun _ => le_stopAmong_of_mem_laterStarts hsorted hstop⟩
  exact le_stopAmong hfirst fun line hline => Nat.le_of_lt (hlater line hline)

/-- The spans of the items behind a label, in terms of the first item. -/
theorem contains_rangesAfter_iff (hsorted : lines.Pairwise fun a b => a.start < b.start)
    (hstop : ∀ line ∈ lines, line.start ≤ stop) (hmax : stop ≤ maxOffset)
    (h : firstItem? column lines = some (marker, first, rest)) (k : Nat) :
    (∃ r, (rangesAfter column stop lines)[k]? = some r ∧ r.span.contains offset) ↔
      first.start ≤ offset ∧ offset < stopAmong marker stop rest ∧
        (rest.countP fun line => line.marker? = some marker ∧ line.start ≤ offset) = k := by
  obtain ⟨-, -, hsub⟩ := firstItem?_eq_some h
  have hsorted := hsorted.sublist hsub
  have hstop : ∀ line ∈ first :: rest, line.start ≤ stop := fun line hline =>
    hstop line (hsub.subset hline)
  have hstarts : (first.start :: laterStarts marker rest).Pairwise (· < ·) :=
    pairwise_starts hsorted
  have hle : ∀ start ∈ first.start :: laterStarts marker rest,
      start ≤ stopAmong marker stop rest := starts_le_stopAmong hsorted hstop
  obtain ⟨hlater, hsorted⟩ := List.pairwise_cons.mp hsorted
  obtain ⟨-, hstop⟩ := List.forall_mem_cons.mp hstop
  simp only [rangesAfter_eq, h]
  rw [contains_ranges_iff hstarts hle (Nat.le_trans (stopAmong_le hstop) hmax), and_comm,
    and_left_comm, and_congr_right_iff]
  intro hlt
  have hcount := countP_laterStarts hsorted hlt
  by_cases hf : first.start ≤ offset
  · rw [List.countP_cons_of_pos (by simpa using hf)]
    omega
  · have hzero : (laterStarts marker rest).countP (· ≤ offset) = 0 := by
      refine List.countP_eq_zero.mpr fun start hs => ?_
      have := lt_of_mem_laterStarts hlater hs
      simp only [decide_eq_true_eq]
      omega
    rw [List.countP_cons_of_neg (by simpa using hf)]
    omega

theorem getLast?_rangesAfter (hstop : ∀ line ∈ lines, line.start ≤ stop) (hmax : stop ≤ maxOffset)
    (h : firstItem? column lines = some (marker, first, rest)) :
    ∃ r, (rangesAfter column stop lines).getLast? = some r ∧
      r.span.stop = stopAmong marker stop rest := by
  obtain ⟨-, -, hsub⟩ := firstItem?_eq_some h
  obtain ⟨r, hr, hspan⟩ := getLast?_ranges (stopAmong marker stop rest) 0
    (List.cons_ne_nil first.start (laterStarts marker rest))
  have hle : stopAmong marker stop rest ≤ stop :=
    stopAmong_le fun line hline => hstop line (hsub.subset (List.mem_cons_of_mem _ hline))
  refine ⟨r, by simpa only [rangesAfter_eq, h] using hr, ?_⟩
  omega

variable {text : Text} {opening : Line} {t : Nat}

theorem exists_last_declaration
    (h : (lines.take (t + 1)).reverse.find? (·.declares label) = some opening) :
    ∃ before between, lines.take (t + 1) = before ++ opening :: between ∧
      opening.declares label ∧ ∀ line ∈ between, ¬ line.declares label := by
  obtain ⟨hd, after, before, heq, hnot⟩ := List.find?_eq_some_iff_append.mp h
  refine ⟨before.reverse, after.reverse, ?_, hd, fun line hline => ?_⟩
  · simpa using congrArg List.reverse heq
  · simpa using hnot line (List.mem_reverse.mp hline)

theorem itemIndex_of_last_declaration {before between : List Line}
    (htake : text.lines.take (t + 1) = before ++ opening :: between)
    (hd : opening.declares label) (hnot : ∀ line ∈ between, ¬ line.declares label) :
    itemIndex label t text =
      match firstItem? opening.labelColumn between with
      | some (marker, _, rest) => .item (rest.countP (·.marker? = some marker))
      | none => .beforeItems := by
  rw [itemIndex, htake, List.foldl_append, List.foldl_cons,
    ← ItemScan.index_foldl_step_declared hnot]
  simp [ItemScan.step, hd]

/-- The items of the block of a declaration are sought in the lines behind it: those up to a line,
which start at or ahead of the line, and then those behind the line. -/
theorem rangesOf_of_last_declaration {before between : List Line}
    (htake : text.lines.take (t + 1) = before ++ opening :: between) :
    rangesOf text opening =
      rangesAfter opening.labelColumn text.bytes (between ++ text.lines.drop (t + 1)) := by
  have hlines : text.lines = before ++ opening :: (between ++ text.lines.drop (t + 1)) := by
    conv_lhs => rw [← List.take_append_drop (t + 1) text.lines, htake]
    simp
  have hopening : text.lines[before.length]? = some opening := by
    rw [hlines]
    simp
  rw [rangesOf, number_of_getElem? hopening]
  conv_lhs => rw [hlines]
  simp

theorem start_le_of_mem_take_succ (htarget : text.lines[t]? = some target)
    (h : line ∈ text.lines.take (t + 1)) : line.start ≤ target.start := by
  obtain ⟨d, hdt, hline⟩ := exists_of_mem_take_succ h
  have := start_lt_start_iff htarget hline
  omega

theorem start_lt_of_mem_drop_succ (htarget : text.lines[t]? = some target)
    (h : line ∈ text.lines.drop (t + 1)) : target.start < line.start := by
  obtain ⟨i, hi⟩ := List.getElem?_of_mem h
  rw [List.getElem?_drop] at hi
  exact (start_lt_start_iff htarget hi).mpr (by omega)

theorem countP_append_drop_succ (htarget : text.lines[t]? = some target)
    (hle : ∀ line ∈ lines, line.start ≤ target.start) :
    ((lines ++ text.lines.drop (t + 1)).countP fun line =>
      line.marker? = some marker ∧ line.start ≤ target.start) =
        lines.countP (·.marker? = some marker) := by
  have hbehind : (text.lines.drop (t + 1)).countP (fun line =>
      line.marker? = some marker ∧ line.start ≤ target.start) = 0 := by
    refine List.countP_eq_zero.mpr fun line hline => ?_
    have := start_lt_of_mem_drop_succ htarget hline
    simp only [decide_eq_true_eq, not_and]
    omega
  rw [List.countP_append, hbehind, Nat.add_zero]
  refine List.countP_congr fun line hline => ?_
  simp [hle line hline]

/-- A line is in the span of an item if and only if it is counted to the item and ahead of the end
of the items. -/
theorem contains_itemRangesAt_iff {text : Text} (hbytes : text.bytes < 2 ^ 32) {t : Nat}
    {target : Line} (htarget : text.lines[t]? = some target) (label : String) (k : Nat) :
    (∃ r, (itemRangesAt label t text)[k]? = some r ∧ r.span.contains target.start) ↔
      itemIndex label t text = .item k ∧
        ∃ r, (itemRangesAt label t text).getLast? = some r ∧ target.start < r.span.stop := by
  unfold itemRangesAt
  cases hfind : (text.lines.take (t + 1)).reverse.find? (·.declares label) with
  | none => simp
  | some opening =>
    obtain ⟨before, between, htake, hd, hnot⟩ := exists_last_declaration hfind
    have hlines : (between ++ text.lines.drop (t + 1)).Sublist text.lines := by
      conv_rhs => rw [← List.take_append_drop (t + 1) text.lines, htake]
      exact ((List.sublist_cons_self ..).trans (List.sublist_append_right ..)).append_right _
    have hsorted := (pairwise_start_lines text).sublist hlines
    have hstop : ∀ line ∈ between ++ text.lines.drop (t + 1), line.start ≤ text.bytes :=
      fun line hline => start_le_bytes (hlines.subset hline)
    have hmax : text.bytes ≤ maxOffset := Nat.le_of_lt_succ hbytes
    have hbetween : ∀ line ∈ between, line.start ≤ target.start := fun line hline =>
      start_le_of_mem_take_succ htarget (by simp [htake, hline])
    simp only [rangesOf_of_last_declaration htake, itemIndex_of_last_declaration htake hd hnot]
    cases hitem : firstItem? opening.labelColumn between with
    | some found =>
      obtain ⟨marker, first, rest⟩ := found
      obtain ⟨-, -, hsub⟩ := firstItem?_eq_some hitem
      have hitem' := firstItem?_append_of_eq_some hitem (text.lines.drop (t + 1))
      obtain ⟨r, hr, hspan⟩ := getLast?_rangesAfter hstop hmax hitem'
      have hfirst := hbetween first (hsub.subset List.mem_cons_self)
      have hrest : ∀ line ∈ rest, line.start ≤ target.start :=
        fun line hline => hbetween line (hsub.subset (List.mem_cons_of_mem _ hline))
      rw [contains_rangesAfter_iff hsorted hstop hmax hitem', countP_append_drop_succ htarget hrest]
      simp only [hr, Option.some.injEq, exists_eq_left', hspan, ItemIndex.item.injEq]
      tauto
    | none =>
      cases hitem' : firstItem? opening.labelColumn (between ++ text.lines.drop (t + 1)) with
      | none => simp [rangesAfter_eq, hitem']
      | some found =>
        obtain ⟨marker, first, rest⟩ := found
        obtain ⟨-, -, hsub⟩ := firstItem?_eq_some (firstItem?_of_append hitem hitem')
        have hlt := start_lt_of_mem_drop_succ htarget (hsub.subset List.mem_cons_self)
        rw [contains_rangesAfter_iff hsorted hstop hmax hitem']
        simp
        omega

/-- A block with a comment between its items and a line behind its end. -/
def twoItems : Text := "m:\n  - a: 1\n# c\n  - b: 2\nz".toList

theorem contains_itemRangesAt_iff_twoItems :
    twoItems.bytes < 2 ^ 32 ∧
      (twoItems.lines[3]? = some ⟨3, 16, "  - b: 2".toList⟩ ∧
        (itemRangesAt "m" 3 twoItems)[1]? = some ⟨1, .between 16 25⟩ ∧
        itemIndex "m" 3 twoItems = .item 1) ∧
      twoItems.lines[4]? = some ⟨4, 25, "z".toList⟩ ∧ itemIndex "m" 4 twoItems = .item 1 ∧
        ¬ ∃ r, (itemRangesAt "m" 4 twoItems)[1]? = some r ∧ r.span.contains 25 := by
  have hbytes : twoItems.bytes < 2 ^ 32 := by cbv
  have hinner : twoItems.lines[3]? = some ⟨3, 16, "  - b: 2".toList⟩ := by cbv
  have hrange : (itemRangesAt "m" 3 twoItems)[1]? = some ⟨1, .between 16 25⟩ := by cbv
  have hbehind : twoItems.lines[4]? = some ⟨4, 25, "z".toList⟩ := by cbv
  have hindex : itemIndex "m" 4 twoItems = .item 1 := by cbv
  have hlast : (itemRangesAt "m" 4 twoItems).getLast? = some ⟨1, .between 16 25⟩ := by cbv
  obtain ⟨hitem, -⟩ :=
    (contains_itemRangesAt_iff hbytes hinner "m" 1).mp ⟨_, hrange, by decide⟩
  refine ⟨hbytes, ⟨hinner, hrange, hitem⟩, hbehind, hindex, fun h => ?_⟩
  obtain ⟨-, r, hr, hlt⟩ := (contains_itemRangesAt_iff hbytes hbehind "m" 1).mp h
  obtain rfl := Option.some.inj (hlast.symm.trans hr)
  exact absurd hlt (by decide)

end Outline

end ManifestAssist
