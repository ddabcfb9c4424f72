import ManifestAssist.Proofs.Outline.Alike

/-! # Lines that do not count

The resolvers pass over blank lines and comments, so what they tell of a line and of the items of a
label is told by the lines that count. It stays if another blank line or comment is put in.
-/

namespace ManifestAssist

open Text Outline

/-- The text with one more line ahead of the line with a number. -/
def Text.insertLine (text : Text) (p : Nat) (line : Text) : Text :=
  ['\n'].intercalate ((text.splitAll '\n').take p ++ line :: (text.splitAll '\n').drop p)

variable {text comment : Text} {line : Line} {lines as bs : List Line} {label : String}
  {column stop p t : Nat}

namespace Outline

/-- The lines that take part in nesting. -/
def significant (lines : List Line) : List Line :=
  lines.filter (·.isSignificant)

theorem significant_cons_of_pos (hs : line.isSignificant) :
    significant (line :: lines) = line :: significant lines :=
  List.filter_cons_of_pos hs

theorem significant_cons_of_neg (hs : ¬ line.isSignificant) :
    significant (line :: lines) = significant lines :=
  List.filter_cons_of_neg hs

theorem map_text_significant (lines : List Line) :
    (significant lines).map Line.text = (lines.map Line.text).filter isSignificant := by
  rw [significant, List.filter_map]
  rfl

theorem contents_significant (lines : List Line) :
    contents (significant lines) = contents lines := by
  induction lines with
  | nil => rfl
  | cons line lines ih =>
    have hsome : line.contentColumn?.isSome = line.isSignificant := isSome_contentColumn?
    cases hc : line.contentColumn? with
    | none =>
      have hs : ¬ line.isSignificant := by simp [← hsome, hc]
      rw [significant_cons_of_neg hs, contents_cons_of_eq_none hc, ih]
    | some own =>
      have hs : line.isSignificant := by simp [← hsome, hc]
      rw [significant_cons_of_pos hs, contents_cons_of_eq_some hc, contents_cons_of_eq_some hc, ih]

theorem itemStarts_significant (column stop : Nat) (lines : List Line) :
    itemStarts column stop (significant lines) = itemStarts column stop lines := by
  induction lines with
  | nil => rfl
  | cons line lines ih =>
    have hsome : line.indent?.isSome = line.isSignificant := rfl
    cases hi : line.indent? with
    | none =>
      have hs : ¬ line.isSignificant := by simp [← hsome, hi]
      rw [significant_cons_of_neg hs, itemStarts, hi]
      exact ih
    | some indent =>
      have hs : line.isSignificant := by simp [← hsome, hi]
      rw [significant_cons_of_pos hs, itemStarts, itemStarts, hi, ih]

theorem rangesAfter_significant (column stop : Nat) (lines : List Line) :
    rangesAfter column stop (significant lines) = rangesAfter column stop lines := by
  induction lines with
  | nil => rfl
  | cons line lines ih =>
    by_cases hs : line.isSignificant
    · rw [significant_cons_of_pos hs, rangesAfter, rangesAfter]
      simp only [itemStarts_significant, ih]
    · rw [significant_cons_of_neg hs, rangesAfter, if_neg hs, ih]

section Declared

variable (hlabel : label.toList.head? ≠ some '#')

include hlabel

theorem foldl_step_significant (lines : List Line) (scan : ItemScan) :
    (significant lines).foldl (ItemScan.step label) scan =
      lines.foldl (ItemScan.step label) scan := by
  induction lines generalizing scan with
  | nil => rfl
  | cons line lines ih =>
    by_cases hs : line.isSignificant
    · rw [significant_cons_of_pos hs, List.foldl_cons, List.foldl_cons, ih]
    · have hd : ¬ line.declares label := not_declares_of_not_isSignificant hs hlabel
      have hstep : ItemScan.step label scan line = scan := by simp [ItemScan.step, hd, hs]
      rw [significant_cons_of_neg hs, List.foldl_cons, hstep, ih]

theorem rangesBehind_significant (stop : Nat) (lines : List Line) :
    rangesBehind label stop (significant lines) = rangesBehind label stop lines := by
  induction lines with
  | nil => rfl
  | cons line lines ih =>
    by_cases hs : line.isSignificant
    · rw [significant_cons_of_pos hs, rangesBehind, rangesBehind, rangesAfter_significant, ih]
    · have hd : ¬ line.declares label := not_declares_of_not_isSignificant hs hlabel
      rw [significant_cons_of_neg hs, rangesBehind, if_neg hd, ih]

end Declared

end Outline

section Insert

variable {α : Type} {f : α → Bool} {x : α} {xs : List α} {n : Nat}

theorem take_insert (hp : p ≤ xs.length) (k : Nat) (x : α) :
    (xs.take p ++ x :: xs.drop p).take (p + k + 1) = xs.take p ++ x :: (xs.drop p).take k := by
  have hmin : min (p + k + 1) p = p := by omega
  have hk : p + k + 1 - p = k + 1 := by omega
  rw [List.take_append, List.length_take_of_le hp, List.take_take, hmin, hk, List.take_succ_cons]

theorem filter_take_insert (hp : p ≤ xs.length) (hn : p ≤ n) (hx : ¬ f x) :
    ((xs.take p ++ x :: xs.drop p).take (n + 1)).filter f = (xs.take n).filter f := by
  obtain ⟨k, rfl⟩ := Nat.exists_eq_add_of_le hn
  rw [take_insert hp, List.take_add, List.filter_append, List.filter_append,
    List.filter_cons_of_neg hx]

end Insert

namespace Outline

theorem map_text_lines_insertLine (hline : '\n' ∉ comment) (p : Nat) :
    (text.insertLine p comment).lines.map Line.text =
      (text.splitAll '\n').take p ++ comment :: (text.splitAll '\n').drop p := by
  rw [map_text_lines, insertLine, splitAll_intercalate (by simp)]
  intro part hpart
  rcases List.mem_append.mp hpart with hpart | hpart
  · exact not_mem_of_mem_splitAll (List.mem_of_mem_take hpart)
  · rcases List.mem_cons.mp hpart with rfl | hpart
    · exact hline
    · exact not_mem_of_mem_splitAll (List.mem_of_mem_drop hpart)

theorem exists_text_eq_getElem?_insertLine {target : Line} (hline : '\n' ∉ comment)
    (htarget : text.lines[t]? = some target) (hp : p ≤ t) :
    ∃ moved, (text.insertLine p comment).lines[t + 1]? = some moved ∧ moved.text = target.text := by
  obtain ⟨hlt, -⟩ := List.getElem?_eq_some_iff.mp htarget
  have hlength : ((text.splitAll '\n').take p).length = p := by
    rw [List.length_take_of_le]
    rw [length_splitAll_eq_length_lines]
    omega
  have hmoved : (text.insertLine p comment).lines[t + 1]?.map Line.text = some target.text := by
    obtain ⟨k, rfl⟩ := Nat.exists_eq_add_of_le hp
    have hindex : p + k + 1 - p = k + 1 := by omega
    rw [← List.getElem?_map, map_text_lines_insertLine hline,
      List.getElem?_append_right (by omega), hlength, hindex, List.getElem?_cons_succ,
      List.getElem?_drop, ← map_text_lines, List.getElem?_map, htarget, Option.map_some]
  exact Option.map_eq_some_iff.mp hmoved

section Insertion

variable (hline : '\n' ∉ comment) (hs : ¬ isSignificant comment)

include hline hs

theorem forall₂_alike_significant_take (hp : p ≤ text.lines.length) {n : Nat} (hn : p ≤ n) :
    List.Forall₂ (Alike fun _ _ => True)
      (significant ((text.insertLine p comment).lines.take (n + 1)))
      (significant (text.lines.take n)) := by
  apply forall₂_alike_of_map_text_eq
  have hlength : p ≤ (text.splitAll '\n').length := by
    rwa [length_splitAll_eq_length_lines]
  rw [map_text_significant, map_text_significant, List.map_take, List.map_take,
    map_text_lines_insertLine hline, map_text_lines, filter_take_insert hlength hn hs]

theorem forall₂_alike_significant (hp : p ≤ text.lines.length) :
    List.Forall₂ (Alike fun _ _ => True) (significant (text.insertLine p comment).lines)
      (significant text.lines) := by
  have hlength : (text.insertLine p comment).lines.length = text.lines.length + 1 := by
    rw [← List.length_map Line.text, map_text_lines_insertLine hline, List.length_append,
      List.length_cons, List.length_take, List.length_drop, length_splitAll_eq_length_lines]
    omega
  have htake := forall₂_alike_significant_take hline hs hp hp
  rwa [← hlength, List.take_length, List.take_length] at htake

end Insertion

/-- A blank line or a comment that is put in ahead of a line changes neither the blocks around the
line nor the item that it belongs to, and no such line anywhere changes how many items a label has.
-/
theorem chain_and_items_insertLine (hline : '\n' ∉ comment) (hs : ¬ isSignificant comment)
    (hlabel : label.toList.head? ≠ some '#') :
    (∀ t < text.lines.length, ∀ p ≤ t,
      chain (text.insertLine p comment) (t + 1) = chain text t ∧
        itemIndex label (t + 1) (text.insertLine p comment) = itemIndex label t text) ∧
      ∀ p ≤ text.lines.length,
        (itemRanges label (text.insertLine p comment)).length = (itemRanges label text).length := by
  refine ⟨fun t ht p hp => ⟨?_, ?_⟩, fun p hp => ?_⟩
  · obtain ⟨moved, hmoved, htext⟩ :=
      exists_text_eq_getElem?_insertLine hline (List.getElem?_eq_getElem ht) hp
    have halike := forall₂_alike_significant_take hline hs (hp.trans ht.le) hp
    refine chain_eq_of_alike hmoved (List.getElem?_eq_getElem ht)
      (Alike.of_text_eq (R := fun _ _ => True) trivial htext) ?_
    rw [← contents_significant, (openFrames_contents_eq halike).1, contents_significant]
  · have halike := forall₂_alike_significant_take hline hs (hp.trans ht.le) (Nat.le_succ_of_le hp)
    rw [itemIndex, itemIndex, ← foldl_step_significant hlabel, foldl_step_eq halike,
      foldl_step_significant hlabel]
  · have hrelated : List.Forall₂ (ItemRange.Related fun _ _ => True)
        (rangesBehind label (text.insertLine p comment).bytes
          (significant (text.insertLine p comment).lines))
        (rangesBehind label text.bytes (significant text.lines)) :=
      rangesBehind_related (fun _ _ _ => trivial) (forall₂_alike_significant hline hs hp) trivial
    rw [itemRanges_eq_rangesBehind, itemRanges_eq_rangesBehind, ← rangesBehind_significant hlabel,
      hrelated.length_eq, rangesBehind_significant hlabel]

theorem chain_and_items_insertLine_twoItems :
    ('\n' ∉ "  # a:".toList ∧ ¬ isSignificant "  # a:".toList ∧ "m".toList.head? ≠ some '#') ∧
      (chain (twoItems.insertLine 1 "  # a:".toList) 4 = chain twoItems 3 ∧
        itemIndex "m" 4 (twoItems.insertLine 1 "  # a:".toList) = itemIndex "m" 3 twoItems) ∧
      (itemRanges "m" (twoItems.insertLine 5 "  # a:".toList)).length =
        (itemRanges "m" twoItems).length := by
  have hline : '\n' ∉ "  # a:".toList := by decide +kernel
  have hs : ¬ isSignificant "  # a:".toList := by decide +kernel
  have hlabel : "m".toList.head? ≠ some '#' := by decide +kernel
  exact ⟨⟨hline, hs, hlabel⟩,
    (chain_and_items_insertLine hline hs hlabel).1 3 (by decide +kernel) 1 (by decide),
    (chain_and_items_insertLine hline hs hlabel).2 5 (by decide +kernel)⟩

end Outline

end ManifestAssist
