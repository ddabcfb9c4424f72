import ManifestAssist.Proofs.Outline.Alike

/-! # Lines put below

A line that is put below another one, at the column of its content and without a marker, belongs to
the same entry. So it is in the blocks and the items that the line above was in, and that line may
have changed behind its key.
-/

namespace ManifestAssist

open Text Outline

theorem ItemScan.index_step_of_marker?_eq_none {label : String} {line : Line}
    (hd : ¬ line.declares label) (hm : line.marker? = none) (scan : ItemScan) :
    (step label scan line).index = scan.index := by
  unfold step
  rw [if_neg hd]
  by_cases hs : line.isSignificant
  · cases scan <;> simp [hs, hm, index]
  · rw [if_neg hs]

namespace Outline

variable {text edited : Text} {t column : Nat} {line line' added : Line}

theorem contents_append (a b : List Line) : contents (a ++ b) = contents a ++ contents b :=
  List.filterMap_append

theorem take_lines_succ (h : text.lines[t]? = some line) :
    text.lines.take (t + 1) = text.lines.take t ++ [line] := by
  rw [List.take_add_one, h]
  rfl

theorem forall₂_alike_take_of_eq
    (hahead : (edited.splitAll '\n').take t = (text.splitAll '\n').take t) :
    List.Forall₂ (Alike fun _ _ => True) (edited.lines.take t) (text.lines.take t) := by
  apply forall₂_alike_of_map_text_eq
  rw [List.map_take, List.map_take, map_text_lines, map_text_lines, hahead]

variable (hline : text.lines[t]? = some line) (hline' : edited.lines[t]? = some line')
  (hahead : (edited.splitAll '\n').take t = (text.splitAll '\n').take t)

include hline hline' hahead

theorem chain_below (hadded : edited.lines[t + 1]? = some added)
    (hcolumn : line.contentColumn? = some column) (hcolumn' : line'.contentColumn? = some column)
    (hbelow : added.contentColumn? = some column) (hindent : line.indent? ≠ some 0)
    (hindent' : added.indent? ≠ some 0) : chain edited (t + 1) = chain text t := by
  have hnesting {line : Line} (h : line.contentColumn? = some column) :
      nestingColumn line = column := by
    rw [nestingColumn, h, Option.getD_some]
  -- The line above is no deeper than the one below, so it does not open a block there.
  have hown : openFrames column (contents [line']) = [] ∧
      leftmost column (contents [line']) = column := by
    rw [contents_cons_of_eq_some hcolumn']
    cases hlabel : line'.label? <;> simp [openFrames, contents, hlabel]
  have hframes : openFrames column (contents (edited.lines.take t)) =
      openFrames column (contents (text.lines.take t)) :=
    (openFrames_contents_eq (forall₂_alike_take_of_eq hahead)).1
  rw [chain_eq_map_openFrames hline hindent, chain_eq_map_openFrames hadded hindent',
    hnesting hcolumn, hnesting hbelow, take_lines_succ hline', contents_append, openFrames_append,
    hown.1, hown.2, List.append_nil, hframes]

theorem itemIndex_below {label : String} (hadded : edited.lines[t + 1]? = some added)
    (hdeclares : line'.declares label = line.declares label)
    (hindent : line'.indent? = line.indent?) (hmarker : line'.marker? = line.marker?)
    (hcolumn : line'.contentColumn? = line.contentColumn?) (hnot : ¬ added.declares label)
    (hnone : added.marker? = none) :
    itemIndex label (t + 1) edited = itemIndex label t text := by
  have hstep (scan : ItemScan) :
      ItemScan.step label scan line' = ItemScan.step label scan line := by
    have hsignificant : line'.isSignificant = line.isSignificant := congrArg Option.isSome hindent
    simp only [ItemScan.step, hdeclares, hsignificant, hmarker, Line.labelColumn, hcolumn]
  rw [itemIndex, itemIndex, take_lines_succ hadded, take_lines_succ hline', take_lines_succ hline,
    List.foldl_append, List.foldl_append, List.foldl_append,
    foldl_step_eq (forall₂_alike_take_of_eq hahead)]
  simp only [List.foldl_cons, List.foldl_nil]
  rw [ItemScan.index_step_of_marker?_eq_none hnot hnone, hstep]

end Outline

end ManifestAssist
