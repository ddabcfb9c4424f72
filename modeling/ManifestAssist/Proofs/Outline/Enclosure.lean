import ManifestAssist.Proofs.Outline.Region

/-! # Declarations around a line

A block that starts ahead of a line and ends behind the start of the line has all lines in between
right of its label. So the line that declares it is open at the line, and the labels of all such
declarations stand in the chain of the line, in the order of the text.
-/

namespace ManifestAssist

open Text Outline

variable {text : Text} {lines : List Line} {line opening target : Line} {label : String}
  {d : Declaration} {column content j t : Nat}

namespace Outline

/-- Is a label neither empty nor with white space in front? -/
def isName (label : String) : Bool :=
  label.toList.head?.any (! isBlank ·)

theorem isName_iff : isName label ↔ ∃ c, label.toList.head? = some c ∧ ¬ isBlank c := by
  simp [isName, Option.any_eq_true]

theorem trimEnd_eq_trim_of_unquote {key : Text} {c : Char}
    (hc : (unquote (trimEnd key)).head? = some c) (hblank : ¬ isBlank c) :
    trimEnd key = trim key := by
  cases key with
  | nil => rfl
  | cons k ks =>
    -- White space is no quote, so it would be in front of the name, too.
    have hk : ¬ isBlank k := by
      intro hk
      have hsplit := dropEndWhile_append_takeEndWhile isBlank (k :: ks)
      rw [← trimEnd] at hsplit
      cases hkey : trimEnd (k :: ks) with
      | nil =>
        rw [hkey] at hc
        cases hc
      | cons k' ks' =>
        rw [hkey, List.cons_append] at hsplit
        obtain ⟨rfl, -⟩ := List.cons.inj hsplit
        rw [hkey, unquote_of_blank hk] at hc
        obtain rfl : k' = c := by simpa using hc
        exact hblank hk
    simp [trim, trimWhile, trimEnd, hk]

theorem lt_contentColumn?_of_not_exits (h : ¬ exits column line)
    (hc : line.contentColumn? = some content) : column < content := by
  -- The content is at the indentation if there is no marker, and right of a marker otherwise.
  cases hm : line.marker? with
  | none =>
    have hcontent : line.indent? = some content := indent?_of_marker?_eq_none hm hc
    simp only [exits, hcontent, hm, beq_self_eq_true, Bool.and_true, Bool.or_eq_true,
      decide_eq_true_eq, beq_iff_eq] at h
    omega
  | some marker =>
    have hlt := marker?_lt_contentColumn? hm hc
    have hmarker : line.indent? = some marker := (marker?_eq_some_iff.mp hm).1
    simp only [exits, hmarker, Bool.or_eq_true, decide_eq_true_eq] at h
    omega

theorem openAt_of_reaches (htarget : lines[t]? = some target)
    (hcolumn : target.contentColumn? = some column) (hj : j < t) (hopening : lines[j]? = some opening)
    (hown : opening.contentColumn? = some content) (hlabel : opening.label?.isSome)
    (h : Reaches lines j t) : OpenAt lines t column j := by
  obtain ⟨opening', hopening', hreach⟩ := h
  obtain rfl : opening = opening' := Option.some.inj (hopening.symm.trans hopening')
  have hlabelColumn : opening.labelColumn = content := by simp [Line.labelColumn, hown]
  rw [hlabelColumn] at hreach
  refine ⟨by simpa [labelAt, hopening] using hlabel, content, ?_, ?_, ?_⟩
  · simp [columnAt, hopening, hown]
  · exact lt_contentColumn?_of_not_exits (hreach t (Nat.le_refl t) hj target htarget) hcolumn
  · intro k hk hjk c hc
    obtain ⟨line, hline, hc⟩ := Option.bind_eq_some_iff.mp hc
    exact lt_contentColumn?_of_not_exits (hreach k (Nat.le_of_lt hk) hjk line hline) hc

theorem contentColumn?_eq_nestingColumn (hs : target.isSignificant) :
    target.contentColumn? = some (nestingColumn target) := by
  obtain ⟨column, hcolumn⟩ := Option.isSome_iff_exists.mp (isSome_contentColumn?.trans hs)
  have hcontent : target.contentColumn? = some column := hcolumn
  rw [nestingColumn, hcontent, Option.getD_some]

/-- At a line that declares a label, the innermost block of the label is the one that it opens. -/
theorem blockSpanAt?_of_declares (hopening : text.lines[j]? = some opening)
    (h : opening.declares label) : blockSpanAt? label j text = some (blockOf text opening) := by
  simp [blockSpanAt?, hopening, take_succ_of_getElem? hopening, h, number_of_getElem? hopening]

end Outline

namespace Line

/-- The label of the block that a line opens. -/
def declaredLabel? (line : Line) : Option String :=
  (splitFirst ':' (Outline.content line.text)).map fun (key, _) =>
    String.ofList (unquote (trimEnd key))

/-- The declaration of a line with its label. -/
def declaration? (line : Line) : Option (String × Declaration) := do
  let label ← line.declaredLabel?
  let column ← line.contentColumn?
  return (label, ⟨line.number, column, line.start + column⟩)

theorem declares_iff : line.declares label ↔ line.declaredLabel? = some label := by
  change Outline.declares line.text label = true ↔ _
  unfold Outline.declares declaredLabel?
  cases splitFirst ':' (Outline.content line.text) with
  | none => simp
  | some parts => simp

theorem declaration?_eq_some_iff :
    line.declaration? = some (label, d) ↔
      line.declares label ∧
        ∃ column, line.contentColumn? = some column ∧
          d = ⟨line.number, column, line.start + column⟩ := by
  rw [declares_iff]
  unfold declaration?
  cases line.declaredLabel? with
  | none => simp
  | some label' =>
    cases line.contentColumn? with
    | none => simp
    | some column => simp [eq_comm]

theorem label?_of_declares (h : line.declares label) (hlabel : isName label) :
    line.label? = some label := by
  obtain ⟨⟨key, rest⟩, hkey, hname⟩ := Option.map_eq_some_iff.mp (declares_iff.mp h)
  obtain rfl : String.ofList (unquote (trimEnd key)) = label := hname
  obtain ⟨c, hc, hblank⟩ := isName_iff.mp hlabel
  have hhead : (unquote (trimEnd key)).head? = some c := by simpa using hc
  have htrim := trimEnd_eq_trim_of_unquote hhead hblank
  refine label?_eq_some_iff.mpr ⟨key, rest, hkey, ?_, by rw [htrim]⟩
  rw [← htrim]
  intro hnil
  simp [hnil] at hhead

end Line

namespace Outline

theorem mem_declarations_iff :
    d ∈ declarations label text ↔ ∃ line ∈ text.lines, line.declaration? = some (label, d) := by
  simp only [declarations, List.mem_filterMap, List.mem_filter, Option.map_eq_some_iff,
    Line.declaration?_eq_some_iff, and_assoc, eq_comm (a := d)]

theorem exists_of_mem_declarations (h : d ∈ declarations label text) :
    ∃ line, text.lines[d.line]? = some line ∧ line.declares label ∧
      line.contentColumn? = some d.column ∧ d.offset = line.start + d.column := by
  obtain ⟨line, hmem, hdeclaration⟩ := mem_declarations_iff.mp h
  obtain ⟨hdeclares, column, hcolumn, rfl⟩ := Line.declaration?_eq_some_iff.mp hdeclaration
  obtain ⟨j, hline⟩ := List.getElem?_of_mem hmem
  obtain rfl : line.number = j := number_of_getElem? hline
  exact ⟨line, hline, hdeclares, hcolumn, rfl⟩

theorem pairwise_line_declarations (label : String) (text : Text) :
    (declarations label text).Pairwise fun d e => d.line < e.line := by
  refine List.pairwise_filterMap.mpr (((pairwise_number_lines text).filter _).imp ?_)
  intro line line' hlt d hd e he
  obtain ⟨column, -, rfl⟩ := Option.map_eq_some_iff.mp hd
  obtain ⟨column', -, rfl⟩ := Option.map_eq_some_iff.mp he
  exact hlt

/-- Does the block of a declaration ahead of a line, whose label is a name, reach past the start of
the line? -/
def Encloses (text : Text) (target : Line) (label : String) (d : Declaration) : Prop :=
  d ∈ declarations label text ∧ isName label ∧ d.line < target.number ∧
    ∃ span ∈ blockSpanAt? label d.line text, target.start < span.stop

instance (text : Text) (target : Line) (label : String) (d : Declaration) :
    Decidable (Encloses text target label d) :=
  inferInstanceAs (Decidable (d ∈ declarations label text ∧ isName label ∧ d.line < target.number ∧
    ∃ span ∈ blockSpanAt? label d.line text, target.start < span.stop))

/-- The declarations around a line with their labels, in the order of the text. -/
def enclosing (text : Text) (target : Line) : List (String × Declaration) :=
  (text.lines.filterMap Line.declaration?).filter fun (label, d) => Encloses text target label d

theorem mem_enclosing_iff :
    (label, d) ∈ enclosing text target ↔ Encloses text target label d := by
  simp only [enclosing, List.mem_filter, List.mem_filterMap, decide_eq_true_eq,
    ← mem_declarations_iff, and_iff_right_iff_imp]
  exact And.left

theorem pairwise_line_enclosing (text : Text) (target : Line) :
    (enclosing text target).Pairwise fun a b => a.2.line < b.2.line := by
  apply List.Pairwise.filter
  refine List.pairwise_filterMap.mpr ((pairwise_number_lines text).imp ?_)
  rintro line line' hlt ⟨label, d⟩ hd ⟨label', d'⟩ hd'
  obtain ⟨-, column, -, rfl⟩ := Line.declaration?_eq_some_iff.mp hd
  obtain ⟨-, column', -, rfl⟩ := Line.declaration?_eq_some_iff.mp hd'
  exact hlt

theorem exists_opening_of_encloses (hbytes : text.bytes < 2 ^ 32)
    (htarget : text.lines[t]? = some target) (h : Encloses text target label d) :
    ∃ opening, text.lines[d.line]? = some opening ∧ opening.declares label ∧
      opening.contentColumn? = some d.column ∧ d.line < t ∧ Reaches text.lines d.line t := by
  obtain ⟨hd, -, hlt, span, hspan, hstart⟩ := h
  rw [number_of_getElem? htarget] at hlt
  obtain ⟨opening, hopening, hdeclares, hown, -⟩ := exists_of_mem_declarations hd
  rw [blockSpanAt?_of_declares hopening hdeclares] at hspan
  obtain rfl : blockOf text opening = span := Option.some.inj hspan
  exact ⟨opening, hopening, hdeclares, hown, hlt,
    ((lt_stop_blockOf_iff hbytes hopening htarget).mp hstart).2⟩

theorem mem_openings_of_encloses (hbytes : text.bytes < 2 ^ 32)
    (htarget : text.lines[t]? = some target) (hcolumn : target.contentColumn? = some column)
    (h : Encloses text target label d) :
    d.line ∈ openings text.lines t column ∧ labelAt text.lines d.line = some label := by
  obtain ⟨opening, hopening, hdeclares, hown, hlt, hreach⟩ :=
    exists_opening_of_encloses hbytes htarget h
  have hlabel := Line.label?_of_declares hdeclares h.2.1
  have hopen := openAt_of_reaches htarget hcolumn hlt hopening hown (by simp [hlabel]) hreach
  exact ⟨mem_openings.mpr ⟨hlt, hopen⟩, by simp [labelAt, hopening, hlabel]⟩

theorem map_line_enclosing_sublist_openings (hbytes : text.bytes < 2 ^ 32)
    (htarget : text.lines[t]? = some target) (hcolumn : target.contentColumn? = some column) :
    ((enclosing text target).map (·.2.line)).Sublist (openings text.lines t column) := by
  have hordered := List.pairwise_map.mpr (pairwise_line_enclosing text target)
  -- The numbers of lines ascend in both lists, so it is enough that the one is part of the other.
  refine List.sublist_of_subperm_of_pairwise (List.subperm_of_subset hordered.nodup ?_)
    hordered (List.pairwise_lt_range.filter _)
  intro n hn
  obtain ⟨a, ha, rfl⟩ := List.mem_map.mp hn
  exact (mem_openings_of_encloses hbytes htarget hcolumn (mem_enclosing_iff.mp ha)).1

/-- The labels of the declarations around a line, in the order of the text, stand in its chain. -/
theorem map_fst_enclosing_sublist_chain (hbytes : text.bytes < 2 ^ 32)
    (htarget : text.lines[t]? = some target) (hs : target.isSignificant)
    (h0 : target.indent? ≠ some 0) :
    (∀ label d, (label, d) ∈ enclosing text target ↔ Encloses text target label d) ∧
      (enclosing text target).Pairwise (fun a b => a.2.line < b.2.line) ∧
      ((enclosing text target).map Prod.fst).Sublist (chain text t) := by
  refine ⟨fun _ _ => mem_enclosing_iff, pairwise_line_enclosing text target, ?_⟩
  have hcolumn := contentColumn?_eq_nestingColumn hs
  have hlines := map_line_enclosing_sublist_openings hbytes htarget hcolumn
  have hlabels : (enclosing text target).map Prod.fst =
      ((enclosing text target).map (·.2.line)).filterMap (labelAt text.lines) := by
    rw [List.filterMap_map, ← List.filterMap_eq_map]
    refine List.filterMap_congr fun a ha => ?_
    exact (mem_openings_of_encloses hbytes htarget hcolumn (mem_enclosing_iff.mp ha)).2.symm
  rw [chain_eq_filterMap_openings htarget h0, hlabels]
  exact hlines.filterMap _

/-- A line in the second item of a list, with a comment and an empty line ahead of it. -/
def secondItem : Text := "a:\n  - b: x\n# c\n  - 'd e':\n\n      f: y".toList

theorem map_fst_enclosing_sublist_chain_secondItem :
    (secondItem.bytes < 2 ^ 32 ∧ secondItem.lines[5]? = some ⟨5, 28, "      f: y".toList⟩ ∧
        Line.isSignificant ⟨5, 28, "      f: y".toList⟩ ∧
        Line.indent? ⟨5, 28, "      f: y".toList⟩ ≠ some 0) ∧
      (enclosing secondItem ⟨5, 28, "      f: y".toList⟩).map Prod.fst = ["a", "d e"] ∧
      ((enclosing secondItem ⟨5, 28, "      f: y".toList⟩).map Prod.fst).Sublist
        (chain secondItem 5) := by
  have hbytes : secondItem.bytes < 2 ^ 32 := by cbv
  have htarget : secondItem.lines[5]? = some ⟨5, 28, "      f: y".toList⟩ := by cbv
  have hs : Line.isSignificant ⟨5, 28, "      f: y".toList⟩ := by cbv
  have h0 : Line.indent? ⟨5, 28, "      f: y".toList⟩ ≠ some 0 := by decide +kernel
  have hlabels : (enclosing secondItem ⟨5, 28, "      f: y".toList⟩).map Prod.fst =
      ["a", "d e"] := by
    decide +kernel
  exact ⟨⟨hbytes, htarget, hs, h0⟩, hlabels,
    (map_fst_enclosing_sublist_chain hbytes htarget hs h0).2.2⟩

end Outline

end ManifestAssist
