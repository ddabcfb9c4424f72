import ManifestAssist.Proofs.Outline.Label
import ManifestAssist.Proofs.Text.LineMap

/-! # Columns of contents

The column of a content is counted along the markers that are dropped to get at the content. So a
line goes on from there with its content. Only behind markers that nothing follows does the count
run past the end of what the line holds, as if the next thing were still to be typed.
-/

namespace ManifestAssist

open Text

namespace Outline

variable {line text : Text} {column : Nat}

/-- The column of the content of a line: with markers it is right of the first one, the content
stands at it, and if there is only white space the line ends ahead of it. -/
structure IsContentColumn (line : Text) (column : Nat) : Prop where
  eq_indent : ¬ isListItem line → indent? line = some column
  gt_marker : isListItem line → ∃ indent, indent? line = some indent ∧ indent < column
  at_content : (∃ c ∈ content line, ¬ isBlank c) →
    line.isBoundary column ∧ line.slice? column line.bytes = some (content line)
  past_end : (∀ c ∈ content line, isBlank c) → (trimEnd line).bytes < column

theorem forall_isBlank_dropSpaces_iff :
    (∀ c ∈ dropSpaces text, isBlank c) ↔ ∀ c ∈ text, isBlank c := by
  constructor
  · intro h c hc
    rw [← List.takeWhile_append_dropWhile (p := isSpace) (l := text), List.mem_append] at hc
    rcases hc with hspace | hrest
    · obtain rfl : c = ' ' := by simpa [isSpace] using List.mem_takeWhile_imp hspace
      decide
    · exact h c hrest
  · exact fun h c hc => h c ((List.dropWhile_suffix _).subset hc)

theorem exists_not_isBlank_of_indent? {indent : Nat} (h : indent? line = some indent) :
    ∃ c ∈ dropSpaces line, ¬ isBlank c := by
  have htrim : trim line ≠ [] := trim_ne_nil_of_isSignificant (by simp [isSignificant, h])
  rw [ne_eq, trim_eq_nil_iff, ← forall_isBlank_dropSpaces_iff] at htrim
  push Not at htrim
  simpa using htrim

theorem add_bytes_trimEnd_lt (column : Nat) (h : ∃ c ∈ text, ¬ isBlank c)
    (hcontent : ∀ c ∈ dropMarkers text, isBlank c) :
    column + (trimEnd text).bytes < columnBehindMarkers column text := by
  have hsize : Char.utf8Size '-' = 1 := by decide
  fun_induction columnBehindMarkers column text with
  | case1 column text hmarker gap rest hblank =>
    -- The last marker: what is trimmed off behind it is counted by the column.
    have htail : ∀ c ∈ text.tail, isBlank c :=
      forall_isBlank_dropSpaces_iff.mp (List.all_eq_true.mp hblank)
    have htrim : trimEnd text = ['-'] := by
      rw [eq_hyphen_cons_tail hmarker, ← List.singleton_append, trimEnd_append_of_forall htail]
      decide
    rw [htrim]
    simp only [bytes, width_cons, width_nil, hsize]
    omega
  | case2 column text hmarker gap rest hblank ih =>
    rw [dropMarkers, if_pos hmarker] at hcontent
    have hrest : ∃ c ∈ rest, ¬ isBlank c := by simpa using hblank
    obtain ⟨spaces, hspaces, hbytes⟩ := exists_append_dropSpaces text.tail
    have htext : text = '-' :: spaces ++ rest := by
      rw [List.cons_append, ← hspaces]
      exact eq_hyphen_cons_tail hmarker
    have hlt := ih hrest hcontent
    rw [htext, trimEnd_append hrest, bytes_append]
    simp only [bytes, width_cons, hsize] at hlt hbytes ⊢
    omega
  | case3 column text hmarker =>
    rw [dropMarkers, if_neg hmarker] at hcontent
    obtain ⟨c, hc, hblank⟩ := h
    exact absurd (hcontent c hc) hblank

theorem isContentColumn_of_contentColumn? (h : contentColumn? line = some column) :
    IsContentColumn line column where
  eq_indent hitem := indent?_of_marker?_eq_none (by simpa [isListItem] using hitem) h
  gt_marker hitem := by
    obtain ⟨marker, hmarker⟩ := Option.isSome_iff_exists.mp hitem
    exact ⟨marker, (marker?_eq_some_iff.mp hmarker).1, marker?_lt_contentColumn? hmarker h⟩
  at_content hcontent := by
    obtain ⟨front, hline, hbytes⟩ := exists_append_content h (by simpa using hcontent)
    have hslice := slice?_bytes_append front (content line) []
    rw [List.append_nil, ← hline, hbytes] at hslice
    exact ⟨isBoundary_of_slice?_eq_some hslice, hslice⟩
  past_end hcontent := by
    obtain ⟨indent, hindent, rfl⟩ := contentColumn?_eq_some_iff.mp h
    have hblank := exists_not_isBlank_of_indent? hindent
    obtain ⟨spaces, hspaces, hbytes⟩ := exists_append_dropSpaces line
    have hlt := add_bytes_trimEnd_lt indent hblank hcontent
    rw [eq_leadingSpaces_of_indent? hindent, ← hbytes] at hlt ⊢
    conv_lhs => rw [hspaces, trimEnd_append hblank, bytes_append]
    exact hlt

/-- Does a declaration point at the key of its line, and is the key its label? -/
def PointsAtKey (text : Text) (label : String) (d : Declaration) : Prop :=
  ∃ line key rest, text.lines[d.line]? = some line ∧
    content line.text = key ++ ':' :: rest ∧ ':' ∉ key ∧
    String.ofList (unquote (trimEnd key)) = label ∧
    text.isBoundary d.offset ∧ text.slice? d.offset line.stop = some (content line.text)

theorem pointsAtKey_of_mem_declarations {label : String} {d : Declaration}
    (h : d ∈ declarations label text) : PointsAtKey text label d := by
  obtain ⟨line, hline, hdeclares, hcolumn, hoffset⟩ := exists_of_mem_declarations h
  obtain ⟨⟨key, rest⟩, hkey, hlabel⟩ := Option.map_eq_some_iff.mp (Line.declares_iff.mp hdeclares)
  obtain ⟨hcolon, hcontent⟩ := splitFirst_eq_some_iff.mp hkey
  obtain ⟨front, hfront, hbytes⟩ := exists_append_content hcolumn (not_all_isBlank_content hkey)
  have htext : line.text = front ++ content line.text ++ [] := by rwa [List.append_nil]
  have hslice := slice?_of_text_eq_append hline htext
  rw [← hfront, hbytes, ← hoffset] at hslice
  have hboundary := isBoundary_of_slice?_eq_some hslice
  exact ⟨line, key, rest, hline, hcontent, hcolon, hlabel, hboundary, hslice⟩

/-- The column of a content and the content itself are found apart and agree on all lines, so that
each declaration of a text points at the key of its line. -/
theorem contentColumn?_agrees_with_content :
    (∀ (line : Text) (column : Nat), contentColumn? line = some column →
      IsContentColumn line column) ∧
    ∀ (text : Text) (label : String), ∀ d ∈ declarations label text, PointsAtKey text label d :=
  ⟨fun _ _ => isContentColumn_of_contentColumn?, fun _ _ _ => pointsAtKey_of_mem_declarations⟩

/-- A line of markers with nothing but white space behind them. -/
def bareMarkers : Text := "  - - \t".toList

/-- A key behind two markers, in a text with wide characters ahead of it. -/
def nestedKey : Text := "é:\n  -  - 'b ' : c".toList

theorem contentColumn?_agrees_with_content_bareMarkers :
    contentColumn? bareMarkers = some 6 ∧ IsContentColumn bareMarkers 6 ∧
      ⟨1, 7, 11⟩ ∈ declarations "b " nestedKey ∧ PointsAtKey nestedKey "b " ⟨1, 7, 11⟩ := by
  have hcolumn : contentColumn? bareMarkers = some 6 := by cbv
  have hmem : ⟨1, 7, 11⟩ ∈ declarations "b " nestedKey := by decide +kernel
  obtain ⟨hcontent, hkey⟩ := contentColumn?_agrees_with_content
  exact ⟨hcolumn, hcontent bareMarkers 6 hcolumn, hmem, hkey nestedKey "b " _ hmem⟩

end Outline

end ManifestAssist
