import ManifestAssist.Proofs.Text.CodeUnit
import ManifestAssist.Proofs.Text.LineMap

/-! # Positions of a text

The lines of a text, with newlines between them, are the text again. A position stands for the last
boundary of its line that is not behind its column. So the map of a text leads from a position to an
offset, and from the offset back to the line.
-/

namespace ManifestAssist

open Text

variable {text front : Text} {line : Line} {position : Position}

namespace Text

theorem width_takeWithin_le (weight : Char → Nat) (n : Nat) (text : Text) :
    width weight (takeWithin weight n text) ≤ n := by
  induction text generalizing n with
  | nil => exact Nat.zero_le n
  | cons c text ih =>
    unfold takeWithin
    split
    · have hrest := ih (n - weight c)
      rw [width_cons]
      omega
    · exact Nat.zero_le n

theorem width_le_width_takeWithin {weight : Char → Nat} {n : Nat} (hfront : front <+: text)
    (h : width weight front ≤ n) :
    width weight front ≤ width weight (takeWithin weight n text) := by
  induction text generalizing n front with
  | nil =>
    obtain rfl := List.prefix_nil.mp hfront
    exact Nat.zero_le _
  | cons c text ih =>
    cases front with
    | nil => exact Nat.zero_le _
    | cons d front =>
      obtain ⟨rfl, hrest⟩ := List.cons_prefix_cons.mp hfront
      rw [width_cons] at h
      have hwider := ih hrest (show width weight front ≤ n - weight d by omega)
      rw [takeWithin, if_pos (by omega), width_cons, width_cons]
      exact Nat.add_le_add_left hwider _

end Text

namespace LineMap

theorem isGreatest_offset (h : text.lines[position.line]? = some line) :
    IsGreatest {n | line.start ≤ n ∧ n ≤ min (line.start + position.column) line.stop ∧
        text.isBoundary n}
      ((ofText text).offset position) := by
  have hline := ahead_append_isPrefix h
  have hahead : text.ahead position.line <+: text := (List.prefix_append _ _).trans hline
  have hstart := bytes_ahead h
  have hstop := bytes_ahead_append h
  rw [offset_eq_bytes_ahead_append h]
  constructor
  · have hfront := (List.prefix_append_right_inj (text.ahead position.line)).mpr
      (takeWithin_isPrefix Char.utf8Size position.column line.text)
    have hbytes := width_le_of_isPrefix Char.utf8Size hfront
    have hcolumn := width_takeWithin_le Char.utf8Size position.column line.text
    refine ⟨?_, ?_, isBoundary_iff_isPrefix.mpr ⟨_, hfront.trans hline, rfl⟩⟩
    · rw [← hstart]
      exact bytes_le_bytes_append _ _
    · refine Nat.le_min.mpr ⟨?_, hbytes.trans_eq hstop⟩
      rw [bytes_append, hstart]
      exact Nat.add_le_add_left hcolumn _
  · rintro n ⟨hle, hmin, hn⟩
    obtain ⟨hcolumn, hend⟩ := Nat.le_min.mp hmin
    obtain ⟨front, hfront, rfl⟩ := isBoundary_iff_isPrefix.mp hn
    -- What stands ahead of the boundary is the lines ahead and a part of this line.
    obtain ⟨part, rfl⟩ : text.ahead position.line <+: front :=
      isPrefix_of_width_le Char.utf8Size_pos hahead hfront (hstart.trans_le hle)
    have hpart : part <+: line.text := (List.prefix_append_right_inj _).mp
      (isPrefix_of_width_le Char.utf8Size_pos hfront hline (hend.trans_eq hstop.symm))
    rw [bytes_append, hstart] at hcolumn
    rw [bytes_append, bytes_append]
    exact Nat.add_le_add_left
      (width_le_width_takeWithin hpart (Nat.le_of_add_le_add_left hcolumn)) _

/-- The map of a text has its lines, each with its start and what it holds up to a newline, and they
make up the text. An offset is on the last line that does not start behind it, and a position stands
for the last boundary of its line that is not behind its column, or for the end of the text. -/
theorem ofText_maps_lines (text : Text) :
    let map := ofText text
    map.starts.length = text.lines.length ∧
    (∀ i line, text.lines[i]? = some line →
      line.number = i ∧ map.start? i = some line.start ∧ map.line? i = some line.text ∧
        '\n' ∉ line.text) ∧
    ['\n'].intercalate (text.lines.map Line.text) = text ∧
    (∀ offset, IsGreatest {i | ∃ start, map.start? i = some start ∧ start ≤ offset}
      (map.lineAt offset)) ∧
    ∀ position : Position,
      text.isBoundary (map.offset position) ∧
      (map.starts.length ≤ position.line → map.offset position = text.bytes) ∧
      ∀ line, text.lines[position.line]? = some line →
        IsGreatest {n | line.start ≤ n ∧ n ≤ min (line.start + position.column) line.stop ∧
            text.isBoundary n}
          (map.offset position) ∧
        map.lineAt (map.offset position) = position.line := by
  intro map
  have hlength : map.starts.length = text.lines.length := by
    rw [starts_ofText, List.length_map]
  refine ⟨hlength, ?_, intercalate_lines text, isGreatest_lineAt text, fun position => ⟨?_, ?_, ?_⟩⟩
  · intro i line h
    refine ⟨number_of_getElem? h, ?_, ?_, ?_⟩
    · rw [start?_ofText, h, Option.map_some]
    · rw [line?_ofText, h, Option.map_some]
    · exact not_mem_of_mem_splitAll (List.mem_of_getElem? (splitAll_getElem? h))
  · obtain ⟨before, after, happend, hoffset, -⟩ := exists_append_offset text position
    exact isBoundary_iff.mpr ⟨before, after, happend, hoffset.symm⟩
  · intro hpast
    exact offset_of_start?_eq_none (List.getElem?_eq_none hpast)
  · intro line h
    have hgreatest := isGreatest_offset h
    have ⟨hstart, hmin, _⟩ := hgreatest.1
    exact ⟨hgreatest, lineAt_ofText h hstart (Nat.le_min.mp hmin).2⟩

/-- An empty line, and one with a character of four bytes, ahead of a newline at the end. -/
def unevenLines : Text := "é\n\n😀x\n".toList

theorem ofText_maps_lines_withinCharacter :
    let map := ofText unevenLines
    (unevenLines.lines[2]? = some ⟨2, 4, "😀x".toList⟩ ∧ map.starts.length ≤ 7) ∧
      map.start? 2 = some 4 ∧ map.line? 2 = some "😀x".toList ∧
      IsGreatest {n | 4 ≤ n ∧ n ≤ 7 ∧ unevenLines.isBoundary n} (map.offset ⟨2, 3⟩) ∧
      map.offset ⟨2, 3⟩ = 4 ∧ map.lineAt (map.offset ⟨2, 3⟩) = 2 ∧
      map.offset ⟨7, 1⟩ = unevenLines.bytes := by
  intro map
  have hline : unevenLines.lines[2]? = some ⟨2, 4, "😀x".toList⟩ := by cbv
  have hpast : map.starts.length ≤ 7 := by decide +kernel
  obtain ⟨-, hlines, -, -, hpositions⟩ := ofText_maps_lines unevenLines
  obtain ⟨-, hstart, htext, -⟩ := hlines 2 _ hline
  obtain ⟨hgreatest, hlineAt⟩ := (hpositions ⟨2, 3⟩).2.2 _ hline
  exact ⟨⟨hline, hpast⟩, hstart, htext, hgreatest, by decide +kernel, hlineAt,
    (hpositions ⟨7, 1⟩).2.1 hpast⟩

end LineMap

end ManifestAssist
