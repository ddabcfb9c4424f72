import ManifestAssist.Proofs.Outline.Enclosure
import ManifestAssist.Proofs.Text.Cut

/-! # Labels within a line

Ahead of a label stand spaces and list markers alone, so its column is a boundary of the line. A
line that declares nothing can have its content at a column that it does not reach.
-/

namespace ManifestAssist

open Text

namespace Outline

variable {line text : Text} {label : String} {column : Nat}

theorem bytes_replicate_space (n : Nat) : bytes (List.replicate n ' ') = n := by
  have hsize : Char.utf8Size ' ' = 1 := by decide
  induction n with
  | zero => rfl
  | succ n ih =>
    simp only [List.replicate_succ, bytes, width_cons, hsize] at ih ⊢
    omega

theorem takeWhile_isSpace (text : Text) :
    text.takeWhile isSpace = List.replicate (leadingSpaces text) ' ' :=
  List.eq_replicate_of_mem fun c hc => by simpa [isSpace] using List.mem_takeWhile_imp hc

theorem bytes_takeWhile_isSpace (text : Text) :
    bytes (text.takeWhile isSpace) = leadingSpaces text := by
  rw [takeWhile_isSpace, bytes_replicate_space]

theorem exists_append_dropSpaces (text : Text) :
    ∃ front, text = front ++ dropSpaces text ∧ front.bytes = leadingSpaces text :=
  ⟨text.takeWhile isSpace, List.takeWhile_append_dropWhile.symm, bytes_takeWhile_isSpace text⟩

theorem eq_hyphen_cons_tail (h : startsWithMarker text) : text = '-' :: text.tail := by
  fun_cases startsWithMarker text with
  | case1 => rfl
  | case2 => rfl
  | case3 => simp [startsWithMarker] at h

theorem eq_leadingSpaces_of_indent? {indent : Nat} (h : indent? line = some indent) :
    indent = leadingSpaces line := by
  unfold indent? at h
  split at h
  · cases h
  · split at h
    · cases h
    · exact (Option.some.inj h).symm

theorem dropMarkers_isSuffix (text : Text) : dropMarkers text <:+ text := by
  fun_induction dropMarkers text with
  | case1 text h ih =>
    calc dropMarkers (dropSpaces text.tail) <:+ dropSpaces text.tail := ih
      _ <:+ text.tail := List.dropWhile_suffix _
      _ <:+ text := List.tail_suffix _
  | case2 => exact List.suffix_refl _

theorem exists_append_dropMarkers (column : Nat) (h : ¬ (dropMarkers text).all isBlank) :
    ∃ front, text = front ++ dropMarkers text ∧
      columnBehindMarkers column text = column + front.bytes := by
  fun_induction columnBehindMarkers column text with
  | case1 column text hmarker gap rest hblank =>
    rw [dropMarkers, if_pos hmarker] at h
    refine absurd (List.all_eq_true.mpr fun c hc => ?_) h
    exact List.all_eq_true.mp hblank c ((dropMarkers_isSuffix rest).subset hc)
  | case2 column text hmarker gap rest hblank ih =>
    rw [dropMarkers, if_pos hmarker] at h ⊢
    obtain ⟨front, happend, hcolumn⟩ := ih h
    obtain ⟨spaces, hspaces, hbytes⟩ := exists_append_dropSpaces text.tail
    refine ⟨'-' :: spaces ++ front, ?_, ?_⟩
    · rw [List.append_assoc, ← happend, List.cons_append, ← hspaces]
      exact eq_hyphen_cons_tail hmarker
    · have hsize : Char.utf8Size '-' = 1 := by decide
      rw [hcolumn, bytes_append]
      simp only [bytes, width_cons, hsize] at hbytes ⊢
      omega
  | case3 column text hmarker =>
    rw [dropMarkers, if_neg hmarker]
    exact ⟨[], rfl, rfl⟩

/-- Content is at a boundary of its line. -/
theorem exists_append_content {content : Nat} (hc : contentColumn? line = some content)
    (h : ¬ (Outline.content line).all isBlank) :
    ∃ front, line = front ++ Outline.content line ∧ front.bytes = content := by
  obtain ⟨indent, hi, rfl⟩ := contentColumn?_eq_some_iff.mp hc
  obtain ⟨spaces, hspaces, hbytes⟩ := exists_append_dropSpaces line
  obtain ⟨markers, hmarkers, hcolumn⟩ := exists_append_dropMarkers indent h
  refine ⟨spaces ++ markers, ?_, ?_⟩
  · rw [List.append_assoc, Outline.content, ← hmarkers, ← hspaces]
  · rw [hcolumn, bytes_append, hbytes, eq_leadingSpaces_of_indent? hi]

theorem not_all_isBlank_content {key rest : Text}
    (h : splitFirst ':' (Outline.content line) = some (key, rest)) :
    ¬ (Outline.content line).all isBlank := by
  intro hall
  have hcolon := List.all_eq_true.mp hall ':' (by simp [splitFirst_eq_some h])
  revert hcolon
  decide

theorem exists_append_of_declares {line : Line} (h : line.declares label) :
    ∃ front rest, line.text = front ++ rest ∧ front.bytes = line.labelColumn := by
  cases hc : line.contentColumn? with
  | none => exact ⟨[], line.text, rfl, by simp [Line.labelColumn, hc]⟩
  | some content =>
    obtain ⟨⟨key, rest⟩, hkey, -⟩ := Option.map_eq_some_iff.mp (Line.declares_iff.mp h)
    obtain ⟨front, hfront, hbytes⟩ := exists_append_content hc (not_all_isBlank_content hkey)
    exact ⟨front, _, hfront, by simp [Line.labelColumn, hc, hbytes]⟩

theorem labelColumn_le_bytes {line : Line} (h : line.declares label) :
    line.labelColumn ≤ line.text.bytes := by
  obtain ⟨front, rest, htext, hbytes⟩ := exists_append_of_declares h
  rw [htext, ← hbytes]
  exact bytes_le_bytes_append front rest

end Outline

end ManifestAssist
