import ManifestAssist.Outline.Block
import ManifestAssist.Proofs.Text.Split
import ManifestAssist.Proofs.Text.Trim

/-! # Columns and labels of a line

A line that counts has its content at its first character or, behind a list marker, right of it.
Its label declares a block unless white space other than spaces stands in front of the key.
-/

namespace ManifestAssist

open Text

namespace Outline

variable {line : Text} {c : Char} {cs : Text} {indent column marker content : Nat}

theorem not_isBlank_isSpace (h : ¬ isBlank c) : ¬ isSpace c := by
  intro hs
  obtain rfl : c = ' ' := by simpa [isSpace] using hs
  exact h (by decide)

theorem leadingSpaces_replicate_append (h : ¬ isBlank c) :
    leadingSpaces (List.replicate indent ' ' ++ c :: cs) = indent := by
  rw [leadingSpaces, List.takeWhile_append_of_pos (by simp [isSpace]),
    List.takeWhile_cons_of_neg (not_isBlank_isSpace h)]
  simp

theorem dropSpaces_replicate_append (h : ¬ isBlank c) :
    dropSpaces (List.replicate indent ' ' ++ c :: cs) = c :: cs := by
  rw [dropSpaces, List.dropWhile_append_of_pos (by simp [isSpace]),
    List.dropWhile_cons_of_neg (not_isBlank_isSpace h)]

theorem not_startsWithMarker_cons (h : c ≠ '-') : ¬ startsWithMarker (c :: cs) := by
  unfold startsWithMarker
  split <;> simp_all

theorem startsWithMarker_hyphen_space : startsWithMarker ('-' :: ' ' :: cs) := rfl

theorem columnBehindMarkers_of_not_marker {text : Text} (h : ¬ startsWithMarker text) :
    columnBehindMarkers column text = column := by
  rw [columnBehindMarkers, if_neg h]

theorem le_columnBehindMarkers (column : Nat) (text : Text) :
    column ≤ columnBehindMarkers column text := by
  fun_induction columnBehindMarkers column text <;> omega

theorem lt_columnBehindMarkers {text : Text} (h : startsWithMarker text) :
    column < columnBehindMarkers column text := by
  rw [columnBehindMarkers, if_pos h]
  dsimp only
  split
  · omega
  · exact Nat.lt_of_lt_of_le (by omega) (le_columnBehindMarkers ..)

theorem contentColumn?_eq_some_iff :
    contentColumn? line = some content ↔
      ∃ indent, indent? line = some indent ∧
        columnBehindMarkers indent (dropSpaces line) = content := by
  cases h : indent? line <;> simp [contentColumn?, h]

theorem marker?_eq_some_iff :
    marker? line = some marker ↔
      indent? line = some marker ∧ startsWithMarker (dropSpaces line) = true := by
  cases h : indent? line <;> simp [marker?, h, and_comm]

theorem marker?_eq_none_iff :
    marker? line = none ↔ indent? line = none ∨ startsWithMarker (dropSpaces line) = false := by
  cases h : indent? line <;> simp [marker?, h]

theorem contentColumn?_eq_none_iff : contentColumn? line = none ↔ indent? line = none := by
  cases h : indent? line <;> simp [contentColumn?, h]

theorem isSome_contentColumn? : (contentColumn? line).isSome = isSignificant line := by
  cases h : indent? line <;> simp [contentColumn?, isSignificant, h]

theorem indent?_of_marker?_eq_none (hm : marker? line = none)
    (hc : contentColumn? line = some content) : indent? line = some content := by
  obtain ⟨indent, hi, rfl⟩ := contentColumn?_eq_some_iff.mp hc
  rcases marker?_eq_none_iff.mp hm with h | h
  · simp [h] at hi
  · rw [columnBehindMarkers_of_not_marker (by simp [h]), hi]

theorem marker?_lt_contentColumn? (hm : marker? line = some marker)
    (hc : contentColumn? line = some content) : marker < content := by
  obtain ⟨hi, hs⟩ := marker?_eq_some_iff.mp hm
  obtain ⟨indent, hi', rfl⟩ := contentColumn?_eq_some_iff.mp hc
  obtain rfl : marker = indent := by simpa [hi] using hi'
  exact lt_columnBehindMarkers hs

/-- A line whose content is right of a label ends the block of that label only by a marker left of
it. -/
theorem exits_iff_marker?_lt {line : Line} (hc : line.contentColumn? = some content)
    (h : column < content) :
    exits column line ↔ ∃ marker, line.marker? = some marker ∧ marker < column := by
  cases hm : line.marker? with
  | none =>
    have hi : line.indent? = some content := indent?_of_marker?_eq_none hm hc
    simp [exits, hi]
    omega
  | some marker =>
    have hi : line.indent? = some marker := (marker?_eq_some_iff.mp hm).1
    simp [exits, hi, hm]

section Label

variable {key rest : Text} {label : String}

theorem length_unquote_le (key : Text) : (unquote key).length ≤ key.length := by
  have h (quote : Char) {inner : Text} (h : betweenQuotes? quote key = some inner) :
      inner.length ≤ key.length := by
    simp only [betweenQuotes?, Option.bind_eq_bind, Option.bind_eq_some_iff, dropFront?_eq_some,
      dropBack?_eq_some] at h
    obtain ⟨rest, rfl, rfl⟩ := h
    simp
    omega
  unfold unquote
  cases hd : betweenQuotes? '"' key with
  | some inner => simpa using h _ hd
  | none =>
    cases hs : betweenQuotes? '\'' key with
    | some inner => simpa [hs] using h _ hs
    | none => simp

theorem unquote_cons (hdouble : c ≠ '"') (hsingle : c ≠ '\'') : unquote (c :: cs) = c :: cs := by
  simp [unquote, betweenQuotes?, dropFront?, hdouble, hsingle]

theorem unquote_of_blank (hc : isBlank c) (key : Text) : unquote (c :: key) = c :: key := by
  apply unquote_cons
  · rintro rfl
    exact absurd hc (by decide)
  · rintro rfl
    exact absurd hc (by decide)

theorem label?_eq_some_iff :
    label? line = some label ↔
      ∃ key rest, splitFirst ':' (Outline.content line) = some (key, rest) ∧
        unquote (trim key) ≠ [] ∧ String.ofList (unquote (trim key)) = label := by
  rcases h : splitFirst ':' (Outline.content line) with _ | ⟨key, rest⟩ <;> simp [label?, h]

theorem declares_iff_of_label?_eq_some (h : label? line = some label) :
    declares line label ↔ ∀ c, (Outline.content line).head? = some c → ¬ isBlank c := by
  obtain ⟨key, rest, hkey, hne, rfl⟩ := label?_eq_some_iff.mp h
  have htrim : trim key ≠ [] := by
    intro h
    exact hne (by rw [h]; rfl)
  have hcontent := splitFirst_eq_some hkey
  have hdeclares : declares line (String.ofList (unquote (trim key))) ↔
      unquote (trimEnd key) = unquote (trim key) := by
    simp [declares, hkey, String.ofList_inj]
  rw [hdeclares]
  cases key with
  | nil => exact absurd rfl htrim
  | cons c cs =>
    simp only [hcontent, List.cons_append, List.head?_cons, Option.some.injEq, forall_eq']
    have happend := trimEnd_eq_append_trim htrim
    cases hc : isBlank c with
    | true =>
      simp only [List.takeWhile_cons, hc, ↓reduceIte, List.cons_append] at happend
      have hlength := length_unquote_le (trim (c :: cs))
      simp only [not_true_eq_false, iff_false]
      intro heq
      rw [happend, unquote_of_blank hc] at heq
      have := congrArg List.length heq
      simp only [List.length_cons, List.length_append] at this
      omega
    | false =>
      simp only [List.takeWhile_cons, hc, Bool.false_eq_true, ↓reduceIte, List.nil_append]
        at happend
      simp [happend]

theorem trim_ne_nil_of_isSignificant (hs : isSignificant line) : trim line ≠ [] := by
  intro htrim
  have hspaces : ∀ c ∈ dropSpaces line, isBlank c := fun c hc =>
    trim_eq_nil_iff.mp htrim c ((List.dropWhile_suffix _).subset hc)
  have hend : trimEnd (dropSpaces line) = [] := trimEnd_eq_nil_iff.mpr hspaces
  simp [isSignificant, indent?, hend] at hs

theorem eq_hash_cons_or_all_isBlank (hs : ¬ isSignificant line) :
    (∃ rest, dropSpaces line = '#' :: rest) ∨ ∀ c ∈ dropSpaces line, isBlank c := by
  cases htrim : trimEnd (dropSpaces line) with
  | nil =>
    exact .inr (trimEnd_eq_nil_iff.mp htrim)
  | cons c rest =>
    left
    have hc : c = '#' := by simpa [isSignificant, indent?, htrim] using hs
    have hsplit := dropEndWhile_append_takeEndWhile isBlank (dropSpaces line)
    rw [← trimEnd, htrim, hc, List.cons_append] at hsplit
    exact ⟨_, hsplit.symm⟩

theorem not_declares_of_not_isSignificant (hs : ¬ isSignificant line)
    (hlabel : label.toList.head? ≠ some '#') : ¬ declares line label := by
  have hhead : ∀ c, (dropSpaces line).head? = some c → c ≠ '-' := by
    intro c hc
    rcases eq_hash_cons_or_all_isBlank hs with ⟨rest, hhash⟩ | hblank
    · obtain rfl : '#' = c := by simpa [hhash] using hc
      decide
    · rintro rfl
      exact absurd (hblank '-' (List.mem_of_head? hc)) (by decide)
  have hcontent : content line = dropSpaces line := by
    rw [content, dropMarkers, if_neg]
    cases hdrop : dropSpaces line with
    | nil => simp [startsWithMarker]
    | cons c rest => exact not_startsWithMarker_cons (hhead c (by simp [hdrop]))
  unfold declares
  rw [hcontent]
  cases hsplit : splitFirst ':' (dropSpaces line) with
  | none => simp
  | some parts =>
    obtain ⟨key, rest⟩ := parts
    have hkey := splitFirst_eq_some hsplit
    rcases eq_hash_cons_or_all_isBlank hs with ⟨rest', hhash⟩ | hblank
    · cases key with
      | nil => simp [hhash] at hkey
      | cons c key =>
        obtain rfl : '#' = c := by simpa [hhash] using congrArg List.head? hkey
        simp only [trimEnd_cons (show ¬ isBlank '#' by decide),
          unquote_cons (show '#' ≠ '"' by decide) (show '#' ≠ '\'' by decide), beq_iff_eq]
        rintro rfl
        simp at hlabel
    · exact absurd (hblank ':' (by simp [hkey])) (by decide)

end Label

end Outline

end ManifestAssist
