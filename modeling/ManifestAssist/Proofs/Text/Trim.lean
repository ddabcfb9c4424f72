import Mathlib
import ManifestAssist.Text.Blank

/-! # Trimmed texts

A text is trimmed already if neither of its ends is to go, and trimming takes all of a text only if
all of it is to go.
-/

namespace ManifestAssist.Text

variable {p : Char → Bool} {text : Text} {c : Char}

theorem dropWhile_append_of_ne_nil (h : text.dropWhile p ≠ []) (more : Text) :
    (text ++ more).dropWhile p = text.dropWhile p ++ more := by
  rw [List.dropWhile_append, if_neg (by simpa using h)]

theorem dropEndWhile_eq_self (hlast : ∀ c ∈ text.getLast?, ¬ p c) : dropEndWhile p text = text :=
  List.rdropWhile_eq_self_iff.mpr fun hne => hlast _ (List.getLast?_eq_some_getLast hne)

theorem trimWhile_eq_self (hhead : ∀ c ∈ text.head?, ¬ p c) (hlast : ∀ c ∈ text.getLast?, ¬ p c) :
    trimWhile p text = text := by
  have hfront : text.dropWhile p = text := by
    cases text with
    | nil => rfl
    | cons c text => exact List.dropWhile_cons_of_neg (hhead c rfl)
  rw [trimWhile, hfront, dropEndWhile_eq_self hlast]

theorem trimWhile_eq_self_of_forall (h : ∀ c ∈ text, ¬ p c) : trimWhile p text = text :=
  trimWhile_eq_self (fun c hc => h c (List.mem_of_mem_head? hc))
    fun c hc => h c (List.mem_of_getLast? hc)

theorem trimEnd_cons (h : ¬ isBlank c) : trimEnd (c :: text) = c :: trimEnd text := by
  rw [trimEnd, dropEndWhile, List.reverse_cons, List.dropWhile_append]
  split
  · next hnil =>
    have hnil : text.reverse.dropWhile isBlank = [] := by simpa using hnil
    simp [trimEnd, dropEndWhile, hnil, h]
  · simp [trimEnd, dropEndWhile]

theorem trimEnd_eq_append_trim (h : trim text ≠ []) :
    trimEnd text = text.takeWhile isBlank ++ trim text := by
  have hne : (text.dropWhile isBlank).reverse.dropWhile isBlank ≠ [] := by
    simpa [trim, trimWhile, dropEndWhile] using h
  have hsplit : text.reverse =
      (text.dropWhile isBlank).reverse ++ (text.takeWhile isBlank).reverse := by
    rw [← List.reverse_append, List.takeWhile_append_dropWhile]
  rw [trimEnd, dropEndWhile, hsplit, dropWhile_append_of_ne_nil hne]
  simp [trim, trimWhile, dropEndWhile]

/-- Only white space stands around what is left of a text that is trimmed. -/
theorem takeWhile_append_trim_append (h : trim text ≠ []) :
    text.takeWhile isBlank ++ trim text ++ text.takeEndWhile isBlank = text := by
  rw [← trimEnd_eq_append_trim h]
  exact dropEndWhile_append_takeEndWhile isBlank text

theorem exists_mem_head?_trim (h : trim text ≠ []) : ∃ c ∈ (trim text).head?, ¬ isBlank c := by
  obtain ⟨c, rest, htrim⟩ := List.exists_cons_of_ne_nil h
  have hsplit : trim text ++ takeEndWhile isBlank (text.dropWhile isBlank) =
      text.dropWhile isBlank := dropEndWhile_append_takeEndWhile ..
  have hnot := List.head?_dropWhile_not isBlank text
  rw [← hsplit, htrim] at hnot
  exact ⟨c, by simp [htrim], by simpa using hnot⟩

theorem exists_mem_getLast?_trim (h : trim text ≠ []) :
    ∃ c ∈ (trim text).getLast?, ¬ isBlank c := by
  have hnot := List.head?_dropWhile_not isBlank (text.dropWhile isBlank).reverse
  rw [trim, trimWhile, dropEndWhile] at h ⊢
  obtain ⟨c, rest, hdrop⟩ := List.exists_cons_of_ne_nil (mt List.reverse_eq_nil_iff.mpr h)
  rw [hdrop] at hnot
  exact ⟨c, by simp [hdrop], by simpa using hnot⟩

theorem trim_eq_nil_iff : trim text = [] ↔ ∀ c ∈ text, isBlank c := by
  simp only [trim, trimWhile, dropEndWhile, List.reverse_eq_nil_iff, List.dropWhile_eq_nil_iff,
    List.mem_reverse]
  constructor
  · intro hback
    have hnil : text.dropWhile isBlank = [] := by
      rw [← List.dropWhile_idempotent]
      exact List.dropWhile_eq_nil_iff.mpr hback
    exact List.dropWhile_eq_nil_iff.mp hnil
  · exact fun hall c hc => hall c ((List.dropWhile_suffix _).subset hc)

theorem trimEnd_eq_nil_iff : trimEnd text = [] ↔ ∀ c ∈ text, isBlank c := by
  simp [trimEnd, dropEndWhile, List.dropWhile_eq_nil_iff]

theorem trimEnd_eq_trim (h : (∃ c ∈ text.head?, isBlank c) → trim text = []) :
    trimEnd text = trim text := by
  cases text with
  | nil => rfl
  | cons c cs =>
    by_cases hblank : isBlank c
    · have htrim := h ⟨c, rfl, hblank⟩
      rw [htrim, trimEnd_eq_nil_iff]
      exact trim_eq_nil_iff.mp htrim
    · simp [trim, trimWhile, trimEnd, hblank]

theorem trimEnd_append_of_forall {back : Text} (h : ∀ c ∈ back, isBlank c) :
    trimEnd (text ++ back) = trimEnd text := by
  have hback : back.reverse.dropWhile isBlank = [] := by
    simpa [List.dropWhile_eq_nil_iff] using h
  rw [trimEnd, dropEndWhile, List.reverse_append, List.dropWhile_append, hback]
  rfl

theorem trimEnd_append {back : Text} (h : ∃ c ∈ back, ¬ isBlank c) :
    trimEnd (text ++ back) = text ++ trimEnd back := by
  have hback : back.reverse.dropWhile isBlank ≠ [] := by
    simpa [List.dropWhile_eq_nil_iff] using h
  rw [trimEnd, dropEndWhile, List.reverse_append, dropWhile_append_of_ne_nil hback,
    List.reverse_append, List.reverse_reverse]
  rfl

end ManifestAssist.Text
