import Mathlib
import ManifestAssist.Text.Part

/-! # Texts split at a character

The first occurrence of a character splits a text in two. What stands ahead of it is without the
character, and so is the front of a text that ends there or does not have it at all.
-/

namespace ManifestAssist.Text

variable {sep : Char} {text before after part : Text}

theorem splitFirst_eq_some_iff :
    splitFirst sep text = some (before, after) ↔ sep ∉ before ∧ text = before ++ sep :: after := by
  induction text generalizing before with
  | nil => simp [splitFirst]
  | cons c cs ih =>
    rw [splitFirst]
    split
    · next hc =>
      subst hc
      cases before with
      | nil => simp [eq_comm]
      | cons b bs => grind
    · next hc =>
      cases before with
      | nil => simp [hc]
      | cons b bs => grind [Option.map_eq_some_iff]

theorem splitFirst_eq_some (h : splitFirst sep text = some (before, after)) :
    text = before ++ sep :: after :=
  (splitFirst_eq_some_iff.mp h).2

theorem splitFirst_append_cons (h : sep ∉ before) (after : Text) :
    splitFirst sep (before ++ sep :: after) = some (before, after) :=
  splitFirst_eq_some_iff.mpr ⟨h, rfl⟩

theorem fst_getD_splitFirst (text : Text) :
    ((splitFirst sep text).getD (text, [])).1 = text.takeWhile (· != sep) := by
  induction text with
  | nil => rfl
  | cons c cs ih =>
    by_cases hc : c = sep
    · simp [splitFirst, hc]
    · rw [List.takeWhile_cons_of_pos (by simpa using hc), ← ih]
      cases hsplit : splitFirst sep cs <;> simp [splitFirst, hc, hsplit]

theorem takeWhile_ne_eq_iff :
    text.takeWhile (· != sep) = part ↔
      sep ∉ part ∧ ∃ behind, text = part ++ behind ∧ ∀ c ∈ behind.head?, c = sep := by
  constructor
  · rintro rfl
    refine ⟨fun hmem => by simpa using List.mem_takeWhile_imp hmem, text.dropWhile (· != sep),
      List.takeWhile_append_dropWhile.symm, fun c hc => ?_⟩
    have hnot := List.head?_dropWhile_not (· != sep) text
    rw [Option.mem_def.mp hc] at hnot
    simpa using hnot
  · rintro ⟨hmem, behind, rfl, hbehind⟩
    have hpart : ∀ c ∈ part, c != sep := by
      intro c hc
      apply bne_iff_ne.mpr
      rintro rfl
      exact hmem hc
    rw [List.takeWhile_append_of_pos hpart]
    cases behind with
    | nil => simp
    | cons c cs => simp [hbehind c rfl]

end ManifestAssist.Text
