import ManifestAssist.Proofs.Completion.Places
import ManifestAssist.Proofs.Text.Cut

/-! # Matches of a query in a label

A label matches if the query is a subsequence of it. The ways to match exclude each other: each is
described by what a query and a label have to do with each other, and the one that is told is the
one whose description holds.
-/

namespace ManifestAssist.Match

open Text

/-- What each way to match says about a query and a label. -/
def Describes (query label : Text) : Match → Prop
  | exact => label = query
  | front length => query <+: label ∧ label ≠ query ∧ length = label.length
  | within offset length =>
    IsLeast {n | ∃ before after, label = before ++ query ++ after ∧ before.bytes = n} offset ∧
      ¬ query <+: label ∧ length = label.length
  | scattered score =>
    (∃ places, IsLeftmost query label places ∧ score.Measures label places) ∧ ¬ query <:+: label

variable {query label : Text} {found : Match}

theorem isLeast_of_splitAtFirst {before after : Text}
    (h : splitAtFirst query label = some (before, after)) :
    IsLeast {n | ∃ before after, label = before ++ query ++ after ∧ before.bytes = n}
      before.bytes := by
  refine ⟨⟨before, after, splitAtFirst_eq_some h, rfl⟩, ?_⟩
  rintro n ⟨before', after', hlabel, rfl⟩
  obtain ⟨between, rfl⟩ := isPrefix_of_splitAtFirst h hlabel
  exact bytes_le_bytes_append before between

theorem nil_of_splitAtFirst_of_isPrefix {before after : Text}
    (h : splitAtFirst query label = some (before, after)) (hfront : query <+: label) :
    before = [] := by
  obtain ⟨back, hback⟩ := hfront
  have hlabel : label = [] ++ query ++ back := hback.symm
  exact List.prefix_nil.mp (isPrefix_of_splitAtFirst h hlabel)

theorem ne_nil_of_not_isPrefix {before after : Text}
    (h : splitAtFirst query label = some (before, after)) (hfront : ¬ query <+: label) :
    before ≠ [] := by
  rintro rfl
  exact hfront ⟨after, (splitAtFirst_eq_some h).symm⟩

theorem of?_of_splitAtFirst {before after : Text} (hne : label ≠ query)
    (h : splitAtFirst query label = some (before, after)) :
    of? query label =
      some (if before = [] then front label.length else within before.bytes label.length) := by
  rw [of?, if_neg hne, h]
  cases before <;> rfl

theorem of?_of_not_isInfix (h : ¬ query <:+: label) :
    of? query label = (Score.of? query label).map scattered := by
  have hne : label ≠ query := by
    rintro rfl
    exact h List.infix_rfl
  rw [of?, if_neg hne, splitAtFirst_eq_none h]

theorem describes_of_of? (h : of? query label = some found) : found.Describes query label := by
  by_cases heq : label = query
  · rw [of?, if_pos heq] at h
    obtain rfl := Option.some.inj h
    exact heq
  · by_cases hinfix : query <:+: label
    · obtain ⟨before, after, hsplit⟩ := exists_splitAtFirst_eq_some hinfix
      rw [of?_of_splitAtFirst heq hsplit] at h
      obtain rfl := Option.some.inj h
      split
      · next hnil =>
        subst hnil
        exact ⟨⟨after, (splitAtFirst_eq_some hsplit).symm⟩, heq, rfl⟩
      · next hne =>
        exact ⟨isLeast_of_splitAtFirst hsplit,
          fun hfront => hne (nil_of_splitAtFirst_of_isPrefix hsplit hfront), rfl⟩
    · rw [of?_of_not_isInfix hinfix] at h
      obtain ⟨score, hscore, rfl⟩ := Option.map_eq_some_iff.mp h
      exact ⟨Score.of?_eq_some_iff.mp hscore, hinfix⟩

theorem Describes.of?_eq (h : found.Describes query label) : of? query label = some found := by
  cases found with
  | exact => exact if_pos h
  | front length =>
    obtain ⟨hfront, hne, rfl⟩ := h
    obtain ⟨before, after, hsplit⟩ := exists_splitAtFirst_eq_some hfront.isInfix
    rw [of?_of_splitAtFirst hne hsplit, if_pos (nil_of_splitAtFirst_of_isPrefix hsplit hfront)]
  | within offset length =>
    obtain ⟨hleast, hfront, rfl⟩ := h
    obtain ⟨before', after', hlabel, -⟩ := hleast.1
    have hne : label ≠ query := by
      rintro rfl
      exact hfront (List.prefix_refl _)
    obtain ⟨before, after, hsplit⟩ := exists_splitAtFirst_eq_some ⟨before', after', hlabel.symm⟩
    rw [of?_of_splitAtFirst hne hsplit, if_neg (ne_nil_of_not_isPrefix hsplit hfront),
      (isLeast_of_splitAtFirst hsplit).unique hleast]
  | scattered score =>
    obtain ⟨hscore, hinfix⟩ := h
    rw [of?_of_not_isInfix hinfix, Score.of?_eq_some_iff.mpr hscore]
    rfl

/-- So exactly one description holds of a label that matches, and none of any other. -/
theorem of?_eq_some_iff : of? query label = some found ↔ found.Describes query label :=
  ⟨describes_of_of?, Describes.of?_eq⟩

theorem isSome_of?_iff : (of? query label).isSome ↔ query.Sublist label := by
  by_cases hinfix : query <:+: label
  · have hsome : (of? query label).isSome := by
      by_cases heq : label = query
      · rw [of?, if_pos heq]
        rfl
      · obtain ⟨before, after, hsplit⟩ := exists_splitAtFirst_eq_some hinfix
        rw [of?_of_splitAtFirst heq hsplit]
        rfl
    simp [hsome, hinfix.sublist]
  · have hquery : query ≠ [] := by
      rintro rfl
      exact hinfix List.nil_infix
    rw [of?_of_not_isInfix hinfix, Option.isSome_map, Score.isSome_of?_iff]
    simp [hquery]

end ManifestAssist.Match
