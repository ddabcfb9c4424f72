import ManifestAssist.Proofs.Outline.Alike

/-! # Items by counting

The last declaration up to a line governs the line. The first line that counts behind it tells the
column of the items, and the markers at that column, up to the line, are counted. So the lines ahead
of the declaration play no part, and without another declaration the encoded index goes up by at
most one with each line.
-/

namespace ManifestAssist

open Text Outline

variable {label : String} {column marker d s t : Nat} {line opening first : Line}
  {lines rest : List Line} {text text' : Text}

namespace Outline

instance (label : String) (lines : List Line) (d : Nat) : Decidable (DeclaredAt label lines d) :=
  inferInstanceAs (Decidable (∃ opening ∈ lines[d]?, opening.declares label))

/-- Is line `d` the last one up to line `t` that declares the label? -/
def Governs (label : String) (lines : List Line) (t d : Nat) : Prop :=
  d ≤ t ∧ DeclaredAt label lines d ∧ ∀ k ≤ t, d < k → ¬ DeclaredAt label lines k

instance (label : String) (lines : List Line) (t d : Nat) : Decidable (Governs label lines t d) :=
  inferInstanceAs (Decidable (d ≤ t ∧ DeclaredAt label lines d ∧
    ∀ k ≤ t, d < k → ¬ DeclaredAt label lines k))

/-- Is the first line that counts a list item at or right of a label, with its marker at the given
column? -/
def StartsItems (column marker : Nat) (lines : List Line) : Prop :=
  ∃ first ∈ lines.find? (·.isSignificant), first.marker? = some marker ∧ column ≤ marker

instance (column marker : Nat) (lines : List Line) : Decidable (StartsItems column marker lines) :=
  inferInstanceAs (Decidable (∃ first ∈ lines.find? (·.isSignificant),
    first.marker? = some marker ∧ column ≤ marker))

theorem exists_append_of_firstItem? (h : firstItem? column lines = some (marker, first, rest)) :
    first.marker? = some marker ∧ column ≤ marker ∧
      ∃ skipped, lines = skipped ++ first :: rest ∧ ∀ line ∈ skipped, ¬ line.isSignificant := by
  induction lines with
  | nil => simp [firstItem?] at h
  | cons line lines ih =>
    unfold firstItem? at h
    split at h
    · split at h
      · split at h
        · simp only [Option.some.injEq, Prod.mk.injEq] at h
          obtain ⟨rfl, rfl, rfl⟩ := h
          exact ⟨‹_›, ‹_›, [], rfl, by simp⟩
        · cases h
      · cases h
    · obtain ⟨hm, hle, skipped, rfl, hskipped⟩ := ih h
      exact ⟨hm, hle, line :: skipped, rfl, List.forall_mem_cons.mpr ⟨‹_›, hskipped⟩⟩

theorem find?_isSignificant_of_firstItem?
    (h : firstItem? column lines = some (marker, first, rest)) :
    lines.find? (·.isSignificant) = some first := by
  obtain ⟨hm, -, skipped, rfl, hskipped⟩ := exists_append_of_firstItem? h
  refine List.find?_eq_some_iff_append.mpr
    ⟨isSignificant_of_marker? hm, skipped, rest, rfl, fun line hline => ?_⟩
  simp [hskipped line hline]

theorem startsItems_of_firstItem? (h : firstItem? column lines = some (marker, first, rest)) :
    StartsItems column marker lines := by
  obtain ⟨hm, hle, -⟩ := exists_append_of_firstItem? h
  exact ⟨first, find?_isSignificant_of_firstItem? h, hm, hle⟩

theorem not_startsItems_of_firstItem? (h : firstItem? column lines = none) (marker : Nat) :
    ¬ StartsItems column marker lines := by
  induction lines with
  | nil => simp [StartsItems]
  | cons line lines ih =>
    rintro ⟨first, hfirst, hm, hle⟩
    unfold firstItem? at h
    split at h
    · rename_i hs
      obtain rfl : line = first := by simpa [hs] using hfirst
      simp [hm, hle] at h
    · rename_i hs
      exact ih h ⟨first, by simpa [hs] using hfirst, hm, hle⟩

end Outline

namespace ItemScan

end ItemScan

namespace Outline

end Outline

end ManifestAssist
