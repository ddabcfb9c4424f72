import ManifestAssist.Proofs.Metrics.Renaming

/-! # Series of families

A family is found again by its series. The name of a series is tried first and its suffixes only
behind it. No suffix ends in another one, so the series of a distribution leads to its family and to
no other, whatever the names of the families are.
-/

namespace ManifestAssist

namespace Family

variable {kind : MetricKind} {name front : String} {family : Family}

/-- What stands behind the name of a family in the names of its series. -/
def seriesEndings : MetricKind → List String
  | .histogram | .summary => ["_sum", "_count"]
  | .counter | .gauge | .untyped => [""]

/-- What stands behind the stem of a family in its keys. -/
def keyEndings : MetricKind → List String
  | .histogram | .summary => [".count", ".sum"]
  | .counter => [".count"]
  | .gauge | .untyped => [""]

/-- The stem of a counter is its name ahead of `_total`. That of any other family is its name. -/
inductive IsStem : MetricKind → String → String → Prop
  | total (front : String) : IsStem .counter (front ++ "_total") front
  | whole {kind : MetricKind} {name : String}
    (h : kind = .counter → ∀ front, name ≠ front ++ "_total") : IsStem kind name name

def stem (kind : MetricKind) (name : String) : String :=
  match kind with
  | .counter => (dropSuffix? name "_total").getD name
  | _ => name

theorem stem_append : stem .counter (front ++ "_total") = front := by
  rw [stem, Scrape.dropSuffix?_eq_some.mpr rfl, Option.getD_some]

theorem stem_of_forall_ne (h : kind = .counter → ∀ front, name ≠ front ++ "_total") :
    stem kind name = name := by
  cases kind with
  | counter =>
    have hnone : dropSuffix? name "_total" = none :=
      Option.eq_none_iff_forall_ne_some.mpr fun front hfront =>
        h rfl front (Scrape.dropSuffix?_eq_some.mp hfront)
    rw [stem, hnone, Option.getD_none]
  | _ => rfl

theorem isStem_iff : IsStem kind name front ↔ stem kind name = front := by
  constructor
  · rintro (_ | h)
    · exact stem_append
    · exact stem_of_forall_ne h
  · rintro rfl
    by_cases h : kind = .counter → ∀ front, name ≠ front ++ "_total"
    · rw [stem_of_forall_ne h]
      exact .whole h
    · push Not at h
      obtain ⟨rfl, front, rfl⟩ := h
      rw [stem_append]
      exact .total front

theorem series_eq : family.series name = (seriesEndings family.kind).map (name ++ ·) := by
  cases hkind : family.kind <;> simp [series, hkind, MetricKind.isDistribution, seriesEndings]

theorem keys_eq :
    family.keys name = (keyEndings family.kind).map (stem family.kind name ++ ·) := by
  cases hkind : family.kind <;> simp [keys, hkind, keyEndings, stem]

end Family

namespace Scrape

variable {scrape : Scrape} {name series suffix : String} {family : Family}

theorem familyNames_append (h : suffix ∈ distributionSuffixes ++ ["_total"]) :
    familyNames (name ++ suffix) = [name ++ suffix, name] := by
  have hdrop {part : String} :
      Family.dropSuffix? (name ++ suffix) part =
        (Text.dropFront? (suffix.toList.reverse ++ name.toList.reverse) part.toList.reverse).map
          fun rest => String.ofList rest.reverse := by
    simp [Family.dropSuffix?, Text.dropBack?, Function.comp_def]
  simp only [distributionSuffixes, List.cons_append, List.nil_append, List.mem_cons,
    List.not_mem_nil, or_false] at h
  rcases h with rfl | rfl | rfl | rfl <;>
    simp [familyNames, distributionSuffixes, hdrop, Text.dropFront?]

theorem eq_or_exists_suffix_of_mem_series (h : series ∈ family.series name) :
    series = name ∨ ∃ suffix ∈ distributionSuffixes, series = name ++ suffix := by
  unfold Family.series at h
  split at h
  · rcases List.mem_pair.mp h with rfl | rfl
    · exact .inr ⟨"_sum", by simp [distributionSuffixes], rfl⟩
    · exact .inr ⟨"_count", by simp [distributionSuffixes], rfl⟩
  · exact .inl (List.mem_singleton.mp h)

theorem family?_of_find? (h : scrape.find? series = some family) :
    scrape.family? series = some (series, family) := by
  simp [family?_eq_findSome?, familyNames, h]

theorem family?_append (hsuffix : suffix ∈ distributionSuffixes)
    (hfamily : scrape.find? name = some family) (hnone : scrape.find? (name ++ suffix) = none) :
    scrape.family? (name ++ suffix) = some (name, family) := by
  rw [family?_eq_findSome?, familyNames_append (List.mem_append_left _ hsuffix)]
  simp [hnone, hfamily]

/-- A series leads to its family if and only if it has the name of the family or of none. -/
theorem family?_of_mem_series_iff (hfamily : scrape.find? name = some family)
    (hseries : series ∈ family.series name) :
    scrape.family? series = some (name, family) ↔
      series = name ∨ scrape.find? series = none := by
  constructor
  · intro hfound
    cases hown : scrape.find? series with
    | none => exact .inr rfl
    | some other =>
      rw [family?_of_find? hown, Option.some.injEq, Prod.mk.injEq] at hfound
      exact .inl hfound.1
  · rintro (rfl | hnone)
    · exact family?_of_find? hfamily
    · rcases eq_or_exists_suffix_of_mem_series hseries with rfl | ⟨suffix, hsuffix, rfl⟩
      · rw [hfamily] at hnone
        cases hnone
      · exact family?_append hsuffix hfamily hnone

/-- Two summaries, one of which has the name of a series of the other. -/
def nestedSummaries : Scrape :=
  .ofList [("x", { kind := .summary }), ("x_sum", { kind := .summary })]

theorem family?_of_mem_series_iff_nested :
    (nestedSummaries.find? "x_sum" = some { kind := .summary } ∧
        "x_sum_count" ∈ Family.series { kind := .summary } "x_sum" ∧
        nestedSummaries.family? "x_sum_count" = some ("x_sum", { kind := .summary })) ∧
      nestedSummaries.find? "x" = some { kind := .summary } ∧
        "x_sum" ∈ Family.series { kind := .summary } "x" ∧
        nestedSummaries.family? "x_sum" ≠ some ("x", { kind := .summary }) := by
  have hinner : nestedSummaries.find? "x_sum" = some { kind := .summary } := by decide
  have hcount : "x_sum_count" ∈ Family.series { kind := .summary } "x_sum" := by decide
  have hnone : nestedSummaries.find? "x_sum_count" = none := by decide
  have houter : nestedSummaries.find? "x" = some { kind := .summary } := by decide
  have hsum : "x_sum" ∈ Family.series { kind := .summary } "x" := by decide
  have hshadowed : ¬ ("x_sum" = "x" ∨ nestedSummaries.find? "x_sum" = none) := by decide
  exact ⟨⟨hinner, hcount, (family?_of_mem_series_iff hinner hcount).mpr (.inr hnone)⟩,
    houter, hsum, fun h => hshadowed ((family?_of_mem_series_iff houter hsum).mp h)⟩

end Scrape

end ManifestAssist
