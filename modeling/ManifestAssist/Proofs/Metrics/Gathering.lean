import ManifestAssist.Proofs.Metrics.Labels
import ManifestAssist.Proofs.Metrics.Renaming

/-! # Labels gathered from an exposition

A sample adds its labels to one family, a counter that is renamed takes its labels along, and no
other line changes any. So whatever the order of the lines is, no label of a sample is lost, none
comes from elsewhere, and each family has a label once.
-/

namespace ManifestAssist

open Text

variable {label name series : String}

/-- The labels that a line shows. -/
def Exposition.labels : Exposition → List String
  | sample _ labels => labels
  | _ => []

/-- Has the label a sample in the text? -/
def Exposition.IsSampled (text : Text) (label : String) : Prop :=
  ∃ line ∈ splitAll '\n' text, ∃ series labels,
    ofLine? line = some (.sample series labels) ∧ label ∈ labels

theorem Exposition.isSampled_iff {text : Text} :
    IsSampled text label ↔ ∃ line ∈ (splitAll '\n' text).filterMap ofLine?, label ∈ line.labels := by
  constructor
  · rintro ⟨line, hline, series, labels, hread, hlabel⟩
    exact ⟨_, List.mem_filterMap.mpr ⟨line, hline, hread⟩, hlabel⟩
  · rintro ⟨told, htold, hlabel⟩
    obtain ⟨line, hline, hread⟩ := List.mem_filterMap.mp htold
    cases told with
    | help name help => cases hlabel
    | kind name kind => cases hlabel
    | sample series labels => exact ⟨line, hline, series, labels, hread, hlabel⟩

theorem Family.isOwnLabel_iff : Family.isOwnLabel label ↔ label ∉ ["le", "quantile"] := by
  simp [isOwnLabel, partLabels]

theorem Family.labels_addLabels_of_nodup {family : Family} (h : family.labels.Nodup)
    (labels : List String) :
    (family.addLabels labels).labels =
      (family.labels ++ labels.filter Family.isOwnLabel).eraseDups :=
  labels_addLabels (eraseDups_eq_self h).symm labels

namespace Scrape

variable {scrape : Scrape} {family : Family}

/-- The labels of a family, which are none if it is not known. -/
def labels (scrape : Scrape) (name : String) : List String :=
  ((scrape.find? name).getD {}).labels

/-- Has each family a label at most once? -/
def LabelsOnce (scrape : Scrape) : Prop :=
  ∀ name, (scrape.labels name).Nodup

theorem labels_of_find? (h : scrape.find? name = some family) :
    scrape.labels name = family.labels := by
  rw [labels, h, Option.getD_some]

theorem labels_modify (scrape : Scrape) (name x : String) (f : Family → Family) :
    Scrape.labels (scrape.modify name {} f) x =
      if x = name then (f ((scrape.find? name).getD {})).labels else scrape.labels x := by
  rw [labels, Registry.find?_modify]
  split <;> rfl

theorem labels_rename (scrape : Scrape) (name series x : String) (family : Family) :
    Scrape.labels ((scrape.erase name).insert series family) x =
      if x = series then family.labels else if x = name then [] else scrape.labels x := by
  rw [labels, Registry.find?_insert, Registry.find?_erase]
  split
  · rfl
  · split <;> rfl

theorem mem_labelNames_iff_exists :
    label ∈ scrape.labelNames ↔ ∃ name, label ∈ scrape.labels name := by
  rw [mem_labelNames_iff]
  constructor
  · rintro ⟨⟨name, family⟩, hentry, hlabel⟩
    rw [← labels_of_find? (Registry.mem_entries_iff.mp hentry)] at hlabel
    exact ⟨name, hlabel⟩
  · rintro ⟨name, hlabel⟩
    cases hfind : scrape.find? name with
    | none => simp [labels, hfind] at hlabel
    | some family =>
      rw [labels_of_find? hfind] at hlabel
      exact ⟨(name, family), Registry.mem_entries_iff.mpr hfind, hlabel⟩

theorem labels_of_not_contains (h : ¬ scrape.contains name) : scrape.labels name = [] := by
  have hnone : scrape.find? name = none := by simpa [Registry.contains] using h
  rw [labels, hnone]
  rfl

/-- Is each list of labels also one of the other scrape, perhaps of another family? -/
def ListsWithin (scrape other : Scrape) : Prop :=
  ∀ name, scrape.labels name = [] ∨ ∃ name', scrape.labels name = other.labels name'

namespace ListsWithin

variable {other : Scrape}

theorem refl (scrape : Scrape) : ListsWithin scrape scrape :=
  fun name => .inr ⟨name, rfl⟩

theorem labelsOnce (h : ListsWithin scrape other) (honce : other.LabelsOnce) :
    scrape.LabelsOnce := by
  intro name
  rcases h name with hnil | ⟨name', heq⟩
  · rw [hnil]
    exact .nil
  · rw [heq]
    exact honce name'

theorem exists_mem (h : ListsWithin scrape other) (hlabel : label ∈ scrape.labels name) :
    ∃ name', label ∈ other.labels name' := by
  rcases h name with hnil | ⟨name', heq⟩
  · rw [hnil] at hlabel
    cases hlabel
  · exact ⟨name', heq ▸ hlabel⟩

end ListsWithin

theorem listsWithin_rename (hfind : scrape.find? name = some family)
    (hseries : ¬ scrape.contains series) :
    ListsWithin ((scrape.erase name).insert series family) scrape ∧
      ListsWithin scrape ((scrape.erase name).insert series family) := by
  constructor
  · intro x
    rw [labels_rename]
    split
    · exact .inr ⟨name, (labels_of_find? hfind).symm⟩
    · split
      · exact .inl rfl
      · exact .inr ⟨x, rfl⟩
  · intro x
    by_cases hx : x = series
    · exact .inl (hx ▸ labels_of_not_contains hseries)
    · right
      by_cases hname : x = name
      · exact ⟨series, by rw [labels_rename, if_pos rfl, hname, labels_of_find? hfind]⟩
      · exact ⟨x, by rw [labels_rename, if_neg hx, if_neg hname]⟩

theorem exists_labels_add (h : scrape.LabelsOnce) (line : Exposition) :
    ∃ (base : Scrape) (name : String), ListsWithin base scrape ∧ ListsWithin scrape base ∧
      (scrape.add line).labels name =
        (base.labels name ++ line.labels.filter Family.isOwnLabel).eraseDups ∧
      ∀ x, x ≠ name → (scrape.add line).labels x = base.labels x := by
  -- a description and a kind add no labels, so all lines change one family alike
  suffices ∃ (base : Scrape) (name : String), ListsWithin base scrape ∧ ListsWithin scrape base ∧
      ∀ x, (scrape.add line).labels x =
        if x = name then (((base.find? name).getD {}).addLabels line.labels).labels
        else base.labels x by
    obtain ⟨base, name, hto, hfrom, hadd⟩ := this
    refine ⟨base, name, hto, hfrom, ?_, fun x hx => by rw [hadd, if_neg hx]⟩
    rw [hadd, if_pos rfl]
    exact Family.labels_addLabels_of_nodup (hto.labelsOnce h name) line.labels
  cases line with
  | help name help => exact ⟨scrape, name, .refl scrape, .refl scrape, fun x => labels_modify ..⟩
  | kind name kind => exact ⟨scrape, name, .refl scrape, .refl scrape, fun x => labels_modify ..⟩
  | sample series labels =>
    rcases scrape.resolve_cases series labels with ⟨name, -, -, hresolve, -⟩ |
      ⟨name, family, hfind, hseries, hresolve, -⟩
    · refine ⟨scrape, name, .refl scrape, .refl scrape, fun x => ?_⟩
      rw [add, hresolve]
      exact labels_modify ..
    · obtain ⟨hto, hfrom⟩ := listsWithin_rename hfind hseries
      refine ⟨_, series, hto, hfrom, fun x => ?_⟩
      rw [add, hresolve]
      exact labels_modify ..

namespace LabelsOnce

theorem add (h : scrape.LabelsOnce) (line : Exposition) : (scrape.add line).LabelsOnce := by
  obtain ⟨base, name, hto, -, hname, hother⟩ := exists_labels_add h line
  intro x
  by_cases hx : x = name
  · rw [hx, hname]
    exact nodup_eraseDups _
  · rw [hother x hx]
    exact hto.labelsOnce h x

theorem exists_mem_add_iff (h : scrape.LabelsOnce) (line : Exposition) :
    (∃ name, label ∈ (scrape.add line).labels name) ↔
      (∃ name, label ∈ scrape.labels name) ∨ label ∈ line.labels ∧ Family.isOwnLabel label := by
  obtain ⟨base, name, hto, hfrom, hname, hother⟩ := exists_labels_add h line
  have hmem : label ∈ (scrape.add line).labels name ↔
      label ∈ base.labels name ∨ label ∈ line.labels ∧ Family.isOwnLabel label := by
    rw [hname, List.mem_eraseDups, List.mem_append, List.mem_filter]
  constructor
  · rintro ⟨x, hx⟩
    by_cases heq : x = name
    · subst heq
      exact (hmem.mp hx).imp_left hto.exists_mem
    · rw [hother x heq] at hx
      exact .inl (hto.exists_mem hx)
  · rintro (⟨x, hx⟩ | hown)
    · obtain ⟨x', hx'⟩ := hfrom.exists_mem hx
      by_cases heq : x' = name
      · subst heq
        exact ⟨x', hmem.mpr (.inl hx')⟩
      · exact ⟨x', (hother x' heq).symm ▸ hx'⟩
    · exact ⟨name, hmem.mpr (.inr hown)⟩

theorem foldl_add (h : scrape.LabelsOnce) (lines : List Exposition) :
    LabelsOnce (lines.foldl Scrape.add scrape) := by
  induction lines generalizing scrape with
  | nil => exact h
  | cons line lines ih => exact ih (h.add line)

/-- The labels behind some lines are those that were there before and those of the lines. -/
theorem exists_mem_foldl_add_iff (h : scrape.LabelsOnce) (lines : List Exposition) :
    (∃ name, label ∈ Scrape.labels (lines.foldl Scrape.add scrape) name) ↔
      (∃ name, label ∈ scrape.labels name) ∨
        ∃ line ∈ lines, label ∈ line.labels ∧ Family.isOwnLabel label := by
  induction lines generalizing scrape with
  | nil => simp
  | cons line lines ih =>
    rw [List.foldl_cons, ih (h.add line), h.exists_mem_add_iff, List.exists_mem_cons_iff, or_assoc]

end LabelsOnce

/-- Each family of an exposition has its labels once. They are labels of samples in the text, and
all of these apart from those that tell the parts of a distribution apart are labels of a family. So
they make up the names of labels, which ascend. -/
theorem labels_ofExposition (text : Text) :
    (∀ entry ∈ (ofExposition text).entries, entry.2.labels.Nodup ∧
        ∀ label ∈ entry.2.labels, label ∉ ["le", "quantile"] ∧
          Exposition.IsSampled text label) ∧
      (ofExposition text).labelNames.Pairwise (· < ·) ∧
      ∀ label, (label ∈ (ofExposition text).labelNames ↔
          ∃ entry ∈ (ofExposition text).entries, label ∈ entry.2.labels) ∧
        (label ∈ (ofExposition text).labelNames ↔
          label ∉ ["le", "quantile"] ∧ Exposition.IsSampled text label) := by
  have hempty : LabelsOnce ∅ := fun _ => .nil
  have honce : (ofExposition text).LabelsOnce := hempty.foldl_add _
  have hsampled (label : String) : label ∈ (ofExposition text).labelNames ↔
      label ∉ ["le", "quantile"] ∧ Exposition.IsSampled text label := by
    rw [mem_labelNames_iff_exists, ofExposition, hempty.exists_mem_foldl_add_iff,
      Exposition.isSampled_iff, ← Family.isOwnLabel_iff]
    have hnone : ¬ ∃ name, label ∈ Scrape.labels ∅ name := by
      rintro ⟨name, hlabel⟩
      cases hlabel
    rw [or_iff_right hnone]
    simp only [← and_assoc, exists_and_right]
    exact and_comm
  refine ⟨?_, pairwise_labelNames _, fun label => ⟨mem_labelNames_iff, hsampled label⟩⟩
  rintro ⟨name, family⟩ hentry
  have hlabels := labels_of_find? (Registry.mem_entries_iff.mp hentry)
  refine ⟨hlabels ▸ honce name, fun label hlabel => (hsampled label).mp ?_⟩
  exact mem_labelNames_iff.mpr ⟨(name, family), hentry, hlabel⟩

example : (ofExposition
    "# TYPE x counter\nx_total\x7bb=\"1\",le=\"2\",a=\"3\"\x7d 4".toList).labelNames = ["a", "b"] := by
  decide +kernel

end Scrape

end ManifestAssist
