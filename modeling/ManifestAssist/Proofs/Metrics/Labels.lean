import ManifestAssist.Metrics.Exposition
import ManifestAssist.Proofs.Distinct
import ManifestAssist.Proofs.Metrics.Registry

/-! # Labels of families

A family has the labels of its samples, each once, in the order in which they first appear, apart
from those that tell the parts of a distribution apart. Their names in a scrape are those of all its
families.
-/

namespace ManifestAssist

section Family

variable {family : Family} {seen : List String}

/-- Is it the name of a label that belongs to the family and not to a part of it? -/
def Family.isOwnLabel (label : String) : Bool :=
  !partLabels.contains label

theorem Family.labels_addLabel (h : family.labels = seen.eraseDups) (label : String) :
    (family.addLabels [label]).labels =
      (seen ++ [label].filter Family.isOwnLabel).eraseDups := by
  have hadd : (family.addLabels [label]).labels =
      if partLabels.contains label || family.labels.contains label then family.labels
      else family.labels ++ [label] := rfl
  rw [hadd, h]
  by_cases hpart : label ∈ partLabels
  · have hnot : [label].filter isOwnLabel = [] := by simp [isOwnLabel, hpart]
    simp [hnot, hpart]
  · have hown : [label].filter isOwnLabel = [label] := by simp [isOwnLabel, hpart]
    rw [hown, eraseDups_concat]
    simp [hpart, List.mem_eraseDups]

theorem Family.labels_addLabels (h : family.labels = seen.eraseDups) (labels : List String) :
    (family.addLabels labels).labels = (seen ++ labels.filter Family.isOwnLabel).eraseDups := by
  induction labels generalizing family seen with
  | nil =>
    rw [List.filter_nil, List.append_nil, ← h]
    rfl
  | cons label labels ih =>
    have hcons : family.addLabels (label :: labels) =
        (family.addLabels [label]).addLabels labels := rfl
    rw [hcons, ih (labels_addLabel h label), List.append_assoc, ← List.filter_append,
      List.singleton_append]

theorem Family.addLabels_mk (kind : MetricKind) (help : Option String) (seen labels : List String) :
    (Family.mk kind help seen.eraseDups).addLabels labels =
      ⟨kind, help, (seen ++ labels.filter Family.isOwnLabel).eraseDups⟩ := by
  have hlabels := @labels_addLabels ⟨kind, help, seen.eraseDups⟩ seen rfl labels
  rw [← hlabels]
  rfl

end Family

namespace Scrape

variable {scrape : Scrape} {label name : String} {names : List String}

theorem mem_insertName_iff : label ∈ insertName name names ↔ label = name ∨ label ∈ names := by
  induction names with
  | nil => simp [insertName]
  | cons name' names ih =>
    unfold insertName
    split
    · exact List.mem_cons
    · split
      · next heq => simp [heq]
      · rw [List.mem_cons, ih, List.mem_cons]
        exact or_left_comm

theorem pairwise_insertName (h : names.Pairwise (· < ·)) :
    (insertName name names).Pairwise (· < ·) := by
  induction names with
  | nil => exact List.pairwise_singleton ..
  | cons name' names ih =>
    obtain ⟨hlt, hnames⟩ := List.pairwise_cons.mp h
    unfold insertName
    split
    · next hname =>
      apply List.pairwise_cons.mpr
      refine ⟨?_, h⟩
      rintro other hother
      rcases List.mem_cons.mp hother with rfl | hother
      · exact hname
      · exact lt_trans hname (hlt other hother)
    · next hname =>
      split
      · exact h
      · next hne =>
        apply List.pairwise_cons.mpr
        refine ⟨?_, ih hnames⟩
        rintro other hother
        rcases mem_insertName_iff.mp hother with rfl | hother
        · exact lt_of_le_of_ne (not_lt.mp hname) (Ne.symm hne)
        · exact hlt other hother

theorem pairwise_labelNames (scrape : Scrape) : scrape.labelNames.Pairwise (· < ·) := by
  rw [labelNames]
  induction scrape.entries.flatMap (·.2.labels) with
  | nil => exact .nil
  | cons name names ih => exact pairwise_insertName ih

theorem mem_labelNames_iff :
    label ∈ scrape.labelNames ↔ ∃ entry ∈ scrape.entries, label ∈ entry.2.labels := by
  rw [← List.mem_flatMap, labelNames]
  induction scrape.entries.flatMap (·.2.labels) with
  | nil => rfl
  | cons name names ih => rw [List.foldr_cons, mem_insertName_iff, ih, List.mem_cons]

end Scrape

end ManifestAssist
