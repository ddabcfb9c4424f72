import Mathlib
import ManifestAssist.Manifest.Tree

/-! # Groups of metrics

The metrics of a data source are those of its groups and of their subgroups. The dimensions of a
group hold for its subgroups, too.
-/

namespace ManifestAssist

open Yaml (Value)

theorem Yaml.Value.mem_fields_iff {v : Value} {key field s : String} :
    s ∈ v.fields key field ↔ ∃ item ∈ (v.get key).items, item.field? field = some s :=
  List.mem_filterMap

theorem Yaml.Value.mem_filter_fields_iff {v : Value} {key field s : String}
    {strings : List String} :
    (s ∈ strings.filter fun s => !(v.fields key field).contains s) ↔
      s ∈ strings ∧ ∀ item ∈ (v.get key).items, item.field? field ≠ some s := by
  simp only [List.mem_filter, Bool.not_eq_true', List.contains_eq_mem, decide_eq_false_iff_not,
    mem_fields_iff, not_exists, not_and, ne_eq]

namespace Manifest

variable {m : Manifest} {group : MetricGroup}

/-- Is this the value of the first key of a data source that the manifest has? -/
def IsDatasource (m : Manifest) (source : Value) : Prop :=
  ∃ before key after, datasources = before ++ key :: after ∧ m.root.get? key = some source ∧
    ∀ earlier ∈ before, m.root.get? earlier = none

/-- The groups of the data source: a group has its own dimensions, and a subgroup has those of the
group around it and then its own. -/
inductive HasGroup (m : Manifest) : MetricGroup → Prop
  | group {source v : Value} (hsource : m.IsDatasource source) (hv : v ∈ source.items) :
    HasGroup m ⟨v.fields "dimensions" "key", v.fields "metrics" "key"⟩
  | subgroup {source v w : Value} (hsource : m.IsDatasource source) (hv : v ∈ source.items)
    (hw : w ∈ (v.get "subgroups").items) :
    HasGroup m ⟨v.fields "dimensions" "key" ++ w.fields "dimensions" "key",
      w.fields "metrics" "key"⟩

theorem exists_datasource?_eq_some_iff {groups : List Value} :
    (∃ name, m.datasource? = some (name, groups)) ↔
      ∃ source, m.IsDatasource source ∧ source.items = groups := by
  simp only [datasource?, Option.map_eq_some_iff, List.find?_eq_some_iff_append, Prod.mk.injEq,
    Bool.not_eq_true', Option.isSome_eq_false_iff, Option.isNone_iff_eq_none, IsDatasource]
  constructor
  · rintro ⟨_, key, ⟨hsome, before, after, hkeys, hnone⟩, -, rfl⟩
    obtain ⟨source, hsource⟩ := Option.isSome_iff_exists.mp hsome
    refine ⟨source, ⟨before, key, after, hkeys, hsource, hnone⟩, ?_⟩
    rw [Value.get, hsource, Option.getD_some]
  · rintro ⟨source, ⟨before, key, after, hkeys, hsource, hnone⟩, rfl⟩
    refine ⟨key, key, ⟨Option.isSome_of_eq_some hsource, before, after, hkeys, hnone⟩, rfl, ?_⟩
    rw [Value.get, hsource, Option.getD_some]

theorem mem_metricGroups_iff : group ∈ m.metricGroups ↔ m.HasGroup group := by
  unfold metricGroups
  constructor
  · intro h
    split at h
    · next name groups hdatasource =>
      obtain ⟨source, hsource, rfl⟩ := exists_datasource?_eq_some_iff.mp ⟨name, hdatasource⟩
      obtain ⟨v, hv, hgroup⟩ := List.mem_flatMap.mp h
      rcases List.mem_cons.mp hgroup with rfl | hgroup
      · exact .group hsource hv
      · obtain ⟨w, hw, rfl⟩ := List.mem_map.mp hgroup
        exact .subgroup hsource hv hw
    · cases h
  · rintro (⟨hsource, hv⟩ | ⟨hsource, hv, hw⟩) <;>
      obtain ⟨name, hdatasource⟩ := exists_datasource?_eq_some_iff.mpr ⟨_, hsource, rfl⟩ <;>
      rw [hdatasource] <;> apply List.mem_flatMap_of_mem hv
    · exact List.mem_cons_self
    · exact List.mem_cons_of_mem _ (List.mem_map_of_mem hw)

end Manifest

end ManifestAssist
