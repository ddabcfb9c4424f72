import ManifestAssist.Proofs.Completion.Vocabularies
import ManifestAssist.Proofs.Manifest.Groups
import ManifestAssist.Proofs.Metrics.Series

/-! # Metrics of scraped families

A metric of a group is offered the series of all families as its value, and what suits them as its
key. The families come one after another in the order of their names, but for a key the one that the
value of the metric belongs to comes ahead of all others. What a metric of the group has is left
out.
-/

namespace ManifestAssist

theorem Scrape.find?_of_family? {scrape : Scrape} {series name : String} {family : Family}
    (h : scrape.family? series = some (name, family)) : scrape.find? name = some family := by
  obtain ⟨name', -, hfamily⟩ := List.exists_of_findSome?_eq_some h
  obtain ⟨family', hfind, heq⟩ := Option.map_eq_some_iff.mp hfamily
  obtain ⟨rfl, rfl⟩ := Prod.mk.inj heq
  exact hfind

namespace Prometheus

open Yaml (Value)

variable {scrape : Scrape} {group : Value} {request : Request} {order : List (String × Family)}
  {value series : String}

/-- The cursor is in this group, or in this subgroup of a group: its items lead there. -/
inductive HoldsCursor (request : Request) : Value → Prop
  | group {i : Nat} {group : Value} (hwithin : ¬ request.cursor.isWithin "subgroups")
    (hitem : request.cursor.item? "prometheus" = some i)
    (hgroup : (request.manifest.root.get "prometheus").items[i]? = some group) :
    HoldsCursor request group
  | subgroup {i j : Nat} {group subgroup : Value} (hwithin : request.cursor.isWithin "subgroups")
    (hitem : request.cursor.item? "prometheus" = some i)
    (hgroup : (request.manifest.root.get "prometheus").items[i]? = some group)
    (hsubitem : request.cursor.item? "subgroups" = some j)
    (hsubgroup : (group.get "subgroups").items[j]? = some subgroup) :
    HoldsCursor request subgroup

/-- The value of the metric that the cursor is in names this series. -/
def HasSeries (request : Request) (group : Value) (series : String) : Prop :=
  ∃ i metric, request.cursor.item? "metrics" = some i ∧
    (group.get "metrics").items[i]? = some metric ∧
    metric.field? "value" = some ("metric:" ++ series)

theorem group?_eq_some_iff : group? request = some group ↔ HoldsCursor request group := by
  simp only [group?, Option.bind_eq_bind, Option.bind_eq_some_iff]
  constructor
  · rintro ⟨i, hitem, outer, houter, h⟩
    split at h
    · next hwithin =>
      obtain ⟨j, hsubitem, hsubgroup⟩ := Option.bind_eq_some_iff.mp h
      exact .subgroup hwithin hitem houter hsubitem hsubgroup
    · next hwithin =>
      obtain rfl := Option.some.inj h
      exact .group hwithin hitem houter
  · rintro (⟨hwithin, hitem, hgroup⟩ | ⟨hwithin, hitem, hgroup, hsubitem, hsubgroup⟩)
    · exact ⟨_, hitem, _, hgroup, if_neg hwithin⟩
    · refine ⟨_, hitem, _, hgroup, ?_⟩
      rw [if_pos hwithin, hsubitem, Option.bind_some, hsubgroup]

theorem series?_eq_some_iff : series? value = some series ↔ value = "metric:" ++ series := by
  simp only [series?, Option.map_eq_some_iff, Text.dropFront?_eq_some]
  constructor
  · rintro ⟨rest, hvalue, rfl⟩
    rw [← String.toList_inj, hvalue, String.toList_append, String.toList_ofList (l := rest)]
  · rintro rfl
    exact ⟨series.toList, String.toList_append, String.ofList_toList⟩

theorem currentSeries?_eq_some_iff :
    currentSeries? request group = some series ↔ HasSeries request group series := by
  simp only [currentSeries?, Option.bind_eq_bind, Option.bind_eq_some_iff, series?_eq_some_iff,
    HasSeries]
  constructor
  · rintro ⟨i, hitem, metric, hmetric, _, hvalue, rfl⟩
    exact ⟨i, metric, hitem, hmetric, hvalue⟩
  · rintro ⟨i, metric, hitem, hmetric, hvalue⟩
    exact ⟨i, hitem, metric, hmetric, _, hvalue, rfl⟩

/-- The families of a scrape, each once: one perhaps in front, and the others in the order of their
names. -/
structure IsListing (scrape : Scrape) (own : Option (String × Family))
    (order : List (String × Family)) : Prop where
  perm : order.Perm scrape.entries
  ownFirst : ∃ others, order = own.toList ++ others ∧ others.Pairwise (·.1 < ·.1)

theorem isListing_entries (scrape : Scrape) : IsListing scrape none scrape.entries :=
  ⟨.rfl, scrape.entries, rfl, scrape.ascending⟩

theorem isListing_ownFirst (scrape : Scrape) (series : Option String) :
    IsListing scrape (series.bind scrape.family?) (ownFirst scrape series) := by
  have hperm (p : String × Family → Bool) :
      (scrape.entries.filter p ++ scrape.entries.filter (not ∘ p)).Perm scrape.entries :=
    List.filter_append_perm p scrape.entries
  simp only [ownFirst, List.partition_eq_filter_filter]
  constructor
  · exact hperm _
  · refine ⟨_, congrArg (· ++ _) ?_, scrape.ascending.filter _⟩
    cases hown : series.bind scrape.family? with
    | none => simp
    | some own =>
      obtain ⟨name, family⟩ := own
      obtain ⟨series, -, hfamily⟩ := Option.bind_eq_some_iff.mp hown
      have hfront := scrape.filter_entries_eq name
      rw [Scrape.find?_of_family? hfamily] at hfront
      simpa using hfront

/-- The names of families one after another, without what a metric of the group has in a field. -/
def unusedNames (group : Value) (field : String) (names : String → Family → List String)
    (order : List (String × Family)) : List String :=
  order.flatMap fun (name, family) =>
    (names name family).filter fun label => !(group.fields "metrics" field).contains label

theorem map_label_metricValues (scrape : Scrape) (group : Value) :
    (metricValues scrape group).map (·.label) = unusedNames group "value"
      (fun name family => (Family.seriesEndings family.kind).map ("metric:" ++ name ++ ·))
      scrape.entries := by
  simp only [metricValues, unusedNames, Suggestion.map_label_unused, List.map_flatMap,
    List.map_map, List.filter_flatMap, Family.series_eq, Function.comp_def, String.append_assoc]

theorem map_label_metricKeys (scrape : Scrape) (group : Value) (series : Option String) :
    (metricKeys scrape group series).map (·.label) = unusedNames group "key"
      (fun name family => (Family.keyEndings family.kind).map (Family.stem family.kind name ++ ·))
      (ownFirst scrape series) := by
  simp only [metricKeys, unusedNames, Suggestion.map_label_unused, List.map_flatMap, List.map_map,
    List.filter_flatMap, Function.comp_def, Family.keys_eq]

theorem mem_unusedNames_iff {own : Option (String × Family)} {field label : String}
    {names : String → Family → List String} (horder : IsListing scrape own order) :
    label ∈ unusedNames group field names order ↔
      (∃ name family, scrape.find? name = some family ∧ label ∈ names name family) ∧
        ∀ metric ∈ (group.get "metrics").items, metric.field? field ≠ some label := by
  simp only [unusedNames, List.mem_flatMap, horder.perm.mem_iff, Prod.exists,
    Registry.mem_entries_iff, Value.mem_filter_fields_iff, ← and_assoc, exists_and_right]

/-- A metric is offered the series of the families as its value and their keys as its key, unless a
metric of the group that the cursor is in has them. -/
theorem draft?_of_metrics (hroot : request.cursor.root? = some "prometheus")
    (hparent : request.cursor.parent? = some "metrics")
    (hscrape : request.context.scrape = some scrape) (hgroup : HoldsCursor request group) :
    (request.cursor.slot.key = "value" → ∃ draft order, draft? request = some draft ∧
      draft.replace = request.cursor.valueSpan ∧ IsListing scrape none order ∧
      (draft.suggestions.map (·.label) = unusedNames group "value"
        (fun name family => (Family.seriesEndings family.kind).map ("metric:" ++ name ++ ·))
        order) ∧
      ∀ label, label ∈ draft.suggestions.map (·.label) ↔
        (∃ name family, scrape.find? name = some family ∧
          ∃ ending ∈ Family.seriesEndings family.kind, label = "metric:" ++ name ++ ending) ∧
        ∀ metric ∈ (group.get "metrics").items, metric.field? "value" ≠ some label) ∧
    (request.cursor.slot.key = "key" → ∃ draft own order, ∃ stem : MetricKind → String → String,
      draft? request = some draft ∧ draft.replace = request.cursor.valueSpan ∧
      (∀ entry, own = some entry ↔
        ∃ series, HasSeries request group series ∧ scrape.family? series = some entry) ∧
      IsListing scrape own order ∧
      (∀ kind name, Family.IsStem kind name (stem kind name)) ∧
      (draft.suggestions.map (·.label) = unusedNames group "key"
        (fun name family => (Family.keyEndings family.kind).map (stem family.kind name ++ ·))
        order) ∧
      ∀ label, label ∈ draft.suggestions.map (·.label) ↔
        (∃ name family, scrape.find? name = some family ∧
          ∃ stem, Family.IsStem family.kind name stem ∧
            ∃ ending ∈ Family.keyEndings family.kind, label = stem ++ ending) ∧
        ∀ metric ∈ (group.get "metrics").items, metric.field? "key" ≠ some label) := by
  rw [← group?_eq_some_iff] at hgroup
  constructor
  · intro hkey
    have hdraft : draft? request =
        some ⟨metricValues scrape group, request.cursor.valueSpan⟩ := by
      simp [draft?, hroot, hparent, hscrape, hgroup, hkey]
    refine ⟨_, scrape.entries, hdraft, rfl, isListing_entries scrape,
      map_label_metricValues scrape group, fun label => ?_⟩
    rw [map_label_metricValues, mem_unusedNames_iff (isListing_entries scrape)]
    simp only [List.mem_map, eq_comm]
  · intro hkey
    have hdraft : draft? request = some ⟨metricKeys scrape group (currentSeries? request group),
        request.cursor.valueSpan⟩ := by
      simp [draft?, hroot, hparent, hscrape, hgroup, hkey]
    have hown (entry : String × Family) :
        (currentSeries? request group).bind scrape.family? = some entry ↔
          ∃ series, HasSeries request group series ∧ scrape.family? series = some entry := by
      simp only [Option.bind_eq_some_iff, currentSeries?_eq_some_iff]
    have horder := isListing_ownFirst scrape (currentSeries? request group)
    refine ⟨_, _, _, Family.stem, hdraft, rfl, hown, horder,
      fun kind name => Family.isStem_iff.mpr rfl, map_label_metricKeys scrape group _,
      fun label => ?_⟩
    rw [map_label_metricKeys, mem_unusedNames_iff horder]
    simp only [List.mem_map, Family.isStem_iff, exists_eq_left', eq_comm (a := label)]

theorem holdsCursor_of_chain {i : Nat}
    (hchain : request.cursor.chain = ["prometheus", "metrics"])
    (hitem : request.cursor.item? "prometheus" = some i)
    (hgroup : (request.manifest.root.get "prometheus").items[i]? = some group) :
    request.cursor.root? = some "prometheus" ∧ request.cursor.parent? = some "metrics" ∧
      HoldsCursor request group := by
  have hwithin : ¬ request.cursor.isWithin "subgroups" := by
    rw [Cursor.isWithin, hchain]
    decide
  rw [Cursor.root?, Cursor.parent?, hchain]
  exact ⟨rfl, rfl, .group hwithin hitem hgroup⟩

/-- A second group, whose second metric has a value and no key, and whose third one has neither. -/
def secondGroup : Text :=
  ("prometheus:\n- metrics:\n  - value: metric:a\n- metrics:\n  - value: metric:z_total\n" ++
    "    key: z.count\n  - value: metric:h_sum\n    key: \n  - value: ").toList

/-- Two distributions between a gauge and a counter. -/
def fourFamilies : Scrape :=
  .ofList [("z_total", ⟨.counter, none, []⟩), ("s", ⟨.summary, none, []⟩),
    ("h", ⟨.histogram, none, []⟩), ("a", ⟨.gauge, none, []⟩)]

theorem draft?_of_metrics_secondGroup :
    let manifest := (Manifest.parse secondGroup).toOption.getD .empty
    let context : Context := { scrape := some fourFamilies }
    ∃ atKey atValue group, (Cursor.at? secondGroup ⟨7, 9⟩ = some atKey ∧
        Cursor.at? secondGroup ⟨8, 11⟩ = some atValue) ∧
      (∀ cursor ∈ [atKey, atValue], cursor.root? = some "prometheus" ∧
        cursor.parent? = some "metrics" ∧ HoldsCursor ⟨cursor, manifest, context⟩ group) ∧
      context.scrape = some fourFamilies ∧
      (atKey.slot.key = "key" ∧ HasSeries ⟨atKey, manifest, context⟩ group "h_sum" ∧
        ∃ draft order, draft? ⟨atKey, manifest, context⟩ = some draft ∧
          draft.suggestions.map (·.label) = ["h.count", "h.sum", "a", "s.count", "s.sum"] ∧
          IsListing fourFamilies (some ("h", ⟨.histogram, none, []⟩)) order) ∧
      atValue.slot.key = "value" ∧
        ∃ draft, draft? ⟨atValue, manifest, context⟩ = some draft ∧
          draft.suggestions.map (·.label) =
            ["metric:a", "metric:h_count", "metric:s_sum", "metric:s_count"] ∧
          ∀ metric ∈ (group.get "metrics").items,
            metric.field? "value" ≠ some "metric:h_count" := by
  intro manifest context
  obtain ⟨hatKey, hkeyLabels, hatValue, hvalueLabels, hgroup⟩ :
      (Cursor.at? secondGroup ⟨7, 9⟩).map (fun cursor => (cursor.chain, cursor.slot.key,
        cursor.item? "prometheus", cursor.item? "metrics")) =
          some (["prometheus", "metrics"], "key", some 1, some 1) ∧
      ((Cursor.at? secondGroup ⟨7, 9⟩).bind fun cursor =>
        (draft? ⟨cursor, manifest, context⟩).map fun draft => draft.suggestions.map (·.label)) =
          some ["h.count", "h.sum", "a", "s.count", "s.sum"] ∧
      (Cursor.at? secondGroup ⟨8, 11⟩).map (fun cursor => (cursor.chain, cursor.slot.key,
        cursor.item? "prometheus")) =
          some (["prometheus", "metrics"], "value", some 1) ∧
      ((Cursor.at? secondGroup ⟨8, 11⟩).bind fun cursor =>
        (draft? ⟨cursor, manifest, context⟩).map fun draft => draft.suggestions.map (·.label)) =
          some ["metric:a", "metric:h_count", "metric:s_sum", "metric:s_count"] ∧
      (manifest.root.get "prometheus").items[1]?.map (fun group =>
        (group.get "metrics").items[1]?.bind (·.field? "value")) = some (some "metric:h_sum") := by
    decide +kernel
  clear_value manifest
  obtain ⟨group, hgroup, hown⟩ := Option.map_eq_some_iff.mp hgroup
  obtain ⟨metric, hmetric, hvalue⟩ := Option.bind_eq_some_iff.mp hown
  have hfamily : fourFamilies.family? "h_sum" = some ("h", ⟨.histogram, none, []⟩) := by decide
  obtain ⟨atKey, hcursorKey, hatKey⟩ := Option.map_eq_some_iff.mp hatKey
  obtain ⟨atValue, hcursorValue, hatValue⟩ := Option.map_eq_some_iff.mp hatValue
  simp only [Prod.mk.injEq] at hatKey hatValue
  obtain ⟨hchainKey, hkey, hitemKey, hmetricKey⟩ := hatKey
  obtain ⟨hchainValue, hkeyValue, hitemValue⟩ := hatValue
  rw [hcursorKey, Option.bind_some] at hkeyLabels
  rw [hcursorValue, Option.bind_some] at hvalueLabels
  obtain ⟨hrootKey, hparentKey, hholdsKey⟩ :=
    @holdsCursor_of_chain group ⟨atKey, manifest, context⟩ 1 hchainKey hitemKey hgroup
  obtain ⟨hrootValue, hparentValue, hholdsValue⟩ :=
    @holdsCursor_of_chain group ⟨atValue, manifest, context⟩ 1 hchainValue hitemValue hgroup
  have hseries : HasSeries ⟨atKey, manifest, context⟩ group "h_sum" :=
    ⟨1, metric, hmetricKey, hmetric, hvalue⟩
  obtain ⟨draft, own, order, -, hdraft, -, hown, horder, -⟩ :=
    (draft?_of_metrics hrootKey hparentKey rfl hholdsKey).2 hkey
  obtain ⟨draft', order', hdraft', -, -, -, hmem⟩ :=
    (draft?_of_metrics hrootValue hparentValue rfl hholdsValue).1 hkeyValue
  rw [(hown _).mpr ⟨"h_sum", hseries, hfamily⟩] at horder
  rw [hdraft, Option.map_some, Option.some.injEq] at hkeyLabels
  rw [hdraft', Option.map_some, Option.some.injEq] at hvalueLabels
  have hcount : "metric:h_count" ∈ draft'.suggestions.map (·.label) := by
    rw [hvalueLabels]
    decide
  refine ⟨atKey, atValue, group, ⟨hcursorKey, hcursorValue⟩, ?_, rfl,
    ⟨hkey, hseries, draft, order, hdraft, hkeyLabels, horder⟩, hkeyValue, draft', hdraft',
    hvalueLabels, ((hmem "metric:h_count").mp hcount).2⟩
  simp [hrootKey, hparentKey, hholdsKey, hrootValue, hparentValue, hholdsValue]

end Prometheus

end ManifestAssist
