import ManifestAssist.Proofs.Completion.Offers
import ManifestAssist.Proofs.Completion.Prometheus.Metrics
import ManifestAssist.Proofs.Metrics.Labels

/-! # Dimensions of scraped families

A dimension of a group is offered the labels of the families that the metrics of the group refer to.
If these families have no labels at all, it is offered the labels of all families, just as if the
group referred to none.
-/

namespace ManifestAssist.Prometheus

open Yaml (Value)

variable {scrape : Scrape} {group : Value} {request : Request} {entry : String × Family}
  {field mark label shown : String}

/-- Does a metric of the group refer to a family? -/
def RefersTo (scrape : Scrape) (group : Value) (entry : String × Family) : Prop :=
  ∃ metric ∈ (group.get "metrics").items, ∃ series,
    metric.field? "value" = some ("metric:" ++ series) ∧ scrape.family? series = some entry

/-- The fields of a dimension with what stands ahead of a label in them. -/
def dimensionFields : List (String × String) :=
  [("key", ""), ("value", "label:")]

theorem refersTo_iff :
    entry ∈ ((group.fields "metrics" "value").filterMap fun value =>
      (series? value).bind scrape.family?) ↔ RefersTo scrape group entry := by
  simp only [List.mem_filterMap, Option.bind_eq_some_iff, series?_eq_some_iff,
    Value.mem_fields_iff, RefersTo]
  constructor
  · rintro ⟨_, ⟨metric, hmetric, hvalue⟩, series, rfl, hfamily⟩
    exact ⟨metric, hmetric, series, hvalue, hfamily⟩
  · rintro ⟨metric, hmetric, series, hvalue, hfamily⟩
    exact ⟨_, ⟨metric, hmetric, hvalue⟩, series, rfl, hfamily⟩

theorem mem_labelsOf_iff :
    label ∈ labelsOf scrape group ↔
      (∃ entry, RefersTo scrape group entry ∧ label ∈ entry.2.labels) ∨
        (∀ entry, RefersTo scrape group entry → entry.2.labels = []) ∧
          ∃ entry ∈ scrape.entries, label ∈ entry.2.labels := by
  have hown (label : String) : label ∈ (((group.fields "metrics" "value").filterMap fun value =>
        (series? value).bind scrape.family?).flatMap (·.2.labels)).eraseDups ↔
      ∃ entry, RefersTo scrape group entry ∧ label ∈ entry.2.labels := by
    simp only [List.mem_eraseDups, List.mem_flatMap, refersTo_iff]
  unfold labelsOf
  dsimp only
  split
  · next hempty =>
    have hnone : ¬ ∃ entry, RefersTo scrape group entry ∧ label ∈ entry.2.labels := by
      rw [← hown, List.isEmpty_iff.mp hempty]
      exact List.not_mem_nil
    have hunlabelled : ∀ entry, RefersTo scrape group entry → entry.2.labels = [] := by
      intro entry hentry
      apply List.eq_nil_iff_forall_not_mem.mpr
      intro other hother
      have hmem := (hown other).mpr ⟨entry, hentry, hother⟩
      rw [List.isEmpty_iff.mp hempty] at hmem
      cases hmem
    rw [Scrape.mem_labelNames_iff]
    exact ⟨fun h => .inr ⟨hunlabelled, h⟩, fun h => (h.resolve_left hnone).2⟩
  · next hlabels =>
    rw [hown]
    constructor
    · exact .inl
    · rintro (h | ⟨hunlabelled, -⟩)
      · exact h
      · refine absurd (List.isEmpty_iff.mpr (List.eq_nil_iff_forall_not_mem.mpr ?_)) hlabels
        intro other hother
        obtain ⟨entry, hentry, hmem⟩ := (hown other).mp hother
        rw [hunlabelled entry hentry] at hmem
        cases hmem

theorem draft?_eq_dimensionValues (hroot : request.cursor.root? = some "prometheus")
    (hparent : request.cursor.parent? = some "dimensions")
    (hfield : (request.cursor.slot.key, mark) ∈ dimensionFields)
    (hscrape : request.context.scrape = some scrape) (hgroup : group? request = some group) :
    draft? request = some ⟨dimensionValues scrape group request.cursor.slot.key (mark ++ ·),
      request.cursor.valueSpan⟩ := by
  have hid : (fun label : String => label) = id := rfl
  simp only [dimensionFields, List.mem_cons, List.not_mem_nil, or_false, Prod.mk.injEq] at hfield
  rcases hfield with ⟨hkey, rfl⟩ | ⟨hkey, rfl⟩
  · simp [draft?, hroot, hparent, hscrape, hgroup, hkey, hid]
  · simp [draft?, hroot, hparent, hscrape, hgroup, hkey]

theorem mem_map_label_dimensionValues_iff :
    shown ∈ (dimensionValues scrape group field (mark ++ ·)).map (·.label) ↔
      (∃ label ∈ labelsOf scrape group, shown = mark ++ label) ∧
        ∀ dimension ∈ (group.get "dimensions").items, dimension.field? field ≠ some shown := by
  rw [dimensionValues, Suggestion.map_label_unused, Suggestion.map_label_plain,
    Value.mem_filter_fields_iff, List.mem_map]
  simp only [eq_comm]

/-- A dimension is offered labels of the families that its group refers to, unless none of these has
a label: then whatever is offered is a label of other families. -/
theorem offers_of_dimensions_iff {text : Text} {position : Position} {manifest : Manifest}
    {context : Context} {cursor : Cursor} (hcursor : Cursor.at? text position = some cursor)
    (hroot : cursor.root? = some "prometheus") (hparent : cursor.parent? = some "dimensions")
    (hfield : (cursor.slot.key, mark) ∈ dimensionFields) (hscrape : context.scrape = some scrape)
    (hgroup : group? ⟨cursor, manifest, context⟩ = some group) :
    let offers := (complete text position manifest context).offers
    (∃ draft, draft? ⟨cursor, manifest, context⟩ = some draft ∧
      ∀ shown, shown ∈ draft.suggestions.map (·.label) ↔
        (∃ label, shown = mark ++ label ∧
          ((∃ entry, RefersTo scrape group entry ∧ label ∈ entry.2.labels) ∨
            (∀ entry, RefersTo scrape group entry → entry.2.labels = []) ∧
              ∃ entry ∈ scrape.entries, label ∈ entry.2.labels)) ∧
        ∀ dimension ∈ (group.get "dimensions").items,
          dimension.field? cursor.slot.key ≠ some shown) ∧
    ((∀ offer ∈ offers, ∃ entry, RefersTo scrape group entry ∧
        ∃ label ∈ entry.2.labels, offer.suggestion.label = mark ++ label) ↔
      (∃ entry, RefersTo scrape group entry ∧ entry.2.labels ≠ []) ∨ offers = []) := by
  intro offers
  have hdraft := @draft?_eq_dimensionValues scrape group ⟨cursor, manifest, context⟩ mark hroot
    hparent hfield hscrape hgroup
  have hlabels (shown : String) := @mem_map_label_dimensionValues_iff scrape group cursor.slot.key
    mark shown
  refine ⟨⟨_, hdraft, fun shown => (hlabels shown).trans (and_congr ?_ Iff.rfl)⟩, ?_, ?_⟩
  · simp only [mem_labelsOf_iff, and_comm]
  · intro hall
    by_contra hnot
    obtain ⟨hunlabelled, hoffers⟩ := not_or.mp hnot
    obtain ⟨offer, hoffer⟩ := List.exists_mem_of_ne_nil _ hoffers
    obtain ⟨entry, hentry, label, hlabel, -⟩ := hall offer hoffer
    exact hunlabelled ⟨entry, hentry, List.ne_nil_of_mem hlabel⟩
  · rintro (⟨entry, hentry, hlabelled⟩ | hnil) offer hoffer
    · obtain ⟨suggestion, hsuggestion, retriggers, rfl⟩ :=
        exists_suggestion_of_mem_offers hcursor (by simp [Completion.vocabularies]) hdraft hoffer
      obtain ⟨⟨label, hlabel, hshown⟩, -⟩ :=
        (hlabels suggestion.label).mp (List.mem_map_of_mem hsuggestion)
      rcases mem_labelsOf_iff.mp hlabel with ⟨own, hown, hmem⟩ | ⟨hunlabelled, -⟩
      · exact ⟨own, hown, label, hmem, hshown⟩
      · exact absurd (hunlabelled entry hentry) hlabelled
    · rw [hnil] at hoffer
      cases hoffer

/-- A metric without labels and two with one. -/
def labelledMetrics : Scrape :=
  .ofList [("up", ⟨.gauge, none, []⟩), ("load", ⟨.gauge, none, ["cpu"]⟩),
    ("disk", ⟨.gauge, none, ["path"]⟩)]

/-- A group with a labelled metric and one without labels. -/
def upAndLoad : Text :=
  ("prometheus:\n- metrics:\n  - value: metric:up\n  - value: metric:load\n  dimensions:\n" ++
    "  - value: ").toList

theorem offers_of_dimensions_iff_upAndLoad :
    let manifest := (Manifest.parse upAndLoad).toOption.getD .empty
    let context : Context := { scrape := some labelledMetrics }
    ∃ cursor group, (Cursor.at? upAndLoad ⟨5, 11⟩ = some cursor ∧
        cursor.root? = some "prometheus" ∧ cursor.parent? = some "dimensions" ∧
        (cursor.slot.key, "label:") ∈ dimensionFields ∧ context.scrape = some labelledMetrics ∧
        group? ⟨cursor, manifest, context⟩ = some group) ∧
      (complete upAndLoad ⟨5, 11⟩ manifest context).offers.map (·.suggestion.label) =
        ["label:cpu"] ∧
      ∀ offer ∈ (complete upAndLoad ⟨5, 11⟩ manifest context).offers,
        ∃ entry, RefersTo labelledMetrics group entry ∧
          ∃ label ∈ entry.2.labels, offer.suggestion.label = "label:" ++ label := by
  intro manifest context
  obtain ⟨hfacts, hoffers⟩ : (Cursor.at? upAndLoad ⟨5, 11⟩).map (fun cursor =>
        (cursor.chain, cursor.slot.key, (group? ⟨cursor, manifest, context⟩).map
          (·.fields "metrics" "value"))) =
        some (["prometheus", "dimensions"], "value", some ["metric:up", "metric:load"]) ∧
      (complete upAndLoad ⟨5, 11⟩ manifest context).offers.map (·.suggestion.label) =
        ["label:cpu"] := by
    decide +kernel
  obtain ⟨cursor, hcursor, hfacts⟩ := Option.map_eq_some_iff.mp hfacts
  simp only [Prod.mk.injEq] at hfacts
  obtain ⟨hchain, hkey, hgroup⟩ := hfacts
  obtain ⟨group, hgroup, hvalues⟩ := Option.map_eq_some_iff.mp hgroup
  have hroot : cursor.root? = some "prometheus" := by rw [Cursor.root?, hchain]; rfl
  have hparent : cursor.parent? = some "dimensions" := by rw [Cursor.parent?, hchain]; rfl
  have hfield : (cursor.slot.key, "label:") ∈ dimensionFields := by
    rw [hkey]
    decide
  have hload : RefersTo labelledMetrics group ("load", ⟨.gauge, none, ["cpu"]⟩) := by
    rw [← refersTo_iff, hvalues]
    decide +kernel
  have hiff := (offers_of_dimensions_iff hcursor hroot hparent hfield rfl hgroup).2
  exact ⟨cursor, group, ⟨hcursor, hroot, hparent, hfield, rfl, hgroup⟩, hoffers,
    hiff.mpr (.inl ⟨_, hload, by simp⟩)⟩

/-- A group whose only metric has no labels. -/
def upAlone : Text :=
  "prometheus:\n- metrics:\n  - value: metric:up\n  dimensions:\n  - key: ".toList

theorem not_offers_of_dimensions :
    ¬ ∀ (text : Text) (position : Position) (manifest : Manifest) (context : Context)
      (cursor : Cursor) (scrape : Scrape) (group : Value) (mark : String),
      Cursor.at? text position = some cursor → cursor.root? = some "prometheus" →
      cursor.parent? = some "dimensions" → (cursor.slot.key, mark) ∈ dimensionFields →
      context.scrape = some scrape → group? ⟨cursor, manifest, context⟩ = some group →
      (∃ entry, RefersTo scrape group entry) →
      ∀ offer ∈ (complete text position manifest context).offers,
        ∃ entry, RefersTo scrape group entry ∧
          ∃ label ∈ entry.2.labels, offer.suggestion.label = mark ++ label := by
  intro h
  let manifest := (Manifest.parse upAlone).toOption.getD .empty
  let context : Context := { scrape := some labelledMetrics }
  obtain ⟨hfacts, hoffers⟩ : (Cursor.at? upAlone ⟨4, 9⟩).map (fun cursor =>
        (cursor.chain, cursor.slot.key, (group? ⟨cursor, manifest, context⟩).map
          (·.fields "metrics" "value"))) =
        some (["prometheus", "dimensions"], "key", some ["metric:up"]) ∧
      (complete upAlone ⟨4, 9⟩ manifest context).offers.map (·.suggestion.label) =
        ["cpu", "path"] := by
    decide +kernel
  obtain ⟨cursor, hcursor, hfacts⟩ := Option.map_eq_some_iff.mp hfacts
  simp only [Prod.mk.injEq] at hfacts
  obtain ⟨hchain, hkey, hgroup⟩ := hfacts
  obtain ⟨group, hgroup, hvalues⟩ := Option.map_eq_some_iff.mp hgroup
  have hup (entry : String × Family) :
      RefersTo labelledMetrics group entry ↔ entry = ("up", ⟨.gauge, none, []⟩) := by
    have hfamilies : (["metric:up"].filterMap fun value =>
        (series? value).bind labelledMetrics.family?) = [("up", ⟨.gauge, none, []⟩)] := by
      decide +kernel
    rw [← refersTo_iff, hvalues, hfamilies, List.mem_singleton]
  obtain ⟨offer, hoffer, -⟩ := List.mem_map.mp (hoffers ▸ List.mem_cons_self)
  obtain ⟨entry, hentry, label, hlabel, -⟩ := h upAlone ⟨4, 9⟩ manifest context cursor
    labelledMetrics group "" hcursor (by rw [Cursor.root?, hchain]; rfl)
    (by rw [Cursor.parent?, hchain]; rfl) (by rw [hkey]; decide) rfl hgroup ⟨_, (hup _).mpr rfl⟩
    offer hoffer
  rw [(hup entry).mp hentry] at hlabel
  cases hlabel

end ManifestAssist.Prometheus
