import ManifestAssist.Proofs.Completion.Ranking
import ManifestAssist.Proofs.Completion.Vocabularies

/-! # What settings do to a completion

Each setting has its own part of a completion. Two of them come after the ranking: one takes marks
off the offers, and one takes preferred offers away. Without the built-in types a vocabulary has
fewer suggestions, but it still answers the requests that it answered with them. So the offers are
those that remain when the built-in types are taken out of a completion that has them.
-/

namespace ManifestAssist

namespace Suggestion

/-- Is it one of the entity types that no manifest declares? -/
def isBuiltin (suggestion : Suggestion) : Bool :=
  suggestion.detail == some "built-in type"

/-- The suggestion, which asks for no further ones when it is accepted. -/
def quiet (suggestion : Suggestion) : Suggestion :=
  { suggestion with retriggers := false }

theorem isBuiltin_eq_false {suggestion : Suggestion} {detail : String}
    (hdetail : suggestion.detail = some detail) (hne : detail ≠ "built-in type") :
    suggestion.isBuiltin = false := by
  simpa [isBuiltin, hdetail] using hne

end Suggestion

/-- The offer, which asks for no further suggestions when it is accepted. -/
def Offer.quiet (offer : Offer) : Offer :=
  { offer with suggestion := offer.suggestion.quiet }

/-- No built-in type is among the suggestions. -/
def LacksBuiltin (suggestions : List Suggestion) : Prop :=
  ∀ suggestion ∈ suggestions, suggestion.isBuiltin = false

/-- Is nothing but built-in types left out? -/
def KeepsOthers (keep : Suggestion → Bool) : Prop :=
  ∀ suggestion : Suggestion, suggestion.isBuiltin = false → keep suggestion

theorem KeepsOthers.not_isBuiltin : KeepsOthers fun suggestion => !suggestion.isBuiltin := by
  intro suggestion h
  simp [h]

namespace LacksBuiltin

theorem filter_eq_self {suggestions : List Suggestion} {keep : Suggestion → Bool}
    (h : LacksBuiltin suggestions) (hkeep : KeepsOthers keep) :
    suggestions.filter keep = suggestions :=
  List.filter_eq_self.mpr fun suggestion hmem => hkeep suggestion (h suggestion hmem)

theorem plain (kind : SuggestionKind) (labels : List String) :
    LacksBuiltin (Suggestion.plain kind labels) := by
  intro suggestion hmem
  obtain ⟨label, -, rfl⟩ := List.mem_map.mp hmem
  rfl

theorem unused {suggestions : List Suggestion} (h : LacksBuiltin suggestions)
    (used : List String) : LacksBuiltin (Suggestion.unused used suggestions) :=
  fun suggestion hmem => h suggestion (Suggestion.mem_unused.mp hmem).1

end LacksBuiltin

section Details

variable {request : Request}

theorem append_ne_builtin {c : Char} {front : String} (hfront : front.toList.head? = some c)
    (hc : c ≠ 'b') (back : String) : front ++ back ≠ "built-in type" := by
  intro h
  have hhead := congrArg (·.toList.head?) h
  simp only [String.toList_append, List.head?_append, hfront] at hhead
  exact hc (Option.some.inj hhead)

theorem Topology.lacksBuiltin_dimensions (section' : String) :
    LacksBuiltin (dimensions request section') := by
  refine LacksBuiltin.unused ?_ _
  intro suggestion hmem
  obtain ⟨key, -, rfl⟩ := List.mem_map.mp hmem
  exact Suggestion.isBuiltin_eq_false rfl (by decide)

theorem Topology.lacksBuiltin_of_placeholders? {draft : Draft}
    (h : placeholders? request = some draft) : LacksBuiltin draft.suggestions := by
  simp only [placeholders?, Option.bind_eq_bind, Option.bind_eq_some_iff, Option.pure_def,
    Option.some.injEq] at h
  obtain ⟨rule, -, rfl⟩ := h
  intro suggestion hmem
  obtain ⟨key, -, rfl⟩ := List.mem_map.mp hmem
  exact Suggestion.isBuiltin_eq_false rfl (by decide)

namespace Selector

theorem lacksBuiltin_operatorSuggestions (calls : Text) (isListCard : Bool) :
    LacksBuiltin (operatorSuggestions calls isListCard) := by
  intro suggestion hmem
  rcases List.mem_append.mp hmem with hmem | hmem
  · obtain ⟨operator, -, rfl⟩ := List.mem_map.mp hmem
    rfl
  · exact LacksBuiltin.plain _ _ suggestion hmem

theorem lacksBuiltin_healthStates (closing : String) :
    LacksBuiltin (healthStates.map fun label =>
      { label, kind := .enumMember, insertText := label ++ closing }) := by
  intro suggestion hmem
  obtain ⟨label, -, rfl⟩ := List.mem_map.mp hmem
  rfl

theorem mem_of_mem_firstByLabel {suggestions : List Suggestion} {suggestion : Suggestion}
    (h : suggestion ∈ firstByLabel suggestions) : suggestion ∈ suggestions := by
  induction hlength : suggestions.length using Nat.strongRecOn generalizing suggestions with
  | ind n ih =>
    cases suggestions with
    | nil => simp [firstByLabel] at h
    | cons first rest =>
      rw [firstByLabel, List.eraseDupsBy_cons, List.mem_cons] at h
      rcases h with rfl | h
      · exact List.mem_cons_self
      · have hle := List.length_filter_le (fun other => (other.label == first.label) == false) rest
        have hlt : rest.length < n := by simp [← hlength]
        have hmem := ih _ (Nat.lt_of_le_of_lt hle hlt) h rfl
        exact List.mem_cons_of_mem _ (List.mem_filter.mp hmem).1

theorem lacksBuiltin_relationshipSuggestions (relationships : List Relationship) (fragment : Text)
    (isOutgoing : Bool) :
    LacksBuiltin (relationshipSuggestions relationships fragment isOutgoing) := by
  intro suggestion hmem
  obtain ⟨relationship, -, hsuggest⟩ := List.mem_filterMap.mp (mem_of_mem_firstByLabel hmem)
  simp only [suggest?, Option.bind_eq_bind, Option.bind_eq_some_iff, Option.pure_def,
    Option.some.injEq] at hsuggest
  obtain ⟨name, -, rfl⟩ := hsuggest
  refine Suggestion.isBuiltin_eq_false rfl ?_
  intro h
  have hinfix : " to ".toList <:+: "built-in type".toList :=
    ⟨relationship.fromType.toList, relationship.toType.toList, by
      rw [← String.toList_append, ← String.toList_append, h]⟩
  exact absurd hinfix (by decide +kernel)

end Selector

theorem Screens.lacksBuiltin_freeCards : LacksBuiltin (freeCards request) := by
  unfold freeCards
  split
  · refine LacksBuiltin.unused ?_ _
    intro suggestion hmem
    obtain ⟨collection, hcollection, hmem⟩ := List.mem_flatMap.mp hmem
    obtain ⟨key, -, rfl⟩ := List.mem_map.mp hmem
    have hnames : ∀ collection ∈ collections, collection.name ≠ "built-in type" := by decide
    exact Suggestion.isBuiltin_eq_false rfl (hnames collection hcollection)
  · intro suggestion hmem
    simp at hmem

namespace Prometheus

theorem description_ne_builtin (family : Family) : description family ≠ "built-in type" := by
  unfold description
  split
  · rw [String.append_assoc]
    cases family.kind <;> exact append_ne_builtin rfl (by decide) _
  · cases family.kind <;> decide

theorem lacksBuiltin_metricValues (scrape : Scrape) (group : Yaml.Value) :
    LacksBuiltin (metricValues scrape group) := by
  refine LacksBuiltin.unused ?_ _
  intro suggestion hmem
  obtain ⟨⟨name, family⟩, -, hmem⟩ := List.mem_flatMap.mp hmem
  obtain ⟨series, -, rfl⟩ := List.mem_map.mp hmem
  exact Suggestion.isBuiltin_eq_false rfl (description_ne_builtin family)

theorem lacksBuiltin_metricKeys (scrape : Scrape) (group : Yaml.Value) (series : Option String) :
    LacksBuiltin (metricKeys scrape group series) := by
  refine LacksBuiltin.unused ?_ _
  intro suggestion hmem
  obtain ⟨⟨name, family⟩, -, hmem⟩ := List.mem_flatMap.mp hmem
  obtain ⟨label, -, rfl⟩ := List.mem_map.mp hmem
  exact Suggestion.isBuiltin_eq_false rfl (append_ne_builtin rfl (by decide) name)

end Prometheus

end Details

/-- The request with other settings. -/
def Request.withSettings (request : Request) (settings : Settings) : Request :=
  { request with context := { request.context with settings } }

@[simp] theorem Request.cursor_withSettings (request : Request) (settings : Settings) :
    (request.withSettings settings).cursor = request.cursor := rfl

@[simp] theorem Request.manifest_withSettings (request : Request) (settings : Settings) :
    (request.withSettings settings).manifest = request.manifest := rfl

/-- The draft with some of its suggestions. -/
def Draft.filter (keep : Suggestion → Bool) (draft : Draft) : Draft :=
  { draft with suggestions := draft.suggestions.filter keep }

section Vocabularies

variable {request : Request} {s t : Settings} {keep : Suggestion → Bool}

theorem Draft.filter_eq_self (hkeep : KeepsOthers keep) {draft : Draft}
    (h : LacksBuiltin draft.suggestions) : draft.filter keep = draft := by
  rw [filter, h.filter_eq_self hkeep]

theorem Draft.map_filter_eq_self (hkeep : KeepsOthers keep) {answer : Option Draft}
    (h : ∀ draft, answer = some draft → LacksBuiltin draft.suggestions) :
    answer.map (·.filter keep) = answer := by
  cases answer with
  | none => rfl
  | some draft => exact congrArg some (filter_eq_self hkeep (h draft rfl))

theorem Screens.lacksBuiltin_of_draft? {draft : Draft}
    (h : Screens.draft? request = some draft) : LacksBuiltin draft.suggestions := by
  simp only [Screens.draft?, Option.bind_eq_bind, Option.bind_eq_some_iff] at h
  obtain ⟨-, -, h⟩ := h
  split at h
  case h_5 => cases h
  all_goals
    split at h
    case isFalse => cases h
    obtain rfl := Option.some.inj h
  · exact (LacksBuiltin.plain _ _).unused _
  · exact lacksBuiltin_freeCards
  · exact LacksBuiltin.plain _ _
  · exact LacksBuiltin.plain _ _

theorem Prometheus.lacksBuiltin_of_draft? {draft : Draft}
    (h : Prometheus.draft? request = some draft) : LacksBuiltin draft.suggestions := by
  simp only [Prometheus.draft?, Option.bind_eq_bind, Option.bind_eq_some_iff] at h
  obtain ⟨-, -, scrape, -, group, -, parent, -, h⟩ := h
  split at h
  case h_6 => cases h
  all_goals obtain rfl := Option.some.inj h
  · exact lacksBuiltin_metricValues scrape group
  · exact lacksBuiltin_metricKeys scrape group _
  · exact LacksBuiltin.plain _ _
  · exact (LacksBuiltin.plain _ _).unused _
  · exact (LacksBuiltin.plain _ _).unused _

variable (hkeep : KeepsOthers keep)
  (htypes : ∀ closing, (request.withSettings s).entityTypes closing =
    ((request.withSettings t).entityTypes closing).filter keep)

include hkeep htypes

theorem Topology.draft?_withSettings :
    draft? (request.withSettings s) = (draft? (request.withSettings t)).map (·.filter keep) := by
  simp only [draft?, Option.bind_eq_bind, Option.map_bind, Function.comp_def]
  refine Option.bind_congr fun _ _ => Option.bind_congr fun parent _ => ?_
  simp only [Request.cursor_withSettings]
  generalize request.cursor.slot.key = key
  split
  case h_1 | h_2 =>
    rw [htypes]
    rfl
  case h_3 | h_4 =>
    exact congrArg some (Draft.filter_eq_self hkeep (LacksBuiltin.plain _ _)).symm
  case h_5 | h_6 =>
    exact (Draft.map_filter_eq_self hkeep fun _ => lacksBuiltin_of_placeholders?).symm
  case h_7 =>
    refine (Draft.map_filter_eq_self hkeep fun draft h => ?_).symm
    obtain ⟨-, hdraft⟩ := Option.ite_none_right_eq_some.mp h
    obtain rfl := Option.some.inj hdraft
    exact lacksBuiltin_dimensions _
  case h_8 => rfl

theorem Selector.draft?_withSettings :
    draft? (request.withSettings s) = (draft? (request.withSettings t)).map (·.filter keep) := by
  simp only [draft?, Option.bind_eq_bind, Option.map_bind, Function.comp_def]
  refine Option.bind_congr fun _ _ => Option.bind_congr fun tail _ => ?_
  simp only [Option.pure_def, Option.map_some, Draft.filter, suggestions,
    Request.cursor_withSettings, Request.manifest_withSettings]
  congr 2
  split
  · exact htypes _
  · exact ((lacksBuiltin_relationshipSuggestions _ _ _).filter_eq_self hkeep).symm
  · exact ((lacksBuiltin_healthStates _).filter_eq_self hkeep).symm
  · exact ((lacksBuiltin_operatorSuggestions _ _).filter_eq_self hkeep).symm

theorem Completion.findSome?_withSettings :
    vocabularies.findSome? (· (request.withSettings s)) =
      (vocabularies.findSome? (· (request.withSettings t))).map (·.filter keep) := by
  have hscreens : Screens.draft? (request.withSettings s) =
      (Screens.draft? (request.withSettings t)).map (·.filter keep) :=
    (Draft.map_filter_eq_self hkeep fun _ => Screens.lacksBuiltin_of_draft?).symm
  have hprometheus : Prometheus.draft? (request.withSettings s) =
      (Prometheus.draft? (request.withSettings t)).map (·.filter keep) :=
    (Draft.map_filter_eq_self hkeep fun _ => Prometheus.lacksBuiltin_of_draft?).symm
  simp only [vocabularies, List.findSome?_cons, List.findSome?_nil, hscreens, hprometheus,
    Topology.draft?_withSettings hkeep htypes, Selector.draft?_withSettings hkeep htypes]
  cases Topology.draft? (request.withSettings t) with
  | some draft => rfl
  | none =>
    cases Selector.draft? (request.withSettings t) with
    | some draft => rfl
    | none =>
      cases Screens.draft? (request.withSettings t) with
      | some draft => rfl
      | none => cases Prometheus.draft? (request.withSettings t) <;> rfl

end Vocabularies

section Complete

variable {s t : Settings} {keep : Suggestion → Bool}

theorem Request.entityTypes_withSettings (request : Request)
    (h : s.hasBuiltinTypes = t.hasBuiltinTypes) (closing : String) :
    (request.withSettings s).entityTypes closing =
      (request.withSettings t).entityTypes closing := by
  cases ht : t.hasBuiltinTypes <;> simp [entityTypes, withSettings, h, ht]

theorem Request.entityTypes_filter (request : Request) (hs : s.hasBuiltinTypes = false)
    (ht : t.hasBuiltinTypes = true) (closing : String) :
    (request.withSettings s).entityTypes closing =
      ((request.withSettings t).entityTypes closing).filter (!·.isBuiltin) := by
  simp only [entityTypes, withSettings, hs, ht, List.filter_append, if_true, if_false,
    Bool.false_eq_true]
  congr 1
  · refine (List.filter_eq_self.mpr fun suggestion hmem => ?_).symm
    obtain ⟨label, -, rfl⟩ := List.mem_map.mp hmem
    exact KeepsOthers.not_isBuiltin _ (Suggestion.isBuiltin_eq_false rfl (by decide))
  · refine (List.filter_eq_nil_iff.mpr fun suggestion hmem => ?_).symm
    obtain ⟨label, -, rfl⟩ := List.mem_map.mp hmem
    simp [Suggestion.isBuiltin]

theorem Completion.offers_ofDraft_nil (text : Text) (settings : Settings) (replace : Span) :
    (ofDraft text settings ⟨[], replace⟩).offers = [] := by
  simp [ofDraft, Suggestion.sortBy, Suggestion.ranked]

theorem offers_complete (text : Text) (position : Position) (manifest : Manifest)
    (context : Context) :
    (complete text position manifest context).offers =
      (((Cursor.at? text position).bind fun cursor =>
        Completion.vocabularies.findSome? (· ⟨cursor, manifest, context⟩)).map fun draft =>
          (Completion.ofDraft text context.settings draft).offers).getD [] := by
  unfold complete
  cases Cursor.at? text position with
  | none => rfl
  | some cursor =>
    simp only [Completion.draft?_eq_filter, Option.bind_some]
    cases Completion.vocabularies.findSome? (· ⟨cursor, manifest, context⟩) with
    | none => rfl
    | some draft =>
      -- A draft without suggestions counts as none, and would not have offered anything either.
      obtain ⟨suggestions, replace⟩ := draft
      cases suggestions with
      | nil => exact (Completion.offers_ofDraft_nil text context.settings replace).symm
      | cons first rest => rfl

theorem Completion.draft?_withSettings (request : Request)
    (h : s.hasBuiltinTypes = t.hasBuiltinTypes) :
    draft? (request.withSettings s) = draft? (request.withSettings t) := by
  have hall (suggestions : List Suggestion) : suggestions.filter (fun _ => true) = suggestions :=
    List.filter_eq_self.mpr fun _ _ => rfl
  have hanswer : vocabularies.findSome? (· (request.withSettings s)) =
      (vocabularies.findSome? (· (request.withSettings t))).map (·.filter fun _ => true) :=
    findSome?_withSettings (fun _ _ => rfl) fun closing =>
      (request.entityTypes_withSettings h closing).trans (hall _).symm
  simp only [Draft.filter, hall, Option.map_id'] at hanswer
  rw [draft?_eq_filter, draft?_eq_filter, hanswer]

namespace Completion

variable (text : Text) (draft : Draft)

theorem map_quiet_ofDraft :
    (ofDraft text s draft).offers.map Offer.quiet =
      (ofDraft text t draft).offers.map Offer.quiet := by
  simp [ofDraft, Function.comp_def, Offer.quiet, Suggestion.quiet]

theorem offers_ofDraft_of_silent (h : s.retriggers = false) :
    (ofDraft text s draft).offers = (ofDraft text t draft).offers.map Offer.quiet := by
  simp [ofDraft, Function.comp_def, Offer.quiet, Suggestion.quiet, h]

theorem preferred_ofDraft_take (h : s.preferredLimit ≤ t.preferredLimit) :
    (ofDraft text s draft).preferred = (ofDraft text t draft).preferred.take s.preferredLimit := by
  simp only [ofDraft, Suggestion.preferred]
  split
  · simp
  · rw [List.take_take, Nat.min_eq_left h]

/-- The query is the same for fewer suggestions, and the order of those that are left, too. -/
theorem offers_ofDraft_filter (h : s.retriggers = t.retriggers) :
    (ofDraft text s (draft.filter fun suggestion => !suggestion.isBuiltin)).offers =
      (ofDraft text t draft).offers.filter fun offer => !offer.suggestion.isBuiltin := by
  simp only [ofDraft, Draft.filter, ← Suggestion.filter_sortBy, List.filter_map, h]
  rfl

end Completion

/-- The settings are independent of each other. As long as they agree on the built-in types, no more
than marks are taken off the offers, and the preferred ones are cut short. Without the built-in
types, all others are offered as before, in the same order. -/
theorem complete_settings (text : Text) (position : Position) (manifest : Manifest)
    (scrape : Option Scrape) (s t : Settings) :
    let a := complete text position manifest ⟨s, scrape⟩
    let b := complete text position manifest ⟨t, scrape⟩
    (s.hasBuiltinTypes = t.hasBuiltinTypes →
      a.replace = b.replace ∧ a.offers.map Offer.quiet = b.offers.map Offer.quiet ∧
      (s.retriggers = false → a.offers = b.offers.map Offer.quiet) ∧
      (s.preferredLimit ≤ t.preferredLimit → a.preferred = b.preferred.take s.preferredLimit)) ∧
    (t.hasBuiltinTypes = true → s = { t with hasBuiltinTypes := false } →
      a.offers = b.offers.filter fun offer => !offer.suggestion.isBuiltin) := by
  intro a b
  constructor
  · intro hbuiltin
    have hdraft (cursor : Cursor) : Completion.draft? ⟨cursor, manifest, s, scrape⟩ =
        Completion.draft? ⟨cursor, manifest, t, scrape⟩ :=
      Completion.draft?_withSettings ⟨cursor, manifest, t, scrape⟩ hbuiltin
    simp only [a, b, complete, hdraft]
    split
    · simp [Completion.nothing]
    · split
      · simp [Completion.nothing]
      · next draft _ =>
        exact ⟨rfl, Completion.map_quiet_ofDraft text draft,
          Completion.offers_ofDraft_of_silent text draft,
          Completion.preferred_ofDraft_take text draft⟩
  · rintro hbuiltin rfl
    simp only [a, b, offers_complete]
    cases Cursor.at? text position with
    | none => rfl
    | some cursor =>
      have hanswer : Completion.vocabularies.findSome?
            (· ⟨cursor, manifest, { t with hasBuiltinTypes := false }, scrape⟩) =
          (Completion.vocabularies.findSome? (· ⟨cursor, manifest, t, scrape⟩)).map
            (·.filter fun suggestion => !suggestion.isBuiltin) :=
        Completion.findSome?_withSettings KeepsOthers.not_isBuiltin
          (Request.entityTypes_filter ⟨cursor, manifest, t, scrape⟩ rfl hbuiltin)
      simp only [Option.bind_some, hanswer]
      cases Completion.vocabularies.findSome? (· ⟨cursor, manifest, t, scrape⟩) with
      | none => rfl
      | some draft => exact Completion.offers_ofDraft_filter text draft rfl

/-- A relationship whose start is still to be typed. -/
def halfRelationship : Text :=
  "topology:\n  types:\n  - name: pod\n  relationships:\n  - fromType: ".toList

theorem complete_settings_halfRelationship :
    let manifest := (Manifest.parse halfRelationship).toOption.getD .empty
    let completion (settings : Settings) :=
      complete halfRelationship ⟨4, 14⟩ manifest ⟨settings, none⟩
    let declared : Settings := { Settings.default with hasBuiltinTypes := false }
    (completion .default).offers.length = 11 ∧
      (completion declared).offers.map (·.suggestion.label) = ["pod"] ∧
      (completion declared).offers =
        (completion .default).offers.filter fun offer => !offer.suggestion.isBuiltin := by
  intro manifest completion declared
  have h := complete_settings halfRelationship ⟨4, 14⟩ manifest none declared .default
  exact ⟨by decide +kernel, by decide +kernel, h.2 rfl rfl⟩

end Complete

end ManifestAssist
