import ManifestAssist.Proofs.Completion.Vocabularies
import ManifestAssist.Proofs.Distinct
import ManifestAssist.Proofs.Manifest.Groups
import ManifestAssist.Proofs.Text.Cut
import ManifestAssist.Proofs.Text.Split

/-! # Dimensions of rules

The sources of a rule have conditions on the keys of metrics. The groups with a metric that meets
one of them feed the rule, and without conditions all groups do. A section of the rule is offered
the dimensions of these groups that it does not have yet, each once, in the order in which they
come.
-/

namespace ManifestAssist

open Text
open Yaml (Value)

theorem Cursor.parent?_of_endsWith {cursor : Cursor} (labels : List String) {label : String}
    (h : cursor.endsWith (labels ++ [label])) : cursor.parent? = some label := by
  obtain ⟨front, hchain⟩ := List.isSuffixOf_iff_suffix.mp h
  rw [parent?, ← hchain, ← List.append_assoc, List.getLast?_concat]

namespace Topology

namespace Condition

variable {condition : Condition} {text key : Text}

def name : Condition → String
  | startsWith _ => "prefix"
  | endsWith _ => "suffix"
  | equals _ => "eq"
  | contains _ => "contains"

def argument : Condition → Text
  | startsWith part => part
  | endsWith part => part
  | equals key => key
  | contains part => part

/-- A condition as it stands in a manifest. -/
def written (condition : Condition) : Text :=
  '$' :: condition.name.toList ++ '(' :: condition.argument ++ [')']

/-- What a condition asks of a key. -/
def Asks : Condition → Text → Prop
  | startsWith part, key => part <+: key
  | endsWith part, key => part <:+ key
  | equals key', key => key = key'
  | contains part, key => part <:+: key

theorem ofText?_eq_some_iff : ofText? text = some condition ↔ trim text = condition.written := by
  constructor
  · intro h
    simp only [ofText?, Option.bind_eq_bind, Option.bind_eq_some_iff, Prod.exists] at h
    obtain ⟨call, hcall, name, rest, hname, part, hpart, h⟩ := h
    rw [dropFront?_eq_some.mp hcall, splitFirst_eq_some hname, dropBack?_eq_some.mp hpart]
    split at h
    case h_5 => cases h
    all_goals
      next hofList =>
        obtain rfl := Option.some.inj h
        rw [← String.toList_ofList (l := name), hofList]
        simp [written, Condition.name, argument]
  · intro h
    have hcall : dropFront? (trim text) ['$'] =
        some (condition.name.toList ++ '(' :: (condition.argument ++ [')'])) := by
      rw [h, dropFront?_eq_some]
      simp [written]
    have hname : '(' ∉ condition.name.toList := by cases condition <;> simp [name]
    have hargument : dropBack? (condition.argument ++ [')']) [')'] = some condition.argument :=
      dropBack?_eq_some.mpr rfl
    simp only [ofText?, Option.bind_eq_bind, hcall, Option.bind_some, splitFirst_append_cons hname,
      hargument, String.ofList_toList]
    cases condition <;> rfl

theorem holds_iff : condition.holds key ↔ condition.Asks key := by
  cases condition with
  | startsWith part =>
    simp only [holds, Asks, Option.isSome_iff_exists, dropFront?_eq_some]
    exact exists_congr fun rest => eq_comm
  | endsWith part =>
    simp only [holds, Asks, Option.isSome_iff_exists, dropBack?_eq_some]
    exact exists_congr fun rest => eq_comm
  | equals key' => exact beq_iff_eq
  | contains part => exact hasPart_iff

end Condition

variable {request : Request} {rule : Value} {condition : Condition} {group : MetricGroup}

/-- The cursor is in this rule: its items among the types and among the rules lead there. -/
def HoldsCursor (request : Request) (rule : Value) : Prop :=
  ∃ i j type, request.cursor.item? "types" = some i ∧ request.cursor.item? "rules" = some j ∧
    ((request.manifest.root.get "topology").get "types").items[i]? = some type ∧
    (type.get "rules").items[j]? = some rule

/-- Does a source of the rule have this condition? -/
def HasCondition (rule : Value) (condition : Condition) : Prop :=
  ∃ source ∈ (rule.get "sources").items, ∃ text, source.field? "condition" = some text ∧
    trim text.toList = condition.written

/-- Does a group feed the rule at the cursor? Without any condition it does. -/
def Feeds (request : Request) (group : MetricGroup) : Prop :=
  (∀ rule, HoldsCursor request rule → ∀ condition, ¬ HasCondition rule condition) ∨
    ∃ rule, HoldsCursor request rule ∧ ∃ condition, HasCondition rule condition ∧
      ∃ key ∈ group.metricKeys, condition.Asks key.toList

theorem rule?_eq_some_iff : rule? request = some rule ↔ HoldsCursor request rule := by
  simp only [rule?, Option.bind_eq_bind, Option.bind_eq_some_iff, HoldsCursor, Manifest.types]
  constructor
  · rintro ⟨i, hi, type, htype, j, hj, hrule⟩
    exact ⟨i, j, type, hi, hj, htype, hrule⟩
  · rintro ⟨i, j, type, hi, hj, htype, hrule⟩
    exact ⟨i, hi, type, htype, j, hj, hrule⟩

theorem mem_conditions_iff : condition ∈ conditions rule ↔ HasCondition rule condition := by
  simp only [conditions, List.mem_filterMap, Condition.ofText?_eq_some_iff, Value.mem_fields_iff,
    HasCondition]
  constructor
  · rintro ⟨text, ⟨source, hsource, htext⟩, hwritten⟩
    exact ⟨source, hsource, text, htext, hwritten⟩
  · rintro ⟨source, hsource, text, htext, hwritten⟩
    exact ⟨text, ⟨source, hsource, htext⟩, hwritten⟩

theorem feeds_iff :
    feeds (((rule? request).map conditions).getD []) group ↔ Feeds request group := by
  unfold feeds Feeds
  simp only [← rule?_eq_some_iff]
  cases rule? request with
  | none => simp
  | some rule =>
    simp only [Option.map_some, Option.getD_some, Bool.or_eq_true, List.isEmpty_iff,
      List.eq_nil_iff_forall_not_mem, mem_conditions_iff, List.any_eq_true, Condition.holds_iff,
      Option.some.injEq, forall_eq', exists_eq_left']
    apply or_congr Iff.rfl
    constructor
    · rintro ⟨key, hkey, condition, hcondition, hasks⟩
      exact ⟨condition, hcondition, key, hkey, hasks⟩
    · rintro ⟨condition, hcondition, key, hkey, hasks⟩
      exact ⟨key, hkey, condition, hcondition, hasks⟩

instance : DecidablePred (Feeds request) :=
  fun _ => decidable_of_iff _ feeds_iff

/-- The dimensions of all groups that feed the rule, one group after another. -/
def fedDimensions (request : Request) : List String :=
  (request.manifest.metricGroups.filter (Feeds request ·)).flatMap (·.dimensionKeys)

variable {section' key : String}

theorem map_label_dimensions (request : Request) (section' : String) :
    (dimensions request section').map (·.label) =
      (fedDimensions request).eraseDups.filter fun key =>
        !(((rule? request).map (·.fields section' "key")).getD []).contains key := by
  have hfed : request.manifest.metricGroups.filter
        (feeds (((rule? request).map conditions).getD [])) =
      request.manifest.metricGroups.filter (Feeds request ·) := by
    apply List.filter_congr
    intro group _
    rw [Bool.eq_iff_iff, feeds_iff, decide_eq_true_iff]
  simp only [dimensions, Suggestion.map_label_unused, fedDimensions, hfed, List.map_map,
    Function.comp_def, List.map_id']

theorem draft?_eq_dimensions (hroot : request.cursor.root? = some "topology")
    (hsection : section' ∈ dimensionSections) (hends : request.cursor.endsWith ["rules", section'])
    (hkey : request.cursor.slot.key = "key") :
    draft? request = some ⟨dimensions request section', request.cursor.valueSpan⟩ := by
  have hparent : request.cursor.parent? = some section' :=
    Cursor.parent?_of_endsWith ["rules"] hends
  have hcontains : dimensionSections.contains section' = true := by simpa using hsection
  simp only [draft?, hroot, hparent, hkey, hcontains, hends, guard_true, Option.bind_eq_bind,
    Option.pure_def, Option.bind_some, Bool.and_self, if_true]

theorem mem_fedDimensions_iff :
    key ∈ fedDimensions request ↔
      ∃ group, request.manifest.HasGroup group ∧ key ∈ group.dimensionKeys ∧
        Feeds request group := by
  simp only [fedDimensions, List.mem_flatMap, List.mem_filter, decide_eq_true_iff,
    Manifest.mem_metricGroups_iff]
  apply exists_congr
  tauto

/-- A section of the rule that the cursor is in is offered the dimensions of the groups that feed the
rule, unless it has them. Each is offered once, and the order is that of the groups. -/
theorem draft?_of_dimensionSection (hroot : request.cursor.root? = some "topology")
    (hsection : section' ∈ dimensionSections) (hends : request.cursor.endsWith ["rules", section'])
    (hkey : request.cursor.slot.key = "key") :
    ∃ draft, draft? request = some draft ∧ draft.replace = request.cursor.valueSpan ∧
      (draft.suggestions.map (·.label)).Nodup ∧
      (∀ key, key ∈ draft.suggestions.map (·.label) ↔
        (∃ group, request.manifest.HasGroup group ∧ key ∈ group.dimensionKeys ∧
          Feeds request group) ∧
        ∀ rule, HoldsCursor request rule → ∀ entry ∈ (rule.get section').items,
          entry.field? "key" ≠ some key) ∧
      (draft.suggestions.map (·.label)).Pairwise fun key key' =>
        (fedDimensions request).idxOf key < (fedDimensions request).idxOf key' := by
  refine ⟨_, draft?_eq_dimensions hroot hsection hends hkey, rfl, ?_, ?_, ?_⟩
  · rw [map_label_dimensions]
    exact (nodup_eraseDups _).filter _
  · intro key
    rw [map_label_dimensions]
    simp only [← rule?_eq_some_iff]
    cases rule? request with
    | none => simp [List.mem_eraseDups, mem_fedDimensions_iff]
    | some rule =>
      simp only [Option.map_some, Option.getD_some, Value.mem_filter_fields_iff,
        List.mem_eraseDups, mem_fedDimensions_iff, Option.some.injEq, forall_eq']
  · rw [map_label_dimensions]
    exact (pairwise_idxOf_eraseDups _).filter _

/-- The second rule of a second type, whose first required dimension is to be named. -/
def secondRule : Text :=
  ("topology:\n  types:\n  - rules:\n    - attributes:\n" ++
    "  - rules:\n    - attributes:\n    - requiredDimensions:\n      - key: ").toList

/-- The second rule of the second type is fed by a subgroup only, and has one of the dimensions of
the group around it. The other rules are fed by no group. -/
def fedBySubgroup : Manifest :=
  let record (entries : List (String × Value)) : Value :=
    .map (entries.map fun (key, v) => (.string key, v))
  let keys (keys : List String) : Value :=
    .list (keys.map fun key => record [("key", .string key)])
  let subgroup := record [("dimensions", keys ["port"]), ("metrics", keys ["b.io"])]
  let group := record [("dimensions", keys ["host", "disk"]), ("metrics", keys ["a.cpu"]),
    ("subgroups", .list [subgroup])]
  let rule (condition : String) (required : List String) : Value :=
    record [("sources", .list [record [("condition", .string condition)]]),
      ("requiredDimensions", keys required)]
  let type (rules : List Value) : Value := record [("rules", .list rules)]
  ⟨record [("prometheus", .list [group]), ("topology", record [("types", .list
    [type [rule "$eq(c)" ["disk"]], type [rule "$eq(c)" [], rule "$prefix(b.)" ["host"]]])])]⟩

theorem draft?_of_dimensionSection_secondRule :
    ∃ cursor, Cursor.at? secondRule ⟨7, 13⟩ = some cursor ∧
      (cursor.root? = some "topology" ∧ "requiredDimensions" ∈ dimensionSections ∧
        cursor.endsWith ["rules", "requiredDimensions"] ∧ cursor.slot.key = "key") ∧
      (cursor.item? "types" = some 1 ∧ cursor.item? "rules" = some 1) ∧
      ∃ draft, draft? ⟨cursor, fedBySubgroup, .default⟩ = some draft ∧
        draft.suggestions.map (·.label) = ["disk", "port"] ∧
        ∃ group, fedBySubgroup.HasGroup group ∧ "disk" ∈ group.dimensionKeys ∧
          Feeds ⟨cursor, fedBySubgroup, .default⟩ group := by
  have hfacts : (Cursor.at? secondRule ⟨7, 13⟩).map (fun cursor =>
        ((cursor.chain, cursor.slot.key, cursor.item? "types", cursor.item? "rules"),
          (draft? ⟨cursor, fedBySubgroup, .default⟩).map fun draft =>
            draft.suggestions.map (·.label))) =
      some ((["topology", "types", "rules", "requiredDimensions"], "key", some 1, some 1),
        some ["disk", "port"]) := by
    decide +kernel
  obtain ⟨cursor, hcursor, hfacts⟩ := Option.map_eq_some_iff.mp hfacts
  simp only [Prod.mk.injEq] at hfacts
  obtain ⟨⟨hchain, hkey, htypes, hrules⟩, hlabels⟩ := hfacts
  have hroot : cursor.root? = some "topology" := by rw [Cursor.root?, hchain]; rfl
  have hsection : "requiredDimensions" ∈ dimensionSections := by decide
  have hends : cursor.endsWith ["rules", "requiredDimensions"] := by
    rw [Cursor.endsWith, hchain]
    decide
  obtain ⟨draft, hdraft, -, -, hmem, -⟩ :=
    @draft?_of_dimensionSection ⟨cursor, fedBySubgroup, .default⟩ _ hroot hsection hends hkey
  rw [hdraft, Option.map_some, Option.some.injEq] at hlabels
  have hdisk : "disk" ∈ draft.suggestions.map (·.label) := by rw [hlabels]; decide
  exact ⟨cursor, hcursor, ⟨hroot, hsection, hends, hkey⟩, ⟨htypes, hrules⟩, draft, hdraft, hlabels,
    ((hmem "disk").mp hdisk).1⟩

end Topology

end ManifestAssist
