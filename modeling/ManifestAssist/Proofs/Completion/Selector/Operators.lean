import ManifestAssist.Proofs.Completion.Selector.Scope

/-! # Operators that a selector can still have

The outline of a selector holds the label of a single operator if and only if some criterion is a
call of it. Calls within arguments and calls around the selector are not in the outline.
-/

namespace ManifestAssist.Selector

open Text

variable {criteria : List Criterion}

/-- Is the criterion a call of the operator? -/
def Operator.Calls (operator : Operator) (criterion : Criterion) : Prop :=
  ∃ call, criterion = .call call ∧ operator.label.toList = call.name ++ ['(']

theorem hasPart_outlines_iff {label : Text} (hne : label ≠ []) (hcomma : ',' ∉ label) :
    hasPart (criteria.flatMap fun criterion => criterion.outline ++ [',']) label ↔
      ∃ criterion ∈ criteria, label <:+: criterion.outline := by
  rw [hasPart_iff]
  induction criteria with
  | nil => simp [hne]
  | cons criterion criteria ih =>
    rw [List.flatMap_cons, List.append_assoc, List.singleton_append,
      isInfix_append_cons_iff hcomma, ih, List.exists_mem_cons_iff]

theorem isInfix_outline_iff_calls {operator : Operator} (hoperator : operator ∈ operators)
    (hsingle : operator.isSingle) (criterion : Criterion) :
    operator.label.toList <:+: criterion.outline ↔ operator.Calls criterion := by
  have hnames : ∀ operator ∈ operators, operator.isSingle → ∀ name ∈ callNames,
      (operator.label.toList <:+: name ++ ['(', ')'] ↔ operator.label.toList = name ++ ['(']) := by
    decide
  have hconditions : ∀ operator ∈ operators,
      ¬ operator.label.toList <:+: entityConditions.toList := by
    decide
  cases criterion with
  | conditions =>
    refine iff_of_false (hconditions operator hoperator) ?_
    rintro ⟨call, hcall, -⟩
    cases hcall
  | call c =>
    refine (hnames operator hoperator hsingle c.name c.name_mem).trans ?_
    constructor
    · exact fun h => ⟨c, rfl, h⟩
    · rintro ⟨_, ⟨⟩, h⟩
      exact h

theorem conditions_isInfix_outline_iff (criterion : Criterion) :
    entityConditions.toList <:+: criterion.outline ↔ criterion = .conditions := by
  cases criterion with
  | conditions => exact iff_of_true List.infix_rfl rfl
  | call c =>
    refine iff_of_false ?_ (by simp)
    intro h
    have hdollar : '$' ∈ c.name ++ ['(', ')'] := h.subset (by decide)
    simp [notMem_of_mem_callNames c.name_mem (show ¬ isNameChar '$' by decide)] at hdollar

section Labels

variable {calls : Text} {isListCard : Bool} {operator : Operator}

theorem map_label_operatorSuggestions (calls : Text) (isListCard : Bool) :
    (operatorSuggestions calls isListCard).map (·.label) =
      (operators.filter fun operator =>
        !(operator.isSingle && calls.hasPart operator.label.toList)).map (·.label) ++
      if isListCard && !calls.hasPart entityConditions.toList then [entityConditions] else [] := by
  simp [operatorSuggestions, Suggestion.plain, Function.comp_def]

theorem label_mem_operatorSuggestions_iff (h : operator ∈ operators) :
    operator.label ∈ (operatorSuggestions calls isListCard).map (·.label) ↔
      (operator.isSingle → ¬ calls.hasPart operator.label.toList) := by
  have hlabels : ∀ a ∈ operators, ∀ b ∈ operators, a.label = b.label → a = b := by decide
  have hconditions : ∀ a ∈ operators, a.label ≠ entityConditions := by decide
  have hfree (a : Operator) : (!(a.isSingle && calls.hasPart a.label.toList)) = true ↔
      (a.isSingle → ¬ calls.hasPart a.label.toList) := by
    cases a.isSingle <;> simp
  rw [map_label_operatorSuggestions, List.mem_append, or_iff_left]
  · simp only [List.mem_map, List.mem_filter, hfree]
    constructor
    · rintro ⟨other, ⟨hother, hkept⟩, hlabel⟩
      obtain rfl := hlabels other hother operator h hlabel
      exact hkept
    · exact fun hkept => ⟨operator, ⟨h, hkept⟩, rfl⟩
  · split
    · simpa using hconditions operator h
    · exact List.not_mem_nil

theorem entityConditions_mem_operatorSuggestions_iff :
    entityConditions ∈ (operatorSuggestions calls isListCard).map (·.label) ↔
      isListCard ∧ ¬ calls.hasPart entityConditions.toList := by
  have hconditions : ∀ a ∈ operators, a.label ≠ entityConditions := by decide
  rw [map_label_operatorSuggestions, List.mem_append, or_iff_right]
  · split <;> simp_all
  · intro hmem
    obtain ⟨operator, hoperator, hlabel⟩ := List.mem_map.mp hmem
    exact hconditions operator (List.mem_filter.mp hoperator).1 hlabel

end Labels

/-- Behind the criteria of a selector, the operators are offered in their order, each once. All that
is left out are single operators which some criterion calls. The placeholder for conditions is
offered on the cards of entity lists, unless it is a criterion. -/
theorem operatorSuggestions_of_endsIn {fragment : Text} (h : EndsIn (listed criteria) fragment)
    (isListCard : Bool) :
    let labels := (operatorSuggestions (outline fragment) isListCard).map (·.label)
    (∀ operator ∈ operators, operator.label ∈ labels ↔
      (operator.isSingle → ∀ criterion ∈ criteria, ¬ operator.Calls criterion)) ∧
    (entityConditions ∈ labels ↔ isListCard ∧ .conditions ∉ criteria) ∧
    labels.Sublist (operators.map (·.label) ++ [entityConditions]) := by
  intro labels
  have houtline := outline_of_endsIn h
  refine ⟨fun operator hoperator => ?_, ?_, ?_⟩
  · have hlabel : ∀ a ∈ operators, a.label.toList ≠ [] ∧ ',' ∉ a.label.toList := by decide
    obtain ⟨hne, hcomma⟩ := hlabel operator hoperator
    refine (label_mem_operatorSuggestions_iff hoperator).trans (imp_congr_right fun hsingle => ?_)
    rw [houtline, hasPart_outlines_iff hne hcomma]
    simp only [isInfix_outline_iff_calls hoperator hsingle, not_exists, not_and]
  · refine entityConditions_mem_operatorSuggestions_iff.trans (and_congr_right fun _ => ?_)
    rw [houtline, hasPart_outlines_iff (by decide) (by decide)]
    simp [conditions_isInfix_outline_iff]
  · rw [show labels = _ from map_label_operatorSuggestions ..]
    refine List.Sublist.append (List.filter_sublist.map _) ?_
    split
    · exact List.Sublist.refl _
    · exact List.nil_sublist _

/-- The criteria of an open negation: a type, a relationship with calls of its own, and the
placeholder. -/
def negated : List Criterion :=
  [.call ⟨"type".toList, "a(b)".toList, by decide, by decide⟩,
    .call ⟨"fromRelationships.runsOn".toList, "healthState(x),type(y)".toList, by decide,
      by decide⟩,
    .conditions]

theorem operatorSuggestions_of_endsIn_negated :
    let fragment := "healthState(z),not(type(a(b)),".toList ++
      "fromRelationships.runsOn(healthState(x),type(y)),$(entityConditions),".toList
    let labels := (operatorSuggestions (outline fragment) true).map (·.label)
    EndsIn (listed negated) fragment ∧
      (⟨"type(", true⟩ ∈ operators ∧ "type(" ∉ labels) ∧
      (⟨"healthState(", true⟩ ∈ operators ∧ "healthState(" ∈ labels) ∧
      entityConditions ∉ labels := by
  intro fragment labels
  have h : EndsIn (listed negated) fragment :=
    .inr ⟨"healthState(z),not".toList, by decide⟩
  obtain ⟨hoperators, hconditions, -⟩ := operatorSuggestions_of_endsIn h true
  have htype : ⟨"type(", true⟩ ∈ operators := by decide
  have hstate : ⟨"healthState(", true⟩ ∈ operators := by decide
  refine ⟨h, ⟨htype, ?_⟩, ⟨hstate, ?_⟩, ?_⟩
  · intro hmem
    exact (hoperators _ htype).mp hmem rfl _ List.mem_cons_self ⟨_, rfl, by decide⟩
  · refine (hoperators _ hstate).mpr fun _ criterion hcriterion => ?_
    rintro ⟨call, rfl, hname⟩
    simp only [negated, List.mem_cons, Criterion.call.injEq, List.not_mem_nil, or_false,
      reduceCtorEq] at hcriterion
    rcases hcriterion with rfl | rfl <;> simp at hname
  · intro hmem
    exact (hconditions.mp hmem).2 (by simp [negated])

end ManifestAssist.Selector
