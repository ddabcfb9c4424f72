import ManifestAssist.Proofs.Completion.Offers
import ManifestAssist.Proofs.Completion.Vocabularies

/-! # Placeholders in patterns

The braces of a pattern are paired if each one that opens is closed before the next one opens. A
placeholder takes the place of a brace that is open at the cursor. The brace that closes it may
follow behind the cursor, and there it stays.
-/

namespace ManifestAssist

open Text

namespace Braces

/-- Whether a text is within braces behind a character, if the character may stand there. -/
def step : Bool → Char → Option Bool
  | false, '\x7b' => some true
  | true, '\x7b' => none
  | true, '\x7d' => some false
  | false, '\x7d' => none
  | isWithin, _ => some isWithin

/-- Whether a text ends within braces, if its braces are paired so far. -/
def run (isWithin : Bool) (text : Text) : Option Bool :=
  text.foldlM step isWithin

/-- Is each opening brace closed before the next one opens? -/
def Paired (text : Text) : Prop :=
  run false text = some false

instance (text : Text) : Decidable (Paired text) :=
  inferInstanceAs (Decidable (_ = _))

/-- Neither braces nor newlines? -/
def IsPlain (text : Text) : Prop :=
  '\x7b' ∉ text ∧ '\x7d' ∉ text ∧ '\n' ∉ text

variable {a b text : Text} {isWithin : Bool} {c : Char}

theorem step_of_ne (h : c ≠ '\x7b') (h' : c ≠ '\x7d') : step isWithin c = some isWithin := by
  unfold step
  split <;> first | rfl | contradiction

theorem run_cons (isWithin : Bool) (c : Char) (text : Text) :
    run isWithin (c :: text) = (step isWithin c).bind (run · text) :=
  List.foldlM_cons

theorem run_append (isWithin : Bool) (a b : Text) :
    run isWithin (a ++ b) = (run isWithin a).bind (run · b) :=
  List.foldlM_append

theorem run_of_notMem (h : '\x7b' ∉ text) (h' : '\x7d' ∉ text) :
    run isWithin text = some isWithin := by
  induction text with
  | nil => rfl
  | cons c text ih =>
    simp only [List.mem_cons, not_or] at h h'
    rw [run_cons, step_of_ne (Ne.symm h.1) (Ne.symm h'.1)]
    exact ih h.2 h'.2

theorem of_run_eq_true (h : '\x7b' ∉ text) (hrun : run isWithin text = some true) :
    isWithin = true ∧ '\x7d' ∉ text := by
  induction text generalizing isWithin with
  | nil => exact ⟨Option.some.inj hrun, List.not_mem_nil⟩
  | cons c text ih =>
    simp only [List.mem_cons, not_or] at h
    obtain ⟨next, hstep, hrest⟩ := Option.bind_eq_some_iff.mp hrun
    obtain ⟨rfl, hclosing⟩ := ih h.2 hrest
    have hc : '\x7d' ≠ c := by
      rintro rfl
      cases isWithin <;> cases hstep
    rw [step_of_ne (Ne.symm h.1) (Ne.symm hc)] at hstep
    exact ⟨Option.some.inj hstep, by simp [hc, hclosing]⟩

theorem run_false_ne_of_run_true (h : run true text = some false) :
    run false text ≠ some false := by
  -- At the first brace, one of the two runs stops. Up to there they do the same.
  induction text with
  | nil => cases h
  | cons c text ih =>
    obtain ⟨next, hstep, hrest⟩ := Option.bind_eq_some_iff.mp h
    intro hother
    obtain ⟨next', hstep', hrest'⟩ := Option.bind_eq_some_iff.mp hother
    by_cases hopening : c = '\x7b'
    · subst hopening
      cases hstep
    · by_cases hclosing : c = '\x7d'
      · subst hclosing
        cases hstep'
      · rw [step_of_ne hopening hclosing] at hstep hstep'
        obtain rfl := Option.some.inj hstep
        obtain rfl := Option.some.inj hstep'
        exact ih hrest hrest'

theorem exists_last_of_mem (h : c ∈ text) : ∃ a b, text = a ++ c :: b ∧ c ∉ b := by
  obtain ⟨b, a, hreverse, hb⟩ := List.eq_append_cons_of_mem (List.mem_reverse.mpr h)
  refine ⟨a.reverse, b.reverse, ?_, by simpa using hb⟩
  simpa using congrArg List.reverse hreverse

theorem of_run_append_opening {isWithin' : Bool}
    (h : run isWithin (a ++ '\x7b' :: b) = some isWithin') :
    run isWithin a = some false ∧ run true b = some isWithin' := by
  rw [run_append] at h
  obtain ⟨_ | _, hfront, hback⟩ := Option.bind_eq_some_iff.mp h
  · exact ⟨hfront, hback⟩
  · cases hback

theorem run_placeholder (h : IsPlain text) : run false ('\x7b' :: text ++ ['\x7d']) = some false := by
  obtain ⟨hopening, hclosing, -⟩ := h
  rw [List.cons_append, run_cons]
  change run true (text ++ ['\x7d']) = some false
  rw [run_append, run_of_notMem hopening hclosing]
  rfl

end Braces

namespace Topology

open Braces

variable {value : Text}

theorem openBrace?_append_of_notMem {a b : Text} (h : '\x7b' ∉ b) :
    openBrace? (a ++ '\x7b' :: b) = if '\x7d' ∈ b then none else some ('\x7b' :: b) := by
  have hsplit : splitAtLast ['\x7b'] (a ++ '\x7b' :: b) = some (a, b) := by
    have hlast := splitAtLast_append_of_notMem h [] a
    rwa [List.nil_append, List.append_assoc] at hlast
  rw [openBrace?, hsplit]
  rfl

theorem openBrace?_of_notMem (h : '\x7b' ∉ value) : openBrace? value = none := by
  have hsplit : splitAtLast ['\x7b'] value = none := by
    rw [Option.eq_none_iff_forall_ne_some]
    rintro ⟨a, b⟩ hsome
    refine h ?_
    rw [splitAtLast_eq_some hsome]
    simp
  rw [openBrace?, hsplit]
  rfl

theorem exists_openBrace?_of_run (h : run false value = some true) :
    ∃ front typed, value = front ++ typed ∧ openBrace? value = some typed ∧
      run false front = some false := by
  have hmem : '\x7b' ∈ value := by
    by_contra hopening
    exact absurd (of_run_eq_true hopening h).1 Bool.false_ne_true
  obtain ⟨front, inner, rfl, hinner⟩ := exists_last_of_mem hmem
  obtain ⟨hfront, hrest⟩ := of_run_append_opening h
  obtain ⟨-, hclosing⟩ := of_run_eq_true hinner hrest
  refine ⟨front, '\x7b' :: inner, rfl, ?_, hfront⟩
  rw [openBrace?_append_of_notMem hinner, if_neg hclosing]

theorem openBrace?_of_paired (h : Paired value) : openBrace? value = none := by
  by_cases hmem : '\x7b' ∈ value
  · obtain ⟨front, inner, rfl, hinner⟩ := exists_last_of_mem hmem
    obtain ⟨-, hrest⟩ := of_run_append_opening h
    rw [openBrace?_append_of_notMem hinner, if_pos]
    by_contra hclosing
    rw [run_of_notMem hinner hclosing] at hrest
    cases hrest
  · exact openBrace?_of_notMem hmem

/-- The keys of a rule that hold patterns. -/
def patternKeys : List String :=
  ["idPattern", "instanceNamePattern"]

/-- The dimensions of the rule at the cursor that its patterns are made from. -/
def requiredDimensions (request : Request) : List String :=
  (rule? request).elim [] (·.fields "requiredDimensions" "key")

variable {request : Request} {draft : Draft}

theorem draft?_of_mem_patternKeys (hroot : request.cursor.root? = some "topology")
    (hparent : request.cursor.parent? = some "rules")
    (hkey : request.cursor.slot.key ∈ patternKeys) : draft? request = placeholders? request := by
  simp only [patternKeys, List.mem_cons, List.not_mem_nil, or_false] at hkey
  rcases hkey with hkey | hkey <;> simp [draft?, hroot, hparent, hkey]

theorem placeholders?_eq_some (h : placeholders? request = some draft) :
    draft = ⟨(requiredDimensions request).map placeholder,
      request.cursor.spanOf ((openBrace? request.cursor.slot.value).getD [])⟩ := by
  simp only [placeholders?, Option.bind_eq_bind, Option.bind_eq_some_iff, Option.pure_def,
    Option.some.injEq] at h
  obtain ⟨rule, hrule, rfl⟩ := h
  rw [requiredDimensions, hrule]
  rfl

theorem exists_edit_of_mem_offers {text : Text} {position : Position} {manifest : Manifest}
    {context : Context} {cursor : Cursor} (hcursor : Cursor.at? text position = some cursor)
    (hroot : cursor.root? = some "topology") (hparent : cursor.parent? = some "rules")
    (hkey : cursor.slot.key ∈ patternKeys) {offer : Offer}
    (hoffer : offer ∈ (complete text position manifest context).offers) :
    ∃ key ∈ requiredDimensions ⟨cursor, manifest, context⟩, offer.edit =
      ⟨cursor.spanOf ((openBrace? cursor.slot.value).getD []), (placeholder key).insertText.toList⟩ := by
  obtain ⟨cursor', hcursor', vocabulary, hmem, draft, hdraft, suggestion, hsuggestion, retriggers,
    rfl⟩ := exists_vocabulary_of_mem_offers hoffer
  obtain rfl := Option.some.inj (hcursor.symm.trans hcursor')
  simp only [Completion.vocabularies, List.mem_cons, List.not_mem_nil, or_false] at hmem
  rcases hmem with rfl | rfl | rfl | rfl
  · rw [draft?_of_mem_patternKeys hroot hparent hkey] at hdraft
    obtain rfl := placeholders?_eq_some hdraft
    obtain ⟨key, hkey, rfl⟩ := List.mem_map.mp hsuggestion
    exact ⟨key, hkey, rfl⟩
  · rw [Selector.draft?_of_notMem] at hdraft
    · cases hdraft
    · simp only [patternKeys, List.mem_cons, List.not_mem_nil, or_false] at hkey
      rcases hkey with hkey | hkey <;> simp [hkey, Selector.selectorKeys]
  · rw [Screens.draft?_of_root_ne (by simp [hroot])] at hdraft
    cases hdraft
  · rw [Prometheus.draft?_of_root_ne (by simp [hroot])] at hdraft
    cases hdraft

/-- Within braces, a placeholder takes the place of the open brace and what follows it up to the
cursor. The brace that closes the pair stays behind the placeholder, and is one too many. -/
theorem paired_placeholder_iff {key front typed rest : Text} (hplain : IsPlain key)
    (hpaired : Paired (front ++ typed ++ rest))
    (htyped : typed = (openBrace? (front ++ typed)).getD []) :
    Paired (front ++ ('\x7b' :: key ++ ['\x7d']) ++ rest) ↔ Paired (front ++ typed) := by
  rw [Paired, run_append] at hpaired
  obtain ⟨isWithin, hvalue, hrest⟩ := Option.bind_eq_some_iff.mp hpaired
  have hresult (h : run false front = some false) :
      run false (front ++ ('\x7b' :: key ++ ['\x7d']) ++ rest) = run false rest := by
    rw [run_append, run_append, h, Option.bind_some, run_placeholder hplain, Option.bind_some]
  cases isWithin with
  | false =>
    rw [openBrace?_of_paired hvalue] at htyped
    obtain rfl : typed = [] := htyped
    rw [List.append_nil] at hvalue ⊢
    rw [Paired, Paired, hresult hvalue, hvalue, hrest]
  | true =>
    obtain ⟨front', typed', happend, hbrace, hfront⟩ := exists_openBrace?_of_run hvalue
    obtain rfl : typed = typed' := by rw [htyped, hbrace, Option.getD_some]
    obtain rfl := List.append_cancel_right happend
    rw [Paired, Paired, hresult hfront, hvalue]
    simpa using run_false_ne_of_run_true hrest

/-- Accepting a placeholder in a pattern whose braces are paired leaves them paired if and only if
the cursor is not within braces. -/
theorem paired_applied?_iff {text : Text} {position : Position} {manifest : Manifest}
    {context : Context} {cursor : Cursor} (hcursor : Cursor.at? text position = some cursor)
    (hoffset : cursor.offset ≤ maxOffset) (hroot : cursor.root? = some "topology")
    (hparent : cursor.parent? = some "rules") (hkey : cursor.slot.key ∈ patternKeys)
    (hplain : ∀ key ∈ requiredDimensions ⟨cursor, manifest, context⟩, IsPlain key.toList)
    (hpaired : Paired (cursor.slot.value ++ cursor.rest)) {offer : Offer}
    (hoffer : offer ∈ (complete text position manifest context).offers) :
    text.lineFrom? position.line cursor.slot.valueColumn =
        some (cursor.slot.value ++ cursor.rest) ∧
      ∃ edited value, offer.edit.applied? text = some edited ∧
        edited.lineFrom? position.line cursor.slot.valueColumn = some value ∧
        (Paired value ↔ Paired cursor.slot.value) := by
  obtain ⟨key, hmem, hedit⟩ := exists_edit_of_mem_offers hcursor hroot hparent hkey hoffer
  obtain ⟨line, front, hget, hline, hslot, hstart⟩ := Cursor.exists_line_of_at? hcursor
  obtain ⟨head, rfl⟩ := Slot.value_isSuffix hslot
  have hcolumn := Slot.valueColumn_eq hslot rfl
  obtain ⟨typed, htyped⟩ : ∃ typed, typed = (openBrace? cursor.slot.value).getD [] := ⟨_, rfl⟩
  obtain ⟨inner, hvalue⟩ : typed <:+ cursor.slot.value := by
    cases hbrace : openBrace? cursor.slot.value with
    | none => simp [htyped, hbrace]
    | some brace => simpa [htyped, hbrace] using openBrace?_isSuffix hbrace
  rw [← hvalue] at hline hstart hpaired ⊢
  rw [← htyped] at hedit
  have htext : line.text = head ++ inner ++ typed ++ cursor.rest := by
    rw [hline, List.append_assoc head inner]
  obtain ⟨edited, happlied, hlines⟩ := Cursor.exists_applied?_spanOf hget htext
    (by simpa using hstart) hoffset (placeholder key).insertText.toList
  have hplaceholder : (placeholder key).insertText.toList = '\x7b' :: key.toList ++ ['\x7d'] := by
    simp [placeholder]
  have hnewline : '\n' ∉ head ++ inner ++ (placeholder key).insertText.toList ++ cursor.rest := by
    have hkey := (hplain key hmem).2.2
    have hold := not_mem_of_mem_splitAll (List.mem_of_getElem? (splitAll_getElem? hget))
    rw [hline] at hold
    simp only [List.mem_append, not_or] at hold
    simp [hplaceholder, hold, hkey]
  rw [splitAll_of_not_mem hnewline] at hlines
  have hedited := getElem?_of_splitAll_replaced hget hlines (j := 0) (by simp)
  refine ⟨?_, edited, inner ++ (placeholder key).insertText.toList ++ cursor.rest, ?_, ?_, ?_⟩
  · rw [hcolumn]
    refine lineFrom?_of_splitAll ?_
    rw [splitAll_getElem? hget, hline]
    simp
  · rw [hedit, happlied]
  · rw [hcolumn]
    refine lineFrom?_of_splitAll ?_
    simpa using hedited
  · rw [hplaceholder]
    refine paired_placeholder_iff (hplain key hmem) hpaired ?_
    rw [hvalue, htyped]

/-- A rule with a pattern whose braces are closed. -/
def closedBraces : Text :=
  ("topology:\n  types:\n  - rules:\n    - idPattern: a\x7bp\x7d\n" ++
    "      requiredDimensions:\n      - key: pod").toList

theorem paired_applied?_iff_closedBraces :
    let manifest := (Manifest.parse closedBraces).toOption.getD .empty
    ∃ cursor, (Cursor.at? closedBraces ⟨3, 21⟩ = some cursor ∧ cursor.offset ≤ maxOffset ∧
        cursor.root? = some "topology" ∧ cursor.parent? = some "rules" ∧
        cursor.slot.key ∈ patternKeys ∧
        (∀ key ∈ requiredDimensions ⟨cursor, manifest, .default⟩, IsPlain key.toList) ∧
        Paired (cursor.slot.value ++ cursor.rest)) ∧
      ∃ offer ∈ (complete closedBraces ⟨3, 21⟩ manifest .default).offers,
        ∃ edited value, offer.edit.applied? closedBraces = some edited ∧
          edited.lineFrom? 3 cursor.slot.valueColumn = some value ∧ Paired value := by
  intro manifest
  obtain ⟨hfacts, hoffers⟩ : (Cursor.at? closedBraces ⟨3, 21⟩).map (fun cursor =>
        (cursor.offset, cursor.chain, cursor.slot, cursor.rest,
          requiredDimensions ⟨cursor, manifest, .default⟩)) =
        some (51, ["topology", "types", "rules"],
          ⟨"idPattern", 6, "a\x7bp\x7d".toList, 17⟩, [], ["pod"]) ∧
      0 < (complete closedBraces ⟨3, 21⟩ manifest .default).offers.length := by
    decide +kernel
  obtain ⟨cursor, hcursor, hfacts⟩ := Option.map_eq_some_iff.mp hfacts
  simp only [Prod.mk.injEq] at hfacts
  obtain ⟨hoffset, hchain, hslot, hrest, hdimensions⟩ := hfacts
  have hle : cursor.offset ≤ maxOffset := by
    rw [hoffset]
    decide
  have hroot : cursor.root? = some "topology" := by rw [Cursor.root?, hchain]; rfl
  have hparent : cursor.parent? = some "rules" := by rw [Cursor.parent?, hchain]; rfl
  have hkey : cursor.slot.key ∈ patternKeys := by
    rw [hslot]
    decide
  have hplain : ∀ key ∈ requiredDimensions ⟨cursor, manifest, .default⟩, IsPlain key.toList := by
    rw [hdimensions, List.forall_mem_singleton]
    exact ⟨by decide, by decide, by decide⟩
  have hvalue : Paired cursor.slot.value := by
    rw [hslot]
    decide
  have hpaired : Paired (cursor.slot.value ++ cursor.rest) := by rwa [hrest, List.append_nil]
  obtain ⟨offer, hoffer⟩ := List.exists_mem_of_length_pos hoffers
  obtain ⟨-, edited, value, happlied, hedited, hiff⟩ :=
    paired_applied?_iff hcursor hle hroot hparent hkey hplain hpaired hoffer
  exact ⟨cursor, ⟨hcursor, hle, hroot, hparent, hkey, hplain, hpaired⟩, offer, hoffer, edited, value,
    happlied, hedited, hiff.mpr hvalue⟩

/-- Within them, the brace that closes the pattern is left behind the one of the placeholder. -/
theorem not_paired_applied? :
    ¬ ∀ (text : Text) (position : Position) (manifest : Manifest) (context : Context)
      (cursor : Cursor), Cursor.at? text position = some cursor →
      cursor.root? = some "topology" → cursor.parent? = some "rules" →
      cursor.slot.key ∈ patternKeys →
      (∀ key ∈ requiredDimensions ⟨cursor, manifest, context⟩, IsPlain key.toList) →
      Paired (cursor.slot.value ++ cursor.rest) →
      ∀ offer ∈ (complete text position manifest context).offers,
        ∃ edited value, offer.edit.applied? text = some edited ∧
          edited.lineFrom? position.line cursor.slot.valueColumn = some value ∧ Paired value := by
  intro h
  let manifest := (Manifest.parse closedBraces).toOption.getD .empty
  obtain ⟨hfacts, hedits⟩ : (Cursor.at? closedBraces ⟨3, 20⟩).map (fun cursor =>
        (cursor.chain, cursor.slot, cursor.rest, requiredDimensions ⟨cursor, manifest, .default⟩)) =
        some (["topology", "types", "rules"], ⟨"idPattern", 6, "a\x7bp".toList, 17⟩, ['\x7d'],
          ["pod"]) ∧
      (complete closedBraces ⟨3, 20⟩ manifest .default).offers.map (·.edit) =
        [⟨⟨48, 50⟩, "\x7bpod\x7d".toList⟩] := by
    decide +kernel
  obtain ⟨cursor, hcursor, hfacts⟩ := Option.map_eq_some_iff.mp hfacts
  simp only [Prod.mk.injEq] at hfacts
  obtain ⟨hchain, hslot, hrest, hdimensions⟩ := hfacts
  obtain ⟨offer, hoffer, hedit⟩ := List.mem_map.mp (hedits ▸ List.mem_singleton_self _)
  obtain ⟨edited, value, happlied, hedited, hpaired⟩ := h closedBraces ⟨3, 20⟩ manifest .default
    cursor hcursor (by rw [Cursor.root?, hchain]; rfl) (by rw [Cursor.parent?, hchain]; rfl)
    (by rw [hslot]; decide)
    (by
      rw [hdimensions, List.forall_mem_singleton]
      exact ⟨by decide, by decide, by decide⟩)
    (by rw [hslot, hrest]; decide) offer hoffer
  have hresult : ((Edit.mk ⟨48, 50⟩ "\x7bpod\x7d".toList).applied? closedBraces).bind
      (·.lineFrom? 3 17) = some "a\x7bpod\x7d\x7d".toList := by
    decide
  rw [hslot] at hedited
  rw [hedit] at happlied
  rw [happlied, Option.bind_some, hedited] at hresult
  obtain rfl := Option.some.inj hresult
  exact absurd hpaired (by decide)

end Topology

end ManifestAssist
