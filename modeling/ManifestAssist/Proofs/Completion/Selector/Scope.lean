import ManifestAssist.Completion.Selector.Offer
import ManifestAssist.Proofs.Text.Cut

/-! # Selectors as lists of criteria

A selector is a list of criteria, each with a comma behind it. The parentheses of a criterion match,
so the scope that is open at the end of a text is the list that the text ends in, and all that its
outline leaves of a criterion is the name.
-/

namespace ManifestAssist.Selector

open Text

/-- The depth of parentheses behind a character, unless it closes one that is not open. -/
def nextDepth (depth : Nat) (c : Char) : Option Nat :=
  if c = '(' then some (depth + 1)
  else if c = ')' then if depth = 0 then none else some (depth - 1)
  else some depth

/-- Does a text at one depth of parentheses end at another, without closing one that is not open? -/
inductive Leads : Nat → Text → Nat → Prop where
  | nil {depth : Nat} : Leads depth [] depth
  | opening {depth n : Nat} {text : Text} : Leads (depth + 1) text n → Leads depth ('(' :: text) n
  | closing {depth n : Nat} {text : Text} : Leads depth text n → Leads (depth + 1) (')' :: text) n
  | other {depth n : Nat} {c : Char} {text : Text} : c ≠ '(' → c ≠ ')' → Leads depth text n →
      Leads depth (c :: text) n

/-- Do the parentheses of a text match? -/
def Balanced (text : Text) : Prop :=
  Leads 0 text 0

section Depth

variable {text rest : Text} {depth n m : Nat}

theorem leads_iff_foldlM : Leads depth text n ↔ text.foldlM nextDepth depth = some n := by
  constructor
  · intro h
    induction h with
    | nil => rfl
    | opening _ ih => exact ih
    | closing _ ih => exact ih
    | other hopening hclosing _ ih =>
      rw [List.foldlM_cons, nextDepth, if_neg hopening, if_neg hclosing]
      exact ih
  · intro h
    -- The depth that the rest starts at is that behind its first character.
    induction text generalizing depth with
    | nil =>
      obtain rfl : depth = n := Option.some.inj h
      exact .nil
    | cons c text ih =>
      rw [List.foldlM_cons] at h
      obtain ⟨next, hnext, h⟩ := Option.bind_eq_some_iff.mp h
      by_cases hopening : c = '('
      · subst hopening
        obtain rfl : depth + 1 = next := Option.some.inj hnext
        exact .opening (ih h)
      by_cases hclosing : c = ')'
      · subst hclosing
        cases depth with
        | zero => cases hnext
        | succ depth =>
          obtain rfl : depth = next := Option.some.inj hnext
          exact .closing (ih h)
      · rw [nextDepth, if_neg hopening, if_neg hclosing] at hnext
        obtain rfl := Option.some.inj hnext
        exact .other hopening hclosing (ih h)

instance : DecidablePred Balanced :=
  fun _ => decidable_of_iff _ leads_iff_foldlM.symm

namespace Leads

theorem append (h : Leads depth text n) (h' : Leads n rest m) : Leads depth (text ++ rest) m := by
  induction h with
  | nil => exact h'
  | opening _ ih => exact .opening (ih h')
  | closing _ ih => exact .closing (ih h')
  | other hopening hclosing _ ih => exact .other hopening hclosing (ih h')

theorem add (h : Leads depth text n) (k : Nat) : Leads (depth + k) text (n + k) := by
  induction h with
  | nil => exact .nil
  | opening _ ih => exact .opening (by rwa [Nat.add_right_comm] at ih)
  | closing _ ih => exact Nat.add_right_comm .. ▸ .closing ih
  | other hopening hclosing _ ih => exact .other hopening hclosing ih

end Leads

namespace Balanced

theorem of_notMem (hopening : '(' ∉ text) (hclosing : ')' ∉ text) : Balanced text := by
  induction text with
  | nil => exact .nil
  | cons c text ih =>
    simp only [List.mem_cons, not_or] at hopening hclosing
    exact .other (Ne.symm hopening.1) (Ne.symm hclosing.1) (ih hopening.2 hclosing.2)

theorem append (h : Balanced text) (h' : Balanced rest) : Balanced (text ++ rest) :=
  Leads.append h h'

theorem parenthesized (h : Balanced text) : Balanced ('(' :: text ++ [')']) :=
  .opening ((Leads.add h 1).append (.closing .nil))

end Balanced

end Depth

/-- The names of calls. A mark of relationships has the name of one of them behind it. -/
def callNames : List Text :=
  operators.flatMap fun operator =>
    match dropBack? operator.label.toList ['('] with
    | some name => [name]
    | none => relationshipNames.map fun (_, name) => operator.label.toList ++ name.toList

/-- A call that is closed. -/
structure Call where
  name : Text
  arguments : Text
  name_mem : name ∈ callNames
  balanced : Balanced arguments

def Call.text (call : Call) : Text :=
  call.name ++ '(' :: call.arguments ++ [')']

/-- An element of a selector. -/
inductive Criterion where
  /-- The placeholder for the conditions of a card. -/
  | conditions
  | call (call : Call)

namespace Criterion

def text : Criterion → Text
  | conditions => entityConditions.toList
  | call c => c.text

/-- The criterion without arguments. -/
def outline : Criterion → Text
  | conditions => entityConditions.toList
  | call c => c.name ++ ['(', ')']

end Criterion

/-- Criteria with a comma behind each. -/
def listed (criteria : List Criterion) : Text :=
  criteria.flatMap fun criterion => criterion.text ++ [',']

/-- Is the end of a text a selector, as a whole or as the argument of a call that is not closed? -/
def EndsIn (selector fragment : Text) : Prop :=
  fragment = selector ∨ ∃ before, fragment = before ++ '(' :: selector

@[simp] theorem listed_nil : listed [] = [] := rfl

@[simp] theorem listed_cons (criterion : Criterion) (criteria : List Criterion) :
    listed (criterion :: criteria) = criterion.text ++ ',' :: listed criteria := by
  simp [listed]

section Names

variable {name : Text}

theorem all_isNameChar_of_mem_callNames (h : name ∈ callNames) : ∀ c ∈ name, isNameChar c := by
  have hall : ∀ name ∈ callNames, name.all isNameChar := by decide
  exact List.all_eq_true.mp (hall name h)

theorem notMem_of_mem_callNames (h : name ∈ callNames) {c : Char} (hc : ¬ isNameChar c) :
    c ∉ name :=
  fun hmem => hc (all_isNameChar_of_mem_callNames h c hmem)

end Names

theorem Criterion.balanced_text (criterion : Criterion) : Balanced criterion.text := by
  cases criterion with
  | conditions => decide
  | call c =>
    have hname : Balanced c.name :=
      .of_notMem (notMem_of_mem_callNames c.name_mem (by decide))
        (notMem_of_mem_callNames c.name_mem (by decide))
    have htext : c.text = c.name ++ ('(' :: c.arguments ++ [')']) := by simp [Call.text]
    rw [Criterion.text, htext]
    exact hname.append c.balanced.parenthesized

theorem balanced_listed (criteria : List Criterion) : Balanced (listed criteria) := by
  induction criteria with
  | nil => exact .nil
  | cons criterion criteria ih =>
    have hcomma : Balanced (',' :: listed criteria) := .other (by decide) (by decide) ih
    rw [listed_cons]
    exact criterion.balanced_text.append hcomma

section Scope

variable {selector fragment text rest : Text} {scopes : List Text} {depth n : Nat} {c : Char}

theorem openScopes_cons_of_ne (hopening : c ≠ '(') (hclosing : c ≠ ')') :
    openScopes scopes (c :: rest) = openScopes scopes rest := by
  rw [openScopes]
  · exact hopening
  · exact hclosing

theorem exists_openScopes_append {opened : List Text} (h : Leads depth text n)
    (hdepth : opened.length = depth) (scopes : List Text) :
    ∃ opened', opened'.length = n ∧ openScopes (opened ++ scopes) text = opened' ++ scopes := by
  induction h generalizing opened with
  | nil => exact ⟨opened, hdepth, rfl⟩
  | @opening _ _ text _ ih =>
    have hlength : (text :: opened).length = _ + 1 := congrArg Nat.succ hdepth
    exact ih hlength
  | closing _ ih =>
    cases opened with
    | nil => cases hdepth
    | cons innermost opened => exact ih (Nat.succ.inj hdepth)
  | other hopening hclosing _ ih =>
    rw [openScopes_cons_of_ne hopening hclosing]
    exact ih hdepth

theorem openScopes_of_balanced (h : Balanced selector) (scopes : List Text) :
    openScopes scopes selector = scopes := by
  obtain ⟨opened, hlength, hscopes⟩ := exists_openScopes_append h List.length_nil scopes
  rwa [List.length_eq_zero_iff.mp hlength] at hscopes

theorem exists_openScopes_eq (before rest : Text) (scopes : List Text) :
    ∃ scopes', openScopes scopes (before ++ rest) = openScopes scopes' rest := by
  induction before generalizing scopes with
  | nil => exact ⟨scopes, rfl⟩
  | cons c before ih =>
    by_cases hopening : c = '('
    · subst hopening
      exact ih _
    by_cases hclosing : c = ')'
    · subst hclosing
      exact ih _
    · rw [List.cons_append, openScopes_cons_of_ne hopening hclosing]
      exact ih _

/-- The scope that is open at the end of a text is the selector that the text ends in. -/
theorem openScope_of_endsIn (h : EndsIn selector fragment) (hbalanced : Balanced selector) :
    openScope fragment = selector := by
  rcases h with rfl | ⟨before, rfl⟩
  · rw [openScope, openScopes_of_balanced hbalanced]
    rfl
  · obtain ⟨scopes, hscopes⟩ := exists_openScopes_eq before ('(' :: selector) []
    rw [openScope, hscopes, openScopes, openScopes_of_balanced hbalanced]
    rfl

end Scope

section Outline

variable {text rest name : Text} {depth n : Nat} {c : Char}

theorem dropArguments_append (h : Leads depth text n) (rest : Text) :
    dropArguments 0 (depth + 1) (text ++ rest) = dropArguments 0 (n + 1) rest := by
  induction h with
  | nil => rfl
  | opening _ ih => exact ih
  | closing _ ih => exact ih
  | other hopening hclosing _ ih =>
    rw [List.cons_append, dropArguments, if_neg hopening, if_neg hclosing]
    exact ih

theorem dropArguments_keep (kept rest : Text) (depth : Nat) :
    dropArguments kept.length depth (kept ++ rest) = kept ++ dropArguments 0 depth rest := by
  induction kept with
  | nil => rfl
  | cons c kept ih => rw [List.length_cons, List.cons_append, dropArguments, ih, List.cons_append]

theorem dropArguments_cons (hc : c ≠ '$') (rest : Text) :
    dropArguments 0 0 (c :: rest) = c :: dropArguments 0 (if c = '(' then 1 else 0) rest := by
  have hfront : dropFront? (c :: rest) entityConditions.toList = none := if_neg hc
  rw [dropArguments, hfront]
  rfl

theorem dropArguments_name (h : ∀ c ∈ name, isNameChar c) (rest : Text) :
    dropArguments 0 0 (name ++ rest) = name ++ dropArguments 0 0 rest := by
  induction name with
  | nil => rfl
  | cons c name ih =>
    obtain ⟨hc, h⟩ := List.forall_mem_cons.mp h
    have hdollar : c ≠ '$' := by
      rintro rfl
      exact absurd hc (by decide)
    have hopening : c ≠ '(' := by
      rintro rfl
      exact absurd hc (by decide)
    rw [List.cons_append, dropArguments_cons hdollar, if_neg hopening, ih h, List.cons_append]

theorem Criterion.dropArguments_text (criterion : Criterion) (rest : Text) :
    dropArguments 0 0 (criterion.text ++ rest) = criterion.outline ++ dropArguments 0 0 rest := by
  cases criterion with
  | conditions =>
    have hfront : dropFront? (entityConditions.toList ++ rest) entityConditions.toList = some rest :=
      dropFront?_eq_some.mpr rfl
    have hconditions : entityConditions.toList = '$' :: "(entityConditions)".toList := by
      decide
    have hlength : entityConditions.length - 1 = "(entityConditions)".toList.length := by
      decide
    rw [hconditions, List.cons_append, ← hconditions] at hfront
    rw [Criterion.text, Criterion.outline, hconditions, List.cons_append, dropArguments, hfront,
      hlength, dropArguments_keep]
    rfl
  | call c =>
    have hname := dropArguments_name (all_isNameChar_of_mem_callNames c.name_mem)
      ('(' :: (c.arguments ++ ')' :: rest))
    have harguments := dropArguments_append c.balanced (')' :: rest)
    simp only [Criterion.text, Call.text, Criterion.outline, List.append_assoc, List.cons_append,
      List.nil_append]
    rw [hname, dropArguments_cons (by decide), if_pos rfl, harguments]
    rfl

theorem outline_of_endsIn {criteria : List Criterion} {fragment : Text}
    (h : EndsIn (listed criteria) fragment) :
    outline fragment = criteria.flatMap fun criterion => criterion.outline ++ [','] := by
  rw [outline, openScope_of_endsIn h (balanced_listed criteria)]
  clear h
  induction criteria with
  | nil => rfl
  | cons criterion criteria ih =>
    rw [listed_cons, criterion.dropArguments_text, dropArguments_cons (by decide), if_neg (by decide),
      ih]
    simp

end Outline

end ManifestAssist.Selector
