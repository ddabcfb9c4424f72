import Mathlib.Data.Option.Basic
import ManifestAssist.Completion.Answer

/-! # Vocabularies

A vocabulary is asked about its own keys, in its own part of a manifest. The parts and the keys are
different ones, so no two vocabularies have an answer to one request.
-/

namespace ManifestAssist

theorem guard_eq_none {p : Prop} [Decidable p] (h : ¬ p) : (guard p : Option Unit) = none :=
  if_neg h

variable {request : Request}

namespace Topology

theorem draft?_of_root_ne (h : request.cursor.root? ≠ some "topology") :
    draft? request = none := by
  rw [draft?, guard_eq_none h]
  rfl

theorem draft?_of_mem_selectorKeys (h : request.cursor.slot.key ∈ Selector.selectorKeys) :
    draft? request = none := by
  simp only [Selector.selectorKeys, List.mem_cons, List.not_mem_nil, or_false] at h
  simp only [draft?, Option.bind_eq_bind, Option.bind_eq_none_iff]
  rintro - - parent -
  split
  all_goals simp_all

end Topology

theorem Selector.draft?_of_notMem (h : request.cursor.slot.key ∉ selectorKeys) :
    draft? request = none := by
  rw [draft?, guard_eq_none (by simpa using h)]
  rfl

namespace Screens

theorem draft?_of_root_ne (h : request.cursor.root? ≠ some "screens") :
    draft? request = none := by
  rw [draft?, guard_eq_none h]
  rfl

theorem draft?_of_mem_selectorKeys (h : request.cursor.slot.key ∈ Selector.selectorKeys) :
    draft? request = none := by
  simp only [Selector.selectorKeys, List.mem_cons, List.not_mem_nil, or_false] at h
  rcases h with h | h <;> simp [draft?, h]

end Screens

namespace Prometheus

theorem draft?_of_root_ne (h : request.cursor.root? ≠ some "prometheus") :
    draft? request = none := by
  rw [draft?, guard_eq_none h]
  rfl

theorem draft?_of_mem_selectorKeys (h : request.cursor.slot.key ∈ Selector.selectorKeys) :
    draft? request = none := by
  simp only [Selector.selectorKeys, List.mem_cons, List.not_mem_nil, or_false] at h
  rcases h with h | h <;> simp [draft?, h]

end Prometheus

namespace Completion

/-- Of two vocabularies, one at least has no answer. -/
theorem pairwise_vocabularies (request : Request) :
    vocabularies.Pairwise fun v w => v request = none ∨ w request = none := by
  have hroot (label label' : String) (hne : label ≠ label') :
      request.cursor.root? ≠ some label ∨ request.cursor.root? ≠ some label' := by
    by_cases h : request.cursor.root? = some label
    · exact .inr (by simpa [h] using hne)
    · exact .inl h
  have hkey (answer : Option Draft)
      (h : request.cursor.slot.key ∈ Selector.selectorKeys → answer = none) :
      Selector.draft? request = none ∨ answer = none := by
    by_cases hmem : request.cursor.slot.key ∈ Selector.selectorKeys
    · exact .inr (h hmem)
    · exact .inl (Selector.draft?_of_notMem hmem)
  simp only [vocabularies, List.pairwise_cons, List.mem_cons, List.not_mem_nil, or_false,
    forall_eq_or_imp, forall_eq, List.Pairwise.nil, and_true, false_imp_iff, implies_true]
  refine ⟨⟨?_, ?_, ?_⟩, ⟨?_, ?_⟩, ?_⟩
  · exact (hkey _ Topology.draft?_of_mem_selectorKeys).symm
  · exact (hroot "topology" "screens" (by decide)).imp Topology.draft?_of_root_ne
      Screens.draft?_of_root_ne
  · exact (hroot "topology" "prometheus" (by decide)).imp Topology.draft?_of_root_ne
      Prometheus.draft?_of_root_ne
  · exact hkey _ Screens.draft?_of_mem_selectorKeys
  · exact hkey _ Prometheus.draft?_of_mem_selectorKeys
  · exact (hroot "screens" "prometheus" (by decide)).imp Screens.draft?_of_root_ne
      Prometheus.draft?_of_root_ne

theorem draft?_eq_filter (request : Request) :
    draft? request =
      (vocabularies.findSome? (· request)).filter fun draft => !draft.suggestions.isEmpty := by
  have hpairwise := pairwise_vocabularies request
  unfold draft?
  generalize vocabularies = vocabularies at hpairwise
  induction vocabularies with
  | nil => rfl
  | cons vocabulary rest ih =>
    rw [List.pairwise_cons] at hpairwise
    rw [List.findSome?_cons, List.findSome?_cons]
    cases hdraft : vocabulary request with
    | none => exact ih hpairwise.2
    | some draft =>
      have hrest : ∀ other ∈ rest, other request = none := fun other hother =>
        (hpairwise.1 other hother).resolve_left (by simp [hdraft])
      have hnone : rest.findSome? (fun other =>
          (other request).filter fun draft => !draft.suggestions.isEmpty) = none :=
        List.findSome?_eq_none_iff.mpr fun other hother => by rw [hrest other hother]; rfl
      rw [hnone]
      cases (some draft).filter fun draft => !draft.suggestions.isEmpty <;> rfl

/-- The first draft with suggestions if the vocabularies are asked in some order. -/
def draftIn? (order : List (Request → Option Draft)) (request : Request) : Option Draft :=
  order.findSome? fun vocabulary =>
    (vocabulary request).filter fun draft => !draft.suggestions.isEmpty

end Completion

/-- What completes a text at a position if the vocabularies are asked in some order. -/
def completeIn (order : List (Request → Option Draft)) (text : Text) (position : Position)
    (manifest : Manifest) (context : Context) : Completion :=
  match Cursor.at? text position with
  | none => .nothing ((LineMap.ofText text).offset position)
  | some cursor =>
    match Completion.draftIn? order ⟨cursor, manifest, context⟩ with
    | none => .nothing cursor.offset
    | some draft => .ofDraft text context.settings draft

theorem completeIn_vocabularies : completeIn Completion.vocabularies = complete := rfl

section AtMostOne

variable {α β : Type} {f : α → Option β} {l l' : List α}

theorem countP_isSome_le_one (h : l.Pairwise fun a b => f a = none ∨ f b = none) :
    (l.countP fun a => (f a).isSome) ≤ 1 := by
  induction l with
  | nil => exact Nat.zero_le 1
  | cons a l ih =>
    obtain ⟨ha, hl⟩ := List.pairwise_cons.mp h
    rw [List.countP_cons]
    cases hfa : f a with
    | none => simpa using ih hl
    | some b =>
      have hnone : ∀ other ∈ l, ¬ (f other).isSome := fun other hother => by
        simp [(ha other hother).resolve_left (by simp [hfa])]
      simp [List.countP_eq_zero.mpr hnone]

theorem findSome?_eq_of_perm (hperm : l.Perm l')
    (h : l.Pairwise fun a b => f a = none ∨ f b = none) : l.findSome? f = l'.findSome? f := by
  induction hperm with
  | nil => rfl
  | cons a _ ih => rw [List.findSome?_cons, List.findSome?_cons, ih h.of_cons]
  | swap a b l =>
    have hab : f b = none ∨ f a = none := (List.pairwise_cons.mp h).1 a List.mem_cons_self
    simp only [List.findSome?_cons]
    rcases hab with hnone | hnone <;> rw [hnone]
  | trans hperm _ ih ih' => exact (ih h).trans (ih' (hperm.pairwise h Or.symm))

end AtMostOne

/-- No request is answered by two vocabularies, so it makes no difference in which order they are
asked. -/
theorem complete_in_any_order (text : Text) (position : Position) (manifest : Manifest)
    (context : Context) :
    (∀ request : Request, (Completion.vocabularies.countP fun v => (v request).isSome) ≤ 1) ∧
      ∀ order : List (Request → Option Draft), order.Perm Completion.vocabularies →
        completeIn order text position manifest context =
          complete text position manifest context := by
  refine ⟨fun request => countP_isSome_le_one (Completion.pairwise_vocabularies request), ?_⟩
  intro order hperm
  have hdraft (request : Request) :
      Completion.draftIn? Completion.vocabularies request = Completion.draftIn? order request := by
    refine findSome?_eq_of_perm hperm.symm ?_
    refine (Completion.pairwise_vocabularies request).imp fun h => ?_
    exact h.imp (fun hnone => by rw [hnone]; rfl) fun hnone => by rw [hnone]; rfl
  rw [← completeIn_vocabularies]
  simp only [completeIn, hdraft]

/-- A selector in the topology whose first call is still to be typed. -/
def selectorInRules : Text :=
  "topology:\n  rules:\n  - entitySelector: ".toList

theorem complete_in_any_order_selectorInRules :
    let order := Completion.vocabularies.reverse
    order.Perm Completion.vocabularies ∧
      (complete selectorInRules ⟨2, 20⟩ .empty .default).offers.length = 13 ∧
      completeIn order selectorInRules ⟨2, 20⟩ .empty .default =
        complete selectorInRules ⟨2, 20⟩ .empty .default := by
  intro order
  have hperm : order.Perm Completion.vocabularies := List.reverse_perm _
  exact ⟨hperm, by decide +kernel,
    (complete_in_any_order selectorInRules ⟨2, 20⟩ .empty .default).2 order hperm⟩

end ManifestAssist
