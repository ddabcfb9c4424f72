import ManifestAssist.Completion.Ranking

/-! # Ranking

Ranks are compared number by number, which puts all of them in order. The sorting is stable, so it
makes no difference whether suggestions are left out before they are ranked or afterwards.
-/

namespace ManifestAssist

section Sorting

variable {α : Type} {le : α → α → Bool} (trans : ∀ a b c, le a b → le b c → le a c)
  (total : ∀ a b, le a b || le b a)

include trans total

theorem mergeSort_cons_eq_filter (a : α) (l : List α) :
    (a :: l).mergeSort le =
      (l.mergeSort le).filter (!le a ·) ++ a :: (l.mergeSort le).filter (le a ·) := by
  obtain ⟨front, back, hcons, hsort, hfront⟩ := List.mergeSort_cons trans total a l
  have hback : ∀ b ∈ back, le a b := by
    have hsorted := List.pairwise_mergeSort trans total (a :: l)
    rw [hcons, List.pairwise_append, List.pairwise_cons] at hsorted
    exact hsorted.2.1.1
  have hleft : (front ++ back).filter (!le a ·) = front := by
    rw [List.filter_append, List.filter_eq_self.mpr hfront,
      List.filter_eq_nil_iff.mpr fun b hb => by simp [hback b hb], List.append_nil]
  have hright : (front ++ back).filter (le a ·) = back := by
    rw [List.filter_append, List.filter_eq_self.mpr hback,
      List.filter_eq_nil_iff.mpr fun b hb => by simpa using hfront b hb, List.nil_append]
  rw [hcons, hsort, hleft, hright]

theorem filter_mergeSort (p : α → Bool) (l : List α) :
    (l.mergeSort le).filter p = (l.filter p).mergeSort le := by
  induction l with
  | nil => simp
  | cons a l ih =>
    cases ha : p a with
    | true =>
      have hcomm (q : α → Bool) :
          ((l.mergeSort le).filter q).filter p = ((l.filter p).mergeSort le).filter q := by
        rw [← ih, List.filter_filter, List.filter_filter]
        exact List.filter_congr fun b _ => Bool.and_comm ..
      rw [List.filter_cons_of_pos ha, mergeSort_cons_eq_filter trans total,
        mergeSort_cons_eq_filter trans total, List.filter_append, List.filter_cons_of_pos ha,
        hcomm, hcomm]
    | false =>
      obtain ⟨front, back, hcons, hsort, -⟩ := List.mergeSort_cons trans total a l
      have hneg : ¬p a = true := by simp [ha]
      rw [List.filter_cons_of_neg hneg, ← ih, hcons, hsort, List.filter_append,
        List.filter_cons_of_neg hneg, List.filter_append]

theorem exists_order_mergeSort_filter (p : α → Bool) (l : List α) :
    ∃ order : List (α × Nat), order.Perm (l.zipIdx.filter (p ·.1)) ∧
      (l.filter p).mergeSort le = order.map (·.1) ∧
      order.Pairwise fun a b =>
        (p a.1 ∧ p b.1) ∧ le a.1 b.1 ∧ (le b.1 a.1 → a.2 < b.2) := by
  let numbered := l.zipIdx.mergeSort (List.zipIdxLE le)
  have hperm : numbered.Perm l.zipIdx := List.mergeSort_perm _ _
  refine ⟨numbered.filter (p ·.1), hperm.filter _, ?_, ?_⟩
  · rw [← filter_mergeSort trans total, ← List.mergeSort_zipIdx, List.filter_map]
    rfl
  · have hsorted : numbered.Pairwise fun a b => List.zipIdxLE le a b :=
      List.pairwise_mergeSort (List.zipIdxLE_trans trans) (List.zipIdxLE_total total) _
    have hdistinct : numbered.Pairwise fun a b => a.2 ≠ b.2 := by
      have hnumbers : (l.zipIdx.map Prod.snd).Nodup := by
        rw [List.zipIdx_map_snd]
        exact List.nodup_range'
      exact List.pairwise_map.mp ((hperm.map Prod.snd).nodup_iff.mpr hnumbers)
    refine ((hsorted.and hdistinct).filter _).imp_of_mem fun ha hb ⟨hle, hne⟩ => ?_
    refine ⟨⟨(List.mem_filter.mp ha).2, (List.mem_filter.mp hb).2⟩, ?_⟩
    unfold List.zipIdxLE at hle
    split at hle
    · next hab =>
      refine ⟨hab, fun hba => ?_⟩
      rw [if_pos hba, decide_eq_true_iff] at hle
      exact Nat.lt_of_le_of_ne hle hne
    · cases hle

end Sorting

namespace Suggestion

theorem noWorse_total (a b : List Int) : noWorse a b || noWorse b a := by
  fun_induction noWorse a b with
  | case1 => simp
  | case2 => simp [noWorse]
  | case3 a rank b other ih =>
    rcases Int.lt_trichotomy a b with h | rfl | h
    · simp [h]
    · simpa [noWorse] using ih
    · simp [noWorse, h]

theorem noWorse_trans (a b c : List Int) (hab : noWorse a b) (hbc : noWorse b c) : noWorse a c := by
  induction a generalizing b c with
  | nil => rfl
  | cons x a ih =>
    cases b with
    | nil => simp [noWorse] at hab
    | cons y b =>
      cases c with
      | nil => simp [noWorse] at hbc
      | cons z c =>
        simp only [noWorse, Bool.or_eq_true, Bool.and_eq_true, decide_eq_true_eq, beq_iff_eq]
          at hab hbc ⊢
        rcases hab with hab | ⟨rfl, hab⟩
        · rcases hbc with hbc | ⟨rfl, -⟩
          · exact .inl (Int.lt_trans hab hbc)
          · exact .inl hab
        · rcases hbc with hbc | ⟨rfl, hbc⟩
          · exact .inl hbc
          · exact .inr ⟨rfl, ih b c hab hbc⟩

/-- The rank of a suggestion for a query, if it matches. -/
def standing (query : Text) (suggestion : Suggestion) : List Int :=
  (suggestion.match? query).elim [] (rank suggestion.kind)

/-- Is the first suggestion ranked no worse than the second one? -/
def notBehind (query : Text) (s t : Suggestion) : Bool :=
  noWorse (standing query s) (standing query t)

theorem notBehind_total (query : Text) (s t : Suggestion) :
    notBehind query s t || notBehind query t s :=
  noWorse_total _ _

theorem notBehind_trans (query : Text) (s t u : Suggestion) (hst : notBehind query s t)
    (htu : notBehind query t u) : notBehind query s u :=
  noWorse_trans _ _ _ hst htu

theorem ranked_eq_map (query : Text) (suggestions : List Suggestion) :
    ranked query suggestions =
      (suggestions.filter fun s => (s.match? query).isSome).map fun s => (standing query s, s) := by
  induction suggestions with
  | nil => rfl
  | cons suggestion rest ih =>
    unfold ranked at ih ⊢
    cases hmatch : suggestion.match? query <;> simp [standing, hmatch, ih]

theorem sortBy_eq_mergeSort {query : Text} (hidle : isIdle query = false)
    (suggestions : List Suggestion) :
    sortBy query suggestions =
      (suggestions.filter fun s => (s.match? query).isSome).mergeSort (notBehind query) := by
  have hsort := List.map_mergeSort (f := fun s => (standing query s, s)) (r := notBehind query)
    (s := fun a b => noWorse a.1 b.1) (l := suggestions.filter fun s => (s.match? query).isSome)
    fun _ _ _ _ => rfl
  rw [sortBy, hidle, if_neg Bool.false_ne_true, ranked_eq_map, ← hsort, List.map_map]
  exact List.map_id _

/-- Suggestions may be left out ahead of the ranking. The order of the others is the same. -/
theorem filter_sortBy (query : Text) (p : Suggestion → Bool) (suggestions : List Suggestion) :
    (sortBy query suggestions).filter p = sortBy query (suggestions.filter p) := by
  cases hidle : isIdle query with
  | true => simp [sortBy, hidle]
  | false =>
    rw [sortBy_eq_mergeSort hidle, sortBy_eq_mergeSort hidle,
      filter_mergeSort (notBehind_trans query) (notBehind_total query), List.filter_filter,
      List.filter_filter]
    simp only [Bool.and_comm]

/-- Ranking what has been ranked leaves nothing out, and keeps the order. -/
theorem sortBy_sortBy (query : Text) (suggestions : List Suggestion) :
    sortBy query (sortBy query suggestions) = sortBy query suggestions := by
  cases hidle : isIdle query with
  | true => simp [sortBy, hidle]
  | false =>
    have htrans := notBehind_trans query
    have htotal := notBehind_total query
    have hsorted := List.pairwise_mergeSort htrans htotal
      (suggestions.filter fun s => (s.match? query).isSome)
    rw [sortBy_eq_mergeSort hidle, sortBy_eq_mergeSort hidle, filter_mergeSort htrans htotal,
      List.filter_filter]
    simp only [Bool.and_self]
    exact List.mergeSort_of_pairwise hsorted

end Suggestion

end ManifestAssist
