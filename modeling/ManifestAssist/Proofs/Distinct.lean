import Mathlib

/-! # Each value once

Suggestions and labels are listed each once, at the place where they come first. The places in the
whole list tell the order of what is left.
-/

namespace ManifestAssist

variable {α : Type} [BEq α] [LawfulBEq α] {l : List α} {p : α → Bool} {a b : α}

theorem idxOf_lt_of_idxOf_filter_lt (ha : p a) (hb : p b)
    (h : (l.filter p).idxOf a < (l.filter p).idxOf b) : l.idxOf a < l.idxOf b := by
  induction l with
  | nil => simp at h
  | cons c l ih =>
    by_cases hc : p c
    · rw [List.filter_cons_of_pos hc, List.idxOf_cons, List.idxOf_cons] at h
      rw [List.idxOf_cons, List.idxOf_cons]
      cases hca : c == a <;> cases hcb : c == b <;> simp_all
    · have hne (d : α) (hd : p d) : (c == d) = false := by
        apply beq_false_of_ne
        rintro rfl
        exact hc hd
      rw [List.filter_cons_of_neg hc] at h
      simpa [List.idxOf_cons, hne a ha, hne b hb] using ih h

theorem pairwise_idxOf_eraseDups (l : List α) :
    l.eraseDups.Pairwise fun a b => l.idxOf a < l.idxOf b := by
  -- What is left behind the first value is filtered first, so it is not the tail of the list.
  induction hlength : l.length using Nat.strongRecOn generalizing l with
  | ind n ih =>
    cases l with
    | nil => exact .nil
    | cons a l =>
      rw [List.length_cons] at hlength
      have hle := List.length_filter_le (fun b => !b == a) l
      have hrest := ih _ (by omega) (l.filter fun b => !b == a) rfl
      have hne {b : α} (hb : b ∈ (l.filter fun b => !b == a).eraseDups) : (!b == a) = true :=
        (List.mem_filter.mp (List.mem_eraseDups.mp hb)).2
      have hplace {b : α} (hb : (!b == a) = true) : (a :: l).idxOf b = l.idxOf b + 1 := by
        have hba : a ≠ b := by
          rintro rfl
          simp at hb
        rw [List.idxOf_cons, beq_false_of_ne hba, cond_false]
      rw [List.eraseDups_cons, List.pairwise_cons]
      constructor
      · intro b hb
        rw [List.idxOf_cons_self, hplace (hne hb)]
        exact Nat.succ_pos _
      · refine hrest.imp_of_mem fun hb hc hlt => ?_
        rw [hplace (hne hb), hplace (hne hc)]
        exact Nat.succ_lt_succ (idxOf_lt_of_idxOf_filter_lt (hne hb) (hne hc) hlt)

theorem nodup_eraseDups (l : List α) : l.eraseDups.Nodup := by
  refine (pairwise_idxOf_eraseDups l).imp ?_
  rintro a _ hlt rfl
  exact Nat.lt_irrefl _ hlt

theorem eraseDups_eq_self (h : l.Nodup) : l.eraseDups = l := by
  induction l with
  | nil => rfl
  | cons a l ih =>
    obtain ⟨ha, hl⟩ := List.nodup_cons.mp h
    have hkept : l.filter (fun b => !b == a) = l := by
      apply List.filter_eq_self.mpr
      intro b hb
      rw [Bool.not_eq_true', beq_eq_false_iff_ne]
      rintro rfl
      exact ha hb
    rw [List.eraseDups_cons, hkept, ih hl]

theorem eraseDups_concat (l : List α) (a : α) [Decidable (a ∈ l)] :
    (l ++ [a]).eraseDups = if a ∈ l then l.eraseDups else l.eraseDups ++ [a] := by
  rw [List.eraseDups_append]
  split
  · next hmem => simp [List.removeAll, hmem]
  · next hmem => simp [List.removeAll, hmem, List.eraseDups_cons]

end ManifestAssist
