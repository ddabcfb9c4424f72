import ManifestAssist.Proofs.Completion.Match
import ManifestAssist.Proofs.Completion.Ranking

/-! # The order of suggestions

One match outranks another one by its class first, and within a class by what the class tells. Of
two matches that are equally good none does. So the suggestions that match have one order: those
that outrank others are ahead of them, and the others stay as they were.
-/

namespace ManifestAssist

namespace Match

/-- The class of a match, the best one first. -/
def tier : Match → Nat
  | exact => 0
  | front _ => 1
  | within _ _ => 2
  | scattered _ => 3

/-- The match of a suggestion of one kind is better than the match of one of another kind. -/
@[mk_iff] inductive Outranks (kind kind' : SuggestionKind) : Match → Match → Prop
  | tier {m n : Match} : m.tier < n.tier → Outranks kind kind' m n
  | front {length length' : Nat} : length < length' →
      Outranks kind kind' (front length) (front length')
  | offset {offset offset' length length' : Nat} : offset < offset' →
      Outranks kind kind' (within offset length) (within offset' length')
  | length {offset length length' : Nat} : length < length' →
      Outranks kind kind' (within offset length) (within offset length')
  | gaps {s t : Score} : s.gapSum < t.gapSum → Outranks kind kind' (scattered s) (scattered t)
  | run {s t : Score} : s.gapSum = t.gapSum → t.longestRun < s.longestRun →
      Outranks kind kind' (scattered s) (scattered t)
  | first {s t : Score} : s.gapSum = t.gapSum → s.longestRun = t.longestRun →
      s.first < t.first → Outranks kind kind' (scattered s) (scattered t)
  | scoreLength {s t : Score} : s.gapSum = t.gapSum → s.longestRun = t.longestRun →
      s.first = t.first → s.length < t.length → Outranks kind kind' (scattered s) (scattered t)
  | kind {s : Score} : kind.priority < kind'.priority →
      Outranks kind kind' (scattered s) (scattered s)

end Match

namespace Suggestion

/-- One suggestion is ahead of another for a query: both match, and the first match is better. -/
def Ahead (query : Text) (s t : Suggestion) : Prop :=
  ∃ m n : Match, m.Describes (normalize query) (normalize s.label.toList) ∧
    n.Describes (normalize query) (normalize t.label.toList) ∧ m.Outranks s.kind t.kind n

theorem noWorse_cons_eq_false {a b : Int} {rank other : List Int} :
    noWorse (a :: rank) (b :: other) = false ↔ b < a ∨ a = b ∧ noWorse rank other = false := by
  rcases lt_trichotomy a b with h | rfl | h
  · simp [noWorse, h, h.ne, h.not_gt]
  · simp [noWorse]
  · simp [noWorse, h, h.ne', h.not_gt]

theorem noWorse_nil_nil : noWorse [] [] = true := rfl

theorem noWorse_rank_eq_false {kind kind' : SuggestionKind} {m n : Match} :
    noWorse (rank kind' n) (rank kind m) = false ↔ m.Outranks kind kind' n := by
  rw [Match.outranks_iff]
  cases m <;> cases n <;> simp [rank, noWorse_cons_eq_false, noWorse_nil_nil, Match.tier]
  case within.within => omega
  case scattered.scattered s t =>
    obtain ⟨gaps, run, first, length⟩ := s
    obtain ⟨gaps', run', first', length'⟩ := t
    simp only [Score.mk.injEq]
    omega

variable {query : Text} {s t : Suggestion}

theorem match?_eq_some_iff {found : Match} :
    s.match? query = some found ↔
      found.Describes (normalize query) (normalize s.label.toList) :=
  Match.of?_eq_some_iff

theorem isSome_match?_iff :
    (s.match? query).isSome ↔ (normalize query).Sublist (normalize s.label.toList) :=
  Match.isSome_of?_iff

theorem ahead_iff_outranks {m n : Match} (hs : s.match? query = some m)
    (ht : t.match? query = some n) : Ahead query s t ↔ m.Outranks s.kind t.kind n := by
  simp only [Ahead, ← match?_eq_some_iff, hs, ht, Option.some.injEq]
  constructor
  · rintro ⟨_, _, rfl, rfl, h⟩
    exact h
  · intro h
    exact ⟨m, n, rfl, rfl, h⟩

theorem notBehind_eq_false (hs : (s.match? query).isSome) (ht : (t.match? query).isSome) :
    notBehind query t s = false ↔ Ahead query s t := by
  obtain ⟨m, hm⟩ := Option.isSome_iff_exists.mp hs
  obtain ⟨n, hn⟩ := Option.isSome_iff_exists.mp ht
  rw [ahead_iff_outranks hm hn, ← noWorse_rank_eq_false]
  simp [notBehind, standing, hm, hn]

theorem isIdle_iff :
    isIdle query ↔ query = [] ∨ (∃ c ∈ query, 0x80 ≤ c.val) ∨ normalize query = [] := by
  simp only [isIdle, List.any_eq_true, Bool.or_eq_true, decide_eq_true_eq, List.isEmpty_iff]
  constructor
  · exact .inr
  · rintro (rfl | h)
    · exact .inr rfl
    · exact h

theorem isIdle_iff_of_ascii (hascii : ∀ c ∈ query, c.val < 0x80) :
    isIdle query ↔ normalize query = [] := by
  rw [isIdle_iff]
  constructor
  · rintro (rfl | ⟨c, hc, hlarge⟩ | hnil)
    · rfl
    · exact absurd (hascii c hc) (UInt32.not_lt.mpr hlarge)
    · exact hnil
  · exact fun hnil => .inr (.inr hnil)

/-- A query that has nothing to tell leaves all suggestions as they are. Any other one keeps those
whose labels have its characters one behind another. The better of two is ahead of the other, and if
none is, the earlier one. -/
theorem sortBy_filters_and_orders (query : Text) (suggestions : List Suggestion) :
    (query = [] ∨ (∃ c ∈ query, 0x80 ≤ c.val) ∨ normalize query = [] →
      sortBy query suggestions = suggestions) ∧
    (query ≠ [] → (∀ c ∈ query, c.val < 0x80) → normalize query ≠ [] →
      ∃ order : List (Suggestion × Nat),
        order.Perm (suggestions.zipIdx.filter fun s =>
          (normalize query).Sublist (normalize s.1.label.toList)) ∧
        sortBy query suggestions = order.map (·.1) ∧
        order.Pairwise fun s t =>
          Ahead query s.1 t.1 ∨ ¬ Ahead query t.1 s.1 ∧ s.2 < t.2) := by
  constructor
  · intro h
    rw [sortBy, if_pos (isIdle_iff.mpr h)]
  · intro _ hascii hnormal
    have hidle : isIdle query = false := by simpa [hnormal] using isIdle_iff_of_ascii hascii
    have hmatch (s : Suggestion) : (s.match? query).isSome =
        decide ((normalize query).Sublist (normalize s.label.toList)) := by
      rw [Bool.eq_iff_iff, isSome_match?_iff, decide_eq_true_iff]
    obtain ⟨order, hperm, hsort, hordered⟩ := exists_order_mergeSort_filter (notBehind_trans query)
      (notBehind_total query) (fun s => (s.match? query).isSome) suggestions
    refine ⟨order, by simpa only [hmatch] using hperm, ?_, hordered.imp ?_⟩
    · rw [sortBy_eq_mergeSort hidle, hsort]
    · rintro s t ⟨⟨hs, ht⟩, hst, hindex⟩
      rw [← notBehind_eq_false hs ht, ← notBehind_eq_false ht hs]
      cases hts : notBehind query t.1 s.1 with
      | false => exact .inl rfl
      | true => exact .inr ⟨by simp [hst], hindex hts⟩

theorem sortBy_filters_and_orders_relations :
    let suggestions := plain .enumMember ["isChildOf", "CHILD_OF", "calls"]
    let query := "ch_of".toList
    normalize "_".toList = [] ∧ sortBy "_".toList suggestions = suggestions ∧
      query ≠ [] ∧ (∀ c ∈ query, c.val < 0x80) ∧ normalize query ≠ [] ∧
      (sortBy query suggestions).map (·.label) = ["CHILD_OF", "isChildOf"] ∧
      ∃ order : List (Suggestion × Nat),
        order.Perm (suggestions.zipIdx.filter fun s =>
          (normalize query).Sublist (normalize s.1.label.toList)) ∧
        sortBy query suggestions = order.map (·.1) ∧
        order.Pairwise fun s t =>
          Ahead query s.1 t.1 ∨ ¬ Ahead query t.1 s.1 ∧ s.2 < t.2 := by
  intro suggestions query
  have hnormal : normalize "_".toList = [] := by decide
  have hquery : query ≠ [] := by decide
  have hascii : ∀ c ∈ query, c.val < 0x80 := by simp [query]
  have hletters : normalize query ≠ [] := by decide
  have hranked : ranked query suggestions =
      [([3, 3, -2, 2, 9, 5], { label := "isChildOf", kind := .enumMember }),
        ([3, 3, -2, 0, 7, 5], { label := "CHILD_OF", kind := .enumMember })] := by
    decide +kernel
  have hlabels : (sortBy query suggestions).map (·.label) = ["CHILD_OF", "isChildOf"] := by
    rw [sortBy, if_neg (by decide +kernel), hranked]
    simp [List.mergeSort, noWorse]
  exact ⟨hnormal, (sortBy_filters_and_orders _ suggestions).1 (.inr (.inr hnormal)), hquery, hascii,
    hletters, hlabels,
    (sortBy_filters_and_orders query suggestions).2 hquery hascii hletters⟩

end Suggestion

end ManifestAssist
