import Mathlib.Data.List.Forall2
import Mathlib.Tactic.MkIffOfInductiveProp
import ManifestAssist.Completion.Match

/-! # Places of a query in a label

The characters of a query may stand in a label in several ways, one behind another. The search goes
from the front and takes the first place for each character. It finds a way whenever there is one,
and place by place none is further to the front. The score tells how far the places are spread.
-/

namespace ManifestAssist

/-- Ascending places of a label that hold the characters of a query. -/
@[mk_iff] structure IsEmbedding (query label : Text) (places : List Nat) : Prop where
  ascending : places.Pairwise (· < ·)
  characters : places.map (label[·]?) = query.map some

/-- The places that are furthest to the front, each of them. -/
structure IsLeftmost (query label : Text) (places : List Nat) : Prop extends
    IsEmbedding query label places where
  least : ∀ others, IsEmbedding query label others → List.Forall₂ (· ≤ ·) places others

/-- The length of the longest block of adjacent places. -/
structure IsLongestRun (places : List Nat) (run : Nat) : Prop where
  exists_block : ∃ start, ∀ i < run, start + i ∈ places
  le_of_block : ∀ start length, (∀ i < length, start + i ∈ places) → length ≤ run

/-- What a score says about a label with a query at some places. -/
structure Score.Measures (score : Score) (label : Text) (places : List Nat) : Prop where
  first : places.head? = some score.first
  last : places.getLast? = some (score.first + score.gapSum + (places.length - 1))
  longestRun : IsLongestRun places score.longestRun
  length : score.length = label.length

variable {query label : Text} {q c : Char} {places others : List Nat}

section Embedding

theorem isEmbedding_nil : IsEmbedding [] label places ↔ places = [] := by
  simp +contextual [isEmbedding_iff]

theorem not_isEmbedding_cons_nil : ¬ IsEmbedding (q :: query) [] places := by
  intro h
  have hcharacters := h.characters
  cases places <;> simp at hcharacters

theorem isEmbedding_map_succ :
    IsEmbedding query (c :: label) (places.map (· + 1)) ↔ IsEmbedding query label places := by
  simp [isEmbedding_iff, List.pairwise_map, Function.comp_def]

theorem isEmbedding_zero_cons :
    IsEmbedding (q :: query) (c :: label) (0 :: places.map (· + 1)) ↔
      c = q ∧ IsEmbedding query label places := by
  rw [isEmbedding_iff, isEmbedding_iff, and_left_comm]
  simp [List.pairwise_map, Function.comp_def]

theorem exists_eq_map_succ (h : ∀ place ∈ places, 0 < place) :
    ∃ rest : List Nat, places = rest.map (· + 1) := by
  have hcancel : places.map (fun place => place - 1 + 1) = places.map id :=
    List.map_congr_left fun place hplace => Nat.sub_add_cancel (h place hplace)
  exact ⟨places.map (· - 1), by rw [List.map_map, Function.comp_def, hcancel, List.map_id]⟩

theorem IsEmbedding.cases_cons (h : IsEmbedding (q :: query) (c :: label) places) :
    (∃ rest : List Nat, places = 0 :: rest.map (· + 1)) ∨
      ∃ rest : List Nat, places = rest.map (· + 1) := by
  cases places with
  | nil => exact .inr ⟨[], rfl⟩
  | cons first rest =>
    have hrest := (List.pairwise_cons.mp h.ascending).1
    rcases Nat.eq_zero_or_pos first with rfl | hfirst
    · obtain ⟨rest, rfl⟩ := exists_eq_map_succ hrest
      exact .inl ⟨rest, rfl⟩
    · refine .inr (exists_eq_map_succ ?_)
      rintro place (_ | ⟨_, hplace⟩)
      · exact hfirst
      · exact Nat.lt_trans hfirst (hrest place hplace)

end Embedding

section Search

theorem positions?_succ (query : Text) (position : Nat) (label : Text) :
    positions? query (position + 1) label =
      (positions? query position label).map (·.map (· + 1)) := by
  fun_induction positions? query position label with
  | case1 => simp [positions?]
  | case2 => rfl
  | case3 position query c label ih =>
    simp only [positions?, if_true, ih, Option.map_map]
    rfl
  | case4 position q query c label hne ih => simp only [positions?, hne, if_false, ih]

theorem positions?_cons_self (query : Text) (q : Char) (label : Text) :
    positions? (q :: query) 0 (q :: label) =
      (positions? query 0 label).map fun places => 0 :: places.map (· + 1) := by
  simp only [positions?, if_true, positions?_succ, Option.map_map]
  rfl

theorem positions?_cons_of_ne (h : q ≠ c) (query label : Text) :
    positions? (q :: query) 0 (c :: label) =
      (positions? (q :: query) 0 label).map (·.map (· + 1)) := by
  simp only [positions?, h, if_false, positions?_succ]

theorem isSome_positions?_iff (position : Nat) :
    (positions? query position label).isSome ↔ query.Sublist label := by
  fun_induction positions? query position label with
  | case1 => simp
  | case2 => simp
  | case3 position query c label ih => simpa using ih
  | case4 position q query c label hne ih =>
    rw [ih, List.cons_sublist_cons']
    simp [hne]

theorem isEmbedding_of_positions? (h : positions? query 0 label = some places) :
    IsEmbedding query label places := by
  induction label generalizing query places with
  | nil =>
    cases query with
    | nil => exact isEmbedding_nil.mpr (Option.some.inj h).symm
    | cons q query => cases h
  | cons c label ih =>
    cases query with
    | nil => exact isEmbedding_nil.mpr (Option.some.inj h).symm
    | cons q query =>
      by_cases hq : q = c
      · subst hq
        rw [positions?_cons_self] at h
        obtain ⟨rest, hrest, rfl⟩ := Option.map_eq_some_iff.mp h
        exact isEmbedding_zero_cons.mpr ⟨rfl, ih hrest⟩
      · rw [positions?_cons_of_ne hq] at h
        obtain ⟨rest, hrest, rfl⟩ := Option.map_eq_some_iff.mp h
        exact isEmbedding_map_succ.mpr (ih hrest)

theorem forall₂_le_map_succ (h : List.Forall₂ (· ≤ ·) places others) :
    List.Forall₂ (· ≤ ·) (places.map (· + 1)) (others.map (· + 1)) := by
  simpa [List.forall₂_map_left_iff, List.forall₂_map_right_iff] using h

theorem eq_of_forall₂_le (h : List.Forall₂ (· ≤ ·) places others)
    (h' : List.Forall₂ (· ≤ ·) others places) : places = others := by
  induction h with
  | nil => rfl
  | cons hle _ ih =>
    cases h' with
    | cons hge hrest => rw [Nat.le_antisymm hle hge, ih hrest]

/-- Whatever the places are, the search answers, and its places are no further back: where it takes
the first character of the label, the others can only have passed it over. -/
theorem IsEmbedding.exists_positions?_le (h : IsEmbedding query label others) :
    ∃ places, positions? query 0 label = some places ∧ List.Forall₂ (· ≤ ·) places others := by
  induction label generalizing query others with
  | nil =>
    cases query with
    | nil => exact ⟨[], rfl, by rw [isEmbedding_nil.mp h]; exact .nil⟩
    | cons q query => exact absurd h not_isEmbedding_cons_nil
  | cons c label ih =>
    cases query with
    | nil => exact ⟨[], rfl, by rw [isEmbedding_nil.mp h]; exact .nil⟩
    | cons q query =>
      by_cases hq : q = c
      · subst hq
        rw [positions?_cons_self]
        rcases h.cases_cons with ⟨rest, rfl⟩ | ⟨rest, rfl⟩
        · obtain ⟨places, hplaces, hle⟩ := ih (isEmbedding_zero_cons.mp h).2
          exact ⟨_, by rw [hplaces]; rfl, .cons (Nat.le_refl 0) (forall₂_le_map_succ hle)⟩
        · -- The first place of the others is behind this character, and the rest of them embed the
          -- rest of the query.
          cases rest with
          | nil => exact absurd h.characters (by simp)
          | cons first rest =>
            have hrest : IsEmbedding query label rest := by
              have hlabel := isEmbedding_map_succ.mp h
              exact ⟨hlabel.ascending.of_cons, (List.cons.inj hlabel.characters).2⟩
            obtain ⟨places, hplaces, hle⟩ := ih hrest
            exact ⟨_, by rw [hplaces]; rfl, .cons (Nat.zero_le _) (forall₂_le_map_succ hle)⟩
      · rw [positions?_cons_of_ne hq]
        rcases h.cases_cons with ⟨rest, rfl⟩ | ⟨rest, rfl⟩
        · exact absurd (isEmbedding_zero_cons.mp h).1.symm hq
        · obtain ⟨places, hplaces, hle⟩ := ih (isEmbedding_map_succ.mp h)
          exact ⟨_, by rw [hplaces]; rfl, forall₂_le_map_succ hle⟩

theorem positions?_eq_some_iff :
    positions? query 0 label = some places ↔ IsLeftmost query label places := by
  constructor
  · intro h
    refine ⟨isEmbedding_of_positions? h, fun others hothers => ?_⟩
    obtain ⟨found, hfound, hle⟩ := hothers.exists_positions?_le
    obtain rfl : places = found := Option.some.inj (h.symm.trans hfound)
    exact hle
  · intro h
    obtain ⟨found, hfound, hle⟩ := h.toIsEmbedding.exists_positions?_le
    have hge := h.least found (isEmbedding_of_positions? hfound)
    obtain rfl : found = places := eq_of_forall₂_le hle hge
    exact hfound

end Search

section Spread

theorem getLast?_eq_add_gapSum {first : Nat} {rest : List Nat}
    (h : (first :: rest).Pairwise (· < ·)) :
    (first :: rest).getLast? = some (first + gapSum (first :: rest) + rest.length) := by
  induction rest generalizing first with
  | nil => simp [gapSum]
  | cons second rest ih =>
    obtain ⟨hfirst, hrest⟩ := List.pairwise_cons.mp h
    have hlt := hfirst second List.mem_cons_self
    rw [List.getLast?_cons_cons, ih hrest, gapSum, List.length_cons]
    congr 1
    omega

theorem IsLongestRun.unique {run run' : Nat} (h : IsLongestRun places run)
    (h' : IsLongestRun places run') : run = run' := by
  obtain ⟨start, hstart⟩ := h.exists_block
  obtain ⟨start', hstart'⟩ := h'.exists_block
  exact Nat.le_antisymm (h'.le_of_block start run hstart) (h.le_of_block start' run' hstart')

theorem isLongestRun_range' (start length : Nat) :
    IsLongestRun (List.range' start length) length := by
  refine ⟨⟨start, fun i hi => List.mem_range'_1.mpr ⟨by omega, by omega⟩⟩, ?_⟩
  intro start' length' h
  rcases Nat.eq_zero_or_pos length' with rfl | hpos
  · exact Nat.zero_le _
  · have hfirst := List.mem_range'_1.mp (h 0 hpos)
    have hlast := List.mem_range'_1.mp (h (length' - 1) (by omega))
    omega

theorem IsLongestRun.append {run run' : Nat} (h : IsLongestRun places run)
    (h' : IsLongestRun others run') (gap : Nat) (hplaces : ∀ place ∈ places, place < gap)
    (hothers : ∀ place ∈ others, gap < place) :
    IsLongestRun (places ++ others) (max run run') := by
  constructor
  · rcases Nat.le_total run run' with hle | hle
    · obtain ⟨start, hstart⟩ := h'.exists_block
      rw [Nat.max_eq_right hle]
      exact ⟨start, fun i hi => List.mem_append_right _ (hstart i hi)⟩
    · obtain ⟨start, hstart⟩ := h.exists_block
      rw [Nat.max_eq_left hle]
      exact ⟨start, fun i hi => List.mem_append_left _ (hstart i hi)⟩
  · intro start length hblock
    have hgap : ∀ i < length, start + i ≠ gap := by
      intro i hi heq
      rcases List.mem_append.mp (hblock i hi) with hmem | hmem
      · exact absurd (hplaces _ hmem) (by omega)
      · exact absurd (hothers _ hmem) (by omega)
    rcases Nat.lt_or_ge gap start with hlt | hge
    · refine Nat.le_trans (h'.le_of_block start length fun i hi => ?_) (Nat.le_max_right ..)
      refine (List.mem_append.mp (hblock i hi)).resolve_left fun hmem => ?_
      exact absurd (hplaces _ hmem) (by omega)
    · refine Nat.le_trans (h.le_of_block start length fun i hi => ?_) (Nat.le_max_left ..)
      refine (List.mem_append.mp (hblock i hi)).resolve_right fun hmem => ?_
      have hpast := hothers _ hmem
      exact hgap (gap - start) (by omega) (by omega)

theorem isLongestRun_longestRun {start length : Nat} {rest : List Nat}
    (h : ((start + length) :: rest).Pairwise (· < ·)) :
    IsLongestRun (List.range' start (length + 1) ++ rest)
      (longestRun (length + 1) ((start + length) :: rest)) := by
  -- The places of the block that is being counted end ahead of `rest`.
  induction rest generalizing start length with
  | nil => simpa [longestRun] using isLongestRun_range' start (length + 1)
  | cons next rest ih =>
    obtain ⟨hfirst, hrest⟩ := List.pairwise_cons.mp h
    have hlt := hfirst next List.mem_cons_self
    by_cases hnext : next = start + length + 1
    · subst hnext
      have hlonger := @ih start (length + 1) hrest
      rw [List.range'_concat, List.append_assoc] at hlonger
      simpa [longestRun, Nat.add_assoc] using hlonger
    · have hbehind := @ih next 0 hrest
      rw [longestRun, if_neg hnext]
      have hsplit := (isLongestRun_range' start (length + 1)).append (by simpa using hbehind)
        (start + length + 1)
      refine hsplit (fun place hplace => ?_) (fun place hplace => ?_)
      · have := (List.mem_range'_1.mp hplace).2
        omega
      · rcases List.mem_cons.mp hplace with rfl | hplace
        · omega
        · have := (List.pairwise_cons.mp hrest).1 place hplace
          omega

end Spread

namespace Score

theorem Measures.unique {score score' : Score} (h : score.Measures label places)
    (h' : score'.Measures label places) : score = score' := by
  have hfirst : score.first = score'.first := Option.some.inj (h.first.symm.trans h'.first)
  have hlast := Option.some.inj (h.last.symm.trans h'.last)
  have hrun := h.longestRun.unique h'.longestRun
  have hlength := h.length.trans h'.length.symm
  have hgaps : score.gapSum = score'.gapSum := by omega
  cases score
  cases score'
  simp_all

theorem measures_of_ascending {first : Nat} {rest : List Nat}
    (h : (first :: rest).Pairwise (· < ·)) (label : Text) :
    Measures ⟨ManifestAssist.gapSum (first :: rest), ManifestAssist.longestRun 1 (first :: rest),
      first, label.length⟩ label
      (first :: rest) where
  first := rfl
  last := getLast?_eq_add_gapSum h
  longestRun := by simpa using @isLongestRun_longestRun first 0 rest h
  length := rfl

theorem of?_eq_some_iff {score : Score} :
    of? query label = some score ↔
      ∃ places, IsLeftmost query label places ∧ score.Measures label places := by
  constructor
  · intro h
    unfold of? at h
    split at h
    · next first rest hfound =>
      obtain rfl := Option.some.inj h
      have hleftmost := positions?_eq_some_iff.mp hfound
      exact ⟨_, hleftmost, measures_of_ascending hleftmost.ascending label⟩
    · cases h
  · rintro ⟨places, hleftmost, hmeasures⟩
    cases places with
    | nil => cases hmeasures.first
    | cons first rest =>
      rw [of?, positions?_eq_some_iff.mpr hleftmost]
      exact congrArg some ((measures_of_ascending hleftmost.ascending label).unique hmeasures)

theorem isSome_of?_iff : (of? query label).isSome ↔ query ≠ [] ∧ query.Sublist label := by
  rw [← isSome_positions?_iff 0]
  unfold of?
  cases hfound : positions? query 0 label with
  | none => simp
  | some places =>
    have hlength := congrArg List.length (isEmbedding_of_positions? hfound).characters
    cases places <;> cases query <;> simp_all

end Score

end ManifestAssist
