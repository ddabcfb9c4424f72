import Mathlib
import ManifestAssist.Proofs.Completion.Places

/-! # Scores of subsequences

A query has a score in a label exactly if it is a subsequence of the label. The score tells what
the places that are furthest to the front look like: where they start, how many places they leave
out and how long their longest block is.
-/

namespace ManifestAssist

variable {query label : Text} {places : List Nat} {first run : Nat} {rest : List Nat}

theorem IsEmbedding.length_eq (h : IsEmbedding query label places) :
    places.length = query.length := by
  simpa using congrArg List.length h.characters

theorem IsEmbedding.getElem?_first (h : IsEmbedding query label (first :: rest)) :
    label[first]? = query.head? := by
  have hcharacters := congrArg List.head? h.characters
  cases query with
  | nil => cases hcharacters
  | cons q query => exact Option.some.inj hcharacters

theorem IsLeftmost.isLeast_first (h : IsLeftmost query label (first :: rest)) :
    IsLeast {place | label[place]? = query.head?} first := by
  have hfirst := h.getElem?_first
  refine ⟨hfirst, fun place hplace => ?_⟩
  by_contra hlt
  have hother : IsEmbedding query label (place :: rest) := by
    obtain ⟨hbehind, hrest⟩ := List.pairwise_cons.mp h.ascending
    constructor
    · refine List.pairwise_cons.mpr ⟨fun next hnext => ?_, hrest⟩
      have := hbehind next hnext
      omega
    · rw [← h.characters, List.map_cons, List.map_cons, hfirst, ← hplace]
  cases h.least _ hother with
  | cons hle _ => exact hlt hle

theorem IsLongestRun.one_le (h : IsLongestRun (first :: rest) run) : 1 ≤ run := by
  refine h.le_of_block first 1 fun i hi => ?_
  obtain rfl := Nat.lt_one_iff.mp hi
  exact List.mem_cons_self

theorem IsLongestRun.le_length (h : IsLongestRun places run) : run ≤ places.length := by
  obtain ⟨start, hblock⟩ := h.exists_block
  have hsubset : List.range' start run ⊆ places := by
    intro place hplace
    obtain ⟨hle, hlt⟩ := List.mem_range'_1.mp hplace
    simpa [Nat.add_sub_cancel' hle] using hblock (place - start) (by omega)
  simpa using (List.subperm_of_subset List.nodup_range' hsubset).length_le

/-- A query has a score in a label exactly if neither is empty and the query is a subsequence of the
label. The score is that of the leftmost places, the first of which is the first occurrence of the
first character. -/
theorem Score.of?_tells_leftmost (query label : Text) :
    ((of? query label).isSome ↔ query ≠ [] ∧ label ≠ [] ∧ query.Sublist label) ∧
    ∀ score, of? query label = some score →
      IsLeast {place | label[place]? = query.head?} score.first ∧
      score.length = label.length ∧
      ∃ places last, IsLeftmost query label places ∧
        places.head? = some score.first ∧ places.getLast? = some last ∧
        score.first + (query.length - 1) ≤ last ∧
        score.gapSum = last - score.first - (query.length - 1) ∧
        IsLongestRun places score.longestRun ∧
        1 ≤ score.longestRun ∧ score.longestRun ≤ query.length := by
  constructor
  · rw [isSome_of?_iff]
    constructor
    · rintro ⟨hquery, hsublist⟩
      refine ⟨hquery, ?_, hsublist⟩
      rintro rfl
      exact hquery (List.sublist_nil.mp hsublist)
    · rintro ⟨hquery, -, hsublist⟩
      exact ⟨hquery, hsublist⟩
  · intro score hscore
    obtain ⟨places, hleftmost, hmeasures⟩ := of?_eq_some_iff.mp hscore
    have hlength := hleftmost.length_eq
    cases places with
    | nil => cases hmeasures.first
    | cons first rest =>
      obtain rfl : first = score.first := Option.some.inj hmeasures.first
      have hlast := hmeasures.last
      rw [hlength] at hlast
      refine ⟨hleftmost.isLeast_first, hmeasures.length, _, _, hleftmost, rfl, hlast, ?_, ?_,
        hmeasures.longestRun, hmeasures.longestRun.one_le, ?_⟩
      · omega
      · omega
      · rw [← hlength]
        exact hmeasures.longestRun.le_length

theorem Score.of?_tells_leftmost_twoGaps :
    let query : Text := "abbc".toList
    let label : Text := "xabxbbcc".toList
    of? query label = some ⟨2, 2, 1, 8⟩ ∧
      IsLeast {place | label[place]? = some 'a'} 1 ∧
      ∃ places last, IsLeftmost query label places ∧
        places.head? = some 1 ∧ places.getLast? = some last ∧
        1 + 3 ≤ last ∧ 2 = last - 1 - 3 ∧ IsLongestRun places 2 := by
  intro query label
  have hscore : of? query label = some ⟨2, 2, 1, 8⟩ := by decide +kernel
  obtain ⟨-, htells⟩ := of?_tells_leftmost query label
  obtain ⟨hleast, -, places, last, hleftmost, hfirst, hlast, hle, hgaps, hrun, -, -⟩ :=
    htells _ hscore
  exact ⟨hscore, hleast, places, last, hleftmost, hfirst, hlast, hle, hgaps, hrun⟩

end ManifestAssist
