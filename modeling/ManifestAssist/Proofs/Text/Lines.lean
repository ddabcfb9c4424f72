import Mathlib
import ManifestAssist.Outline.Line

/-! # Places of lines

The lines of a text are numbered from zero and lie one after another, each apart from the next by a
newline. Lines that are joined by newlines are read back.
-/

namespace ManifestAssist

open Text

namespace Text

variable {sep : Char}

theorem splitAll_eq_splitOn (sep : Char) (text : Text) : splitAll sep text = text.splitOn sep := by
  induction text with
  | nil => rfl
  | cons c cs ih =>
    have hne := List.splitOn_ne_nil sep cs
    rw [List.splitOn_eq_splitOnP] at ih hne ⊢
    rw [splitAll, List.splitOnP_cons_eq_if_modifyHead, ih]
    by_cases hc : c = sep
    · simp [hc]
    · obtain ⟨part, parts, hs⟩ := List.exists_cons_of_ne_nil hne
      simp [hc, hs]

theorem splitAll_ne_nil (text : Text) : splitAll sep text ≠ [] := by
  rw [splitAll_eq_splitOn]
  exact List.splitOn_ne_nil sep text

theorem splitAll_of_not_mem {part : Text} (h : sep ∉ part) : splitAll sep part = [part] := by
  rw [splitAll_eq_splitOn, List.splitOn_eq_splitOnP]
  refine List.splitOnP_eq_singleton fun c hc => beq_eq_false_iff_ne.mpr ?_
  rintro rfl
  exact h hc

theorem not_mem_of_mem_splitAll {text part : Text} (h : part ∈ splitAll sep text) : sep ∉ part := by
  induction text generalizing part with
  | nil => simp_all [splitAll]
  | cons c cs ih =>
    unfold splitAll at h
    split at h
    · rcases List.mem_cons.mp h with rfl | h
      · exact List.not_mem_nil
      · exact ih h
    · rename_i hc
      cases hs : splitAll sep cs with
      | nil => exact absurd hs (splitAll_ne_nil cs)
      | cons first parts =>
        rw [hs] at h
        rcases List.mem_cons.mp h with rfl | h
        · have hfirst : sep ∉ first := ih (by simp [hs])
          simp [Ne.symm hc, hfirst]
        · exact ih (by simp [hs, h])

theorem splitAll_append_cons (text rest : Text) :
    splitAll sep (text ++ sep :: rest) = splitAll sep text ++ splitAll sep rest := by
  simp only [splitAll_eq_splitOn, List.splitOn_eq_splitOnP]
  exact List.splitOnP_append_cons text rest (beq_self_eq_true sep)

/-- Parts that are joined by a character none of them holds are read back. -/
theorem splitAll_intercalate {parts : List Text} (hne : parts ≠ [])
    (h : ∀ part ∈ parts, sep ∉ part) : splitAll sep ([sep].intercalate parts) = parts := by
  rw [splitAll_eq_splitOn]
  exact List.splitOn_intercalate sep h hne

theorem sum_bytes_splitAll (text : Text) :
    ((splitAll '\n' text).map (·.bytes + 1)).sum = text.bytes + 1 := by
  induction text with
  | nil => rfl
  | cons c cs ih =>
    by_cases hc : c = '\n'
    · subst hc
      have hsize : Char.utf8Size '\n' = 1 := by decide
      simp only [splitAll, ↓reduceIte, List.map_cons, List.sum_cons, ih, bytes, width_nil,
        width_cons, hsize]
      omega
    · cases hs : splitAll '\n' cs with
      | nil => exact absurd hs (splitAll_ne_nil cs)
      | cons part parts =>
        simp only [hs, List.map_cons, List.sum_cons, bytes] at ih
        simp only [splitAll, hc, ↓reduceIte, hs, List.map_cons, List.sum_cons, bytes, width_cons]
        omega

end Text

namespace Line

variable {number start : Nat} {texts : List Text}

@[simp] theorem map_text_locate : (locate number start texts).map Line.text = texts := by
  induction texts generalizing number start with
  | nil => rfl
  | cons text texts ih => simp [locate, ih]

theorem take_locate (number start n : Nat) (texts : List Text) :
    (locate number start texts).take n = locate number start (texts.take n) := by
  induction texts generalizing number start n with
  | nil => simp [locate]
  | cons text texts ih =>
    cases n with
    | zero => rfl
    | succ n => simp [locate, ih]

theorem number_of_locate {i : Nat} {line : Line}
    (h : (locate number start texts)[i]? = some line) : line.number = number + i := by
  induction texts generalizing number start i with
  | nil => simp [locate] at h
  | cons text texts ih =>
    cases i with
    | zero => simp [locate] at h; simp [← h]
    | succ i =>
      have := ih (by simpa [locate] using h)
      omega

theorem start_le_of_mem_locate {line : Line} (h : line ∈ locate number start texts) :
    start ≤ line.start := by
  induction texts generalizing number start with
  | nil => simp [locate] at h
  | cons text texts ih =>
    rcases List.mem_cons.mp h with rfl | h
    · exact Nat.le_refl _
    · have := ih h
      omega

theorem stop_lt_of_mem_locate {line : Line} (h : line ∈ locate number start texts) :
    line.stop < start + (texts.map (·.bytes + 1)).sum := by
  induction texts generalizing number start with
  | nil => simp [locate] at h
  | cons text texts ih =>
    simp only [List.map_cons, List.sum_cons]
    rcases List.mem_cons.mp h with rfl | h
    · simp only [stop]
      omega
    · have := ih h
      omega

theorem pairwise_locate : (locate number start texts).Pairwise fun a b => a.stop < b.start := by
  induction texts generalizing number start with
  | nil => exact .nil
  | cons text texts ih =>
    refine .cons (fun line h => ?_) ih
    have := start_le_of_mem_locate h
    simp only [stop]
    omega

end Line

namespace Text

variable {text : Text}

theorem map_text_lines (text : Text) : text.lines.map Line.text = text.splitAll '\n' :=
  Line.map_text_locate

theorem intercalate_lines (text : Text) : ['\n'].intercalate (text.lines.map Line.text) = text := by
  rw [map_text_lines, splitAll_eq_splitOn]
  exact List.intercalate_splitOn '\n'

theorem length_splitAll_eq_length_lines (text : Text) :
    (text.splitAll '\n').length = text.lines.length := by
  rw [← map_text_lines, List.length_map]

theorem number_of_getElem? {i : Nat} {line : Line} (h : text.lines[i]? = some line) :
    line.number = i := by
  have := Line.number_of_locate h
  omega

theorem pairwise_number_lines (text : Text) :
    text.lines.Pairwise fun a b => a.number < b.number := by
  refine List.pairwise_iff_getElem.mpr fun i j hi hj hlt => ?_
  rwa [number_of_getElem? (List.getElem?_eq_getElem hi),
    number_of_getElem? (List.getElem?_eq_getElem hj)]

theorem stop_le_bytes {line : Line} (h : line ∈ text.lines) : line.stop ≤ text.bytes := by
  have := Line.stop_lt_of_mem_locate h
  rw [sum_bytes_splitAll] at this
  omega

theorem start_le_bytes {line : Line} (h : line ∈ text.lines) : line.start ≤ text.bytes :=
  Nat.le_trans (Nat.le_add_right ..) (stop_le_bytes h)

theorem pairwise_lines (text : Text) : text.lines.Pairwise fun a b => a.stop < b.start :=
  Line.pairwise_locate

theorem pairwise_start_lines (text : Text) : text.lines.Pairwise fun a b => a.start < b.start :=
  (pairwise_lines text).imp fun h => Nat.lt_of_le_of_lt (Nat.le_add_right ..) h

theorem getElem?_le_iff {starts : List Nat} (hsorted : starts.Pairwise (· < ·)) {k start : Nat}
    (offset : Nat) (h : starts[k]? = some start) :
    start ≤ offset ↔ k < starts.countP (· ≤ offset) := by
  induction starts generalizing k with
  | nil => simp at h
  | cons s starts ih =>
    obtain ⟨hlt, hsorted⟩ := List.pairwise_cons.mp hsorted
    have hzero (hs : ¬ s ≤ offset) : starts.countP (· ≤ offset) = 0 := by
      refine List.countP_eq_zero.mpr fun s' hs' => ?_
      have := hlt s' hs'
      simp only [decide_eq_true_eq]
      omega
    cases k with
    | zero =>
      obtain rfl : s = start := by simpa using h
      by_cases hs : s ≤ offset <;> simp [hs, hzero]
    | succ k =>
      have h : starts[k]? = some start := by simpa using h
      have hstart := hlt start (List.mem_of_getElem? h)
      by_cases hs : s ≤ offset
      · rw [ih hsorted h, List.countP_cons_of_pos (by simpa using hs)]
        omega
      · rw [List.countP_cons_of_neg (by simpa using hs), hzero hs]
        omega

theorem start_lt_start_iff {i j : Nat} {a b : Line} (ha : text.lines[i]? = some a)
    (hb : text.lines[j]? = some b) : a.start < b.start ↔ i < j := by
  obtain ⟨hi, rfl⟩ := List.getElem?_eq_some_iff.mp ha
  obtain ⟨hj, rfl⟩ := List.getElem?_eq_some_iff.mp hb
  have hmono := List.pairwise_iff_getElem.mp (pairwise_start_lines text)
  constructor
  · intro h
    by_contra hle
    rcases Nat.lt_or_eq_of_le (Nat.le_of_not_lt hle) with hlt | rfl
    · exact absurd (hmono j i hj hi hlt) (by omega)
    · omega
  · exact hmono i j hi hj

theorem stop_lt_start {i j : Nat} {a b : Line} (ha : text.lines[i]? = some a)
    (hb : text.lines[j]? = some b) (hlt : i < j) : a.stop < b.start := by
  obtain ⟨hi, rfl⟩ := List.getElem?_eq_some_iff.mp ha
  obtain ⟨hj, rfl⟩ := List.getElem?_eq_some_iff.mp hb
  exact List.pairwise_iff_getElem.mp (pairwise_lines text) i j hi hj hlt

end Text

end ManifestAssist
