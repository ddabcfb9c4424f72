import ManifestAssist.Navigation.Selection
import ManifestAssist.Proofs.Outline.Column
import ManifestAssist.Proofs.Text.LineMap

/-! # Selections that grow

A span is kept only if it is larger than the last one kept and covers it. So the spans of a
selection lie strictly one within the next, and on a line that is not blank they start with what the
line holds between white space.
-/

namespace ManifestAssist

open Text Outline

variable {text : Text} {target : Line} {first : Span} {grown : List Span} {t : Nat}

/-- Does a span lie within another one that is larger? -/
def Span.Within (inner outer : Span) : Prop :=
  outer.covers inner ∧ outer ≠ inner

/-- Spans each of which lies within the next lie within all later ones. -/
instance : IsTrans Span Span.Within where
  trans a b c := by
    rintro ⟨hab, hne⟩ ⟨hbc, -⟩
    refine ⟨Span.covers_trans hbc hab, ?_⟩
    rintro rfl
    exact hne (Span.covers_antisymm hab hbc)

namespace Selection

/-- Is the span that of what a line holds between white space? -/
def IsContent (text : Text) (line : Line) (span : Span) : Prop :=
  ∃ front content back, line.text = front ++ content ++ back ∧
    (∀ c ∈ front, isBlank c) ∧ (∀ c ∈ back, isBlank c) ∧
    (∃ c ∈ content.head?, ¬ isBlank c) ∧ (∃ c ∈ content.getLast?, ¬ isBlank c) ∧
    span.start = line.start + front.bytes ∧ text.slice? span.start span.stop = some content

theorem content?_eq (hbytes : text.bytes < 2 ^ 32) (htarget : text.lines[t]? = some target)
    (h : trim target.text ≠ []) :
    content? target.start target.text = some
        ⟨target.start + bytes (target.text.takeWhile isBlank),
          target.start + bytes (target.text.takeWhile isBlank ++ trim target.text)⟩ ∧
      target.start + bytes (target.text.takeWhile isBlank ++ trim target.text) ≤ target.stop := by
  have hstart := bytes_le_bytes_append (target.text.takeWhile isBlank) (trim target.text)
  have hstop : bytes (target.text.takeWhile isBlank ++ trim target.text) ≤ target.text.bytes := by
    conv_rhs => rw [← takeWhile_append_trim_append h]
    exact bytes_le_bytes_append ..
  have hend := stop_le_bytes (List.mem_of_getElem? htarget)
  have hmax : maxOffset = 2 ^ 32 - 1 := rfl
  unfold Line.stop at hend ⊢
  refine ⟨?_, by omega⟩
  rw [content?, if_neg (by simpa using h), trimEnd_eq_append_trim h,
    Span.between_eq (by omega) (by omega)]

theorem exists_isContent (hbytes : text.bytes < 2 ^ 32) (htarget : text.lines[t]? = some target)
    (h : ∃ c ∈ target.text, ¬ isBlank c) :
    ∃ first, content? target.start target.text = some first ∧ IsContent text target first := by
  have hne : trim target.text ≠ [] := by
    obtain ⟨c, hc, hblank⟩ := h
    exact fun hnil => hblank (trim_eq_nil_iff.mp hnil c hc)
  have hsplit := (takeWhile_append_trim_append hne).symm
  refine ⟨_, (content?_eq hbytes htarget hne).1, target.text.takeWhile isBlank, trim target.text,
    target.text.takeEndWhile isBlank, hsplit, ?_, ?_, exists_mem_head?_trim hne,
    exists_mem_getLast?_trim hne, rfl, slice?_of_text_eq_append htarget hsplit⟩
  · exact fun c hc => List.mem_takeWhile_imp hc
  · exact fun c hc => List.mem_takeWhile_imp (List.mem_reverse.mp hc)

theorem isChain_grow (h : grown.IsChain Span.Within) (span : Span) :
    (grow grown span).IsChain Span.Within := by
  unfold grow
  split
  · rename_i last hlast
    split
    · rename_i hgrows
      refine h.append (List.isChain_singleton span) ?_
      simpa [hlast, Span.Within] using hgrows
    · exact h
  · exact List.isChain_singleton span

theorem isChain_foldl_grow (h : grown.IsChain Span.Within) (spans : List Span) :
    (spans.foldl grow grown).IsChain Span.Within := by
  induction spans generalizing grown with
  | nil => exact h
  | cons span spans ih => exact ih (isChain_grow h span)

theorem head?_grow (h : grown.head? = some first) (span : Span) :
    (grow grown span).head? = some first := by
  unfold grow
  split
  · split
    · simp [h]
    · exact h
  · simp_all

theorem head?_foldl_grow (h : grown.head? = some first) (spans : List Span) :
    (spans.foldl grow grown).head? = some first := by
  induction spans generalizing grown with
  | nil => exact h
  | cons span spans ih => exact ih (head?_grow h span)

theorem isChain_spansAt (text : Text) (t : Nat) : (spansAt text t).IsChain Span.Within := by
  unfold spansAt
  dsimp only
  split
  · exact isChain_foldl_grow List.isChain_nil _
  · exact List.isChain_nil

/-- On a line that is not blank, a selection starts with what the line holds. -/
theorem head?_spansAt (htarget : text.lines[t]? = some target)
    (hfirst : content? target.start target.text = some first) :
    (spansAt text t).head? = some first := by
  simp only [spansAt, LineMap.start?_ofText, LineMap.line?_ofText, htarget, Option.map_some, hfirst,
    Option.toList_some, List.singleton_append, List.foldl_cons]
  exact head?_foldl_grow rfl _

/-- The spans of a selection lie strictly one within the other. On a line that is not blank, the
first one is what the line holds between white space, and all cover it. Behind the last line there
are none. -/
theorem spansAt_nest (hbytes : text.bytes < 2 ^ 32) (t : Nat) :
    (spansAt text t).Pairwise Span.Within ∧
      (∀ target, text.lines[t]? = some target → (∃ c ∈ target.text, ¬ isBlank c) →
        ∃ first, (spansAt text t).head? = some first ∧ IsContent text target first ∧
          ∀ span ∈ spansAt text t, span.covers first) ∧
      (text.lines[t]? = none → spansAt text t = []) := by
  have hnest := List.isChain_iff_pairwise.mp (isChain_spansAt text t)
  refine ⟨hnest, fun target htarget hblank => ?_, fun hnone => ?_⟩
  · obtain ⟨first, hfirst, hcontent⟩ := exists_isContent hbytes htarget hblank
    have hhead := head?_spansAt htarget hfirst
    refine ⟨first, hhead, hcontent, fun span hspan => ?_⟩
    obtain ⟨rest, hspans⟩ := List.head?_eq_some_iff.mp hhead
    rw [hspans] at hnest hspan
    rcases List.mem_cons.mp hspan with rfl | hspan
    · exact Span.covers_refl _
    · exact ((List.pairwise_cons.mp hnest).1 span hspan).1
  · simp [spansAt, hnone]

/-- A line whose innermost label stands for a block further out, so that most of the spans that are
tried at it are no larger than the last one. -/
def tabbed : Text := "b:\n  m:\n    - b: ä\n    -    c: y\t\n".toList

theorem spansAt_nest_tabbed :
    tabbed.bytes < 2 ^ 32 ∧ spansAt tabbed 3 = [⟨24, 33⟩, ⟨0, 35⟩] ∧
      (spansAt tabbed 3).Pairwise Span.Within ∧
      (∃ first, (spansAt tabbed 3).head? = some first ∧
        IsContent tabbed ⟨3, 20, "    -    c: y\t".toList⟩ first ∧
        ∀ span ∈ spansAt tabbed 3, span.covers first) ∧
      spansAt tabbed 5 = [] := by
  have hbytes : tabbed.bytes < 2 ^ 32 := by cbv
  have htarget : tabbed.lines[3]? = some ⟨3, 20, "    -    c: y\t".toList⟩ := by cbv
  have hspans : spansAt tabbed 3 = [⟨24, 33⟩, ⟨0, 35⟩] := by decide +kernel
  obtain ⟨hnest, hcontent, -⟩ := spansAt_nest hbytes 3
  obtain ⟨-, -, hbehind⟩ := spansAt_nest hbytes 5
  exact ⟨hbytes, hspans, hnest, hcontent _ htarget ⟨'-', by decide, by decide⟩, hbehind (by cbv)⟩

end Selection

end ManifestAssist
