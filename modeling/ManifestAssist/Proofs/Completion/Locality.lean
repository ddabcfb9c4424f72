import ManifestAssist.Proofs.Completion.Edits
import ManifestAssist.Proofs.Text.LineMap

/-! # What a completion reads

The blocks and the items around a line are told by the lines up to it, and the vocabularies know
the text by them alone. So what stands behind the line of the cursor has no part in a completion.
-/

namespace ManifestAssist

open Text

variable {a b : Text}

/-- Texts that both have a line, and agree on it and on all lines ahead of it. -/
structure AgreeThrough (line : Nat) (a b : Text) : Prop where
  lt_left : line < a.lines.length
  lt_right : line < b.lines.length
  texts : ∀ i ≤ line, a.lines[i]?.map Line.text = b.lines[i]?.map Line.text

namespace AgreeThrough

variable {n : Nat} (h : AgreeThrough n a b)

include h

theorem take_splitAll_eq : (a.splitAll '\n').take (n + 1) = (b.splitAll '\n').take (n + 1) := by
  refine List.ext_getElem? fun i => ?_
  rcases Nat.lt_or_ge i (n + 1) with hi | hi
  · rw [List.getElem?_take_of_lt hi, List.getElem?_take_of_lt hi, ← map_text_lines,
      ← map_text_lines, List.getElem?_map, List.getElem?_map]
    exact h.texts i (Nat.le_of_lt_succ hi)
  · rw [List.getElem?_take_eq_none hi, List.getElem?_take_eq_none hi]

theorem take_lines_eq : a.lines.take (n + 1) = b.lines.take (n + 1) := by
  rw [lines, lines, Line.take_locate, Line.take_locate, h.take_splitAll_eq]

theorem take_lines_ahead_eq : a.lines.take n = b.lines.take n := by
  have htake := congrArg (List.take n) h.take_lines_eq
  simpa [List.take_take] using htake

theorem getElem?_lines_eq : a.lines[n]? = b.lines[n]? := by
  have hget := congrArg (·[n]?) h.take_lines_eq
  simpa using hget

theorem exists_line : ∃ line, a.lines[n]? = some line ∧ b.lines[n]? = some line :=
  ⟨_, List.getElem?_eq_getElem h.lt_left,
    h.getElem?_lines_eq.symm.trans (List.getElem?_eq_getElem h.lt_left)⟩

theorem ahead_eq : a.ahead n = b.ahead n := by
  have htake := congrArg (List.take n) h.take_splitAll_eq
  simp only [List.take_take, Nat.min_eq_left (Nat.le_succ n)] at htake
  rw [Text.ahead, Text.ahead, htake]

theorem chain_eq : Outline.chain a n = Outline.chain b n := by
  rw [Outline.chain, Outline.chain, h.getElem?_lines_eq, h.take_lines_ahead_eq]

theorem itemIndex_eq (label : String) :
    Outline.itemIndex label n a = Outline.itemIndex label n b := by
  rw [Outline.itemIndex, Outline.itemIndex, h.take_lines_eq]

end AgreeThrough

section Position

variable {position : Position} (h : AgreeThrough position.line a b)

include h

theorem AgreeThrough.offset_eq :
    (LineMap.ofText a).offset position = (LineMap.ofText b).offset position := by
  obtain ⟨line, ha, hb⟩ := h.exists_line
  simp [LineMap.offset, ha, hb]

theorem AgreeThrough.slice?_eq {start stop : Nat}
    (hstop : stop ≤ (LineMap.ofText a).offset position) :
    a.slice? start stop = b.slice? start stop := by
  obtain ⟨line, ha, hb⟩ := h.exists_line
  have hle : stop ≤ (a.ahead position.line ++ line.text).bytes := by
    rw [LineMap.offset_eq_bytes_ahead_append ha] at hstop
    exact hstop.trans (width_le_of_isPrefix _
      ((List.prefix_append_right_inj _).mpr (takeWithin_isPrefix ..)))
  obtain ⟨rest, hrest⟩ := exists_append_of_getElem? ha
  obtain ⟨rest', hrest'⟩ := exists_append_of_getElem? hb
  rw [hrest', ← h.ahead_eq, slice?_append_of_le hle, ← slice?_append_of_le hle start rest, ← hrest]

end Position

namespace Cursor

/-- The cursor at its place in another text. -/
def inText (cursor : Cursor) (text : Text) : Cursor :=
  { cursor with text }

variable {position : Position}

theorem at?_inText (h : AgreeThrough position.line a b) :
    at? b position = (at? a position).map (·.inText b) := by
  obtain ⟨line, ha, hb⟩ := h.exists_line
  simp only [at?, LineMap.start?_ofText, LineMap.line?_ofText, ha, hb, h.chain_eq, h.offset_eq,
    Option.map_some, Option.bind_eq_bind, Option.bind_some, Option.pure_def, Option.map_bind,
    Function.comp_def]
  rfl

theorem item?_inText {cursor : Cursor} (hcursor : at? a position = some cursor)
    (h : AgreeThrough position.line a b) (label : String) :
    (cursor.inText b).item? label = cursor.item? label := by
  obtain ⟨start, line, front, -, -, -, -, htext, hline, -⟩ := exists_cut?_of_at? hcursor
  rw [item?, item?, htext, hline, h.itemIndex_eq]
  change (Outline.itemIndex label cursor.line b).item? = _
  rw [hline]

end Cursor

/-- The request with its cursor in another text. -/
def Request.inText (request : Request) (text : Text) : Request :=
  { request with cursor := request.cursor.inText text }

section Vocabularies

variable {request : Request} {text : Text}

theorem Selector.draft?_inText : draft? (request.inText text) = draft? request := rfl

variable (h : ∀ label, (request.inText text).cursor.item? label = request.cursor.item? label)

include h

theorem Topology.rule?_inText : rule? (request.inText text) = rule? request := by
  simp only [rule?, h]
  rfl

theorem Topology.draft?_inText : draft? (request.inText text) = draft? request := by
  simp only [draft?, dimensions, placeholders?, rule?_inText h]
  rfl

theorem Screens.layout?_inText : layout? (request.inText text) = layout? request := by
  simp only [layout?, screen?, h]
  rfl

theorem Screens.draft?_inText : draft? (request.inText text) = draft? request := by
  simp only [draft?, freeTypes, freeCards, cardTypes, cardType?, layout?_inText h, h]
  rfl

theorem Prometheus.draft?_inText : draft? (request.inText text) = draft? request := by
  simp only [draft?, group?, currentSeries?, h]
  rfl

theorem Completion.draft?_inText : draft? (request.inText text) = draft? request := by
  simp only [draft?, vocabularies, List.findSome?, Topology.draft?_inText h,
    Selector.draft?_inText, Screens.draft?_inText h, Prometheus.draft?_inText h]

end Vocabularies

section Complete

variable {position : Position}

theorem Draft.ReplacesEnd.stop_le {draft : Draft} {cursor : Cursor} (h : draft.ReplacesEnd cursor) :
    draft.replace.stop ≤ cursor.offset := by
  obtain ⟨typed, -, hreplace⟩ := h
  rw [hreplace]
  exact Nat.min_le_left ..

/-- A completion is the same in all texts that agree on the line of the position and the lines
ahead of it. -/
theorem complete_eq_of_agreeThrough (h : AgreeThrough position.line a b) (manifest : Manifest)
    (context : Context) :
    complete a position manifest context = complete b position manifest context := by
  unfold complete
  rw [Cursor.at?_inText h, h.offset_eq]
  cases hcursor : Cursor.at? a position with
  | none => rfl
  | some cursor =>
    have hdraft : Completion.draft? ⟨cursor.inText b, manifest, context⟩ =
        Completion.draft? ⟨cursor, manifest, context⟩ :=
      @Completion.draft?_inText ⟨cursor, manifest, context⟩ b (Cursor.item?_inText hcursor h)
    simp only [Option.map_some, hdraft]
    cases hanswer : Completion.draft? ⟨cursor, manifest, context⟩ with
    | none => rfl
    | some draft =>
      -- The ranking reads the text once more, but not behind the position.
      have hstop := (Completion.replacesEnd_of_draft? hanswer).stop_le
      rw [Cursor.offset_of_at? hcursor] at hstop
      simp only [Completion.ofDraft, h.slice?_eq hstop]

/-- A pattern of a rule, with half a placeholder at its end. -/
def halfPlaceholder : Text :=
  ("topology:\n  types:\n  - rules:\n    - requiredDimensions:\n      - key: pod\n" ++
    "      idPattern: p_\x7bp").toList

theorem complete_eq_of_agreeThrough_halfPlaceholder :
    let manifest := (Manifest.parse halfPlaceholder).toOption.getD .empty
    let text := halfPlaceholder ++ "\n  - rules:\n\t: [".toList
    let completion := complete halfPlaceholder ⟨5, 21⟩ manifest .default
    AgreeThrough 5 halfPlaceholder text ∧
      completion.offers.map (·.suggestion.label) = ["\x7bpod\x7d"] ∧
      completion = complete text ⟨5, 21⟩ manifest .default := by
  intro manifest text completion
  have h : AgreeThrough 5 halfPlaceholder text := by
    refine ⟨by decide +kernel, by decide +kernel, by decide +kernel⟩
  exact ⟨h, by decide +kernel, complete_eq_of_agreeThrough h manifest .default⟩

end Complete

end ManifestAssist
