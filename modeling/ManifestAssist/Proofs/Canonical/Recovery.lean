import ManifestAssist.Proofs.Canonical.Items
import ManifestAssist.Proofs.Outline.Alike

/-! # Structure recovered from a canonical manifest

The lines of a canonical text are the rows of its tree, and what a scan finds depends on the texts
of lines only. So the chain and the item of a line are those that its row has in the tree.
-/

namespace ManifestAssist.Canonical

open Text Outline

variable {text : Text} {entries : List Entry} {between : List Row} {row first head : Row}
  {key : Key} {rest : List Text} {k n : Nat} {line : Line} {lines : List Line}

theorem map_text_lines_render (hne : rows entries ≠ [])
    (htext : text = render entries ∨ text = render entries ++ ['\n']) :
    ∃ rest, text.lines.map Line.text = (rows entries).map Row.text ++ rest := by
  have hrender : splitAll '\n' (render entries) = (rows entries).map Row.text := by
    refine splitAll_intercalate (by simpa using hne) ?_
    simp only [List.forall_mem_map]
    exact fun row _ => row.newline_not_mem_text
  rcases htext with rfl | rfl
  · exact ⟨[], by rw [map_text_lines, hrender, List.append_nil]⟩
  · refine ⟨[[]], ?_⟩
    rw [map_text_lines, splitAll_append_cons, hrender]
    rfl

theorem map_text_take (h : text.lines.map Line.text = (rows entries).map Row.text ++ rest)
    (hn : n ≤ (rows entries).length) :
    (text.lines.take n).map Line.text = ((rows entries).take n).map Row.text := by
  rw [List.map_take, h, List.take_append_of_le_length (by simpa using hn), List.map_take]

theorem exists_line_of_row (h : text.lines.map Line.text = (rows entries).map Row.text ++ rest)
    (hrow : (rows entries)[n]? = some row) :
    ∃ line, text.lines[n]? = some line ∧ line.text = row.text := by
  obtain ⟨hn, -⟩ := List.getElem?_eq_some_iff.mp hrow
  have hget : (text.lines.map Line.text)[n]? = some row.text := by
    rw [h, List.getElem?_append_left (by simpa using hn), List.getElem?_map, hrow]
    rfl
  rw [List.getElem?_map, Option.map_eq_some_iff] at hget
  exact hget

theorem start_or_inside_of_row (hrow : (rows entries)[n]? = some row) :
    (row.start = ⟨0, false⟩ ∧ row.path = [] ∧ row.body.key? ≠ none) ∨
      (0 < row.start.indent ∧ row.path ≠ []) :=
  start_or_inside_of_mem_entryRows (List.mem_of_getElem? hrow)

theorem chain_of_top_level (hline : text.lines[n]? = some line) (htext : line.text = row.text)
    (hstart : row.start = ⟨0, false⟩) (hkey : row.body.key? = some key) :
    chain text n = [key.name] := by
  have hindent : line.indent? = some 0 := by
    rw [Line.indent?, htext, row.indent?_text, hstart]
  have hlabel : line.label? = some key.name := by
    rw [Line.label?, htext, Row.label?_text hkey]
  rw [chain_eq_ownLabel hline hindent, ownLabel, hlabel]
  rfl

theorem chain_of_row (h : text.lines.map Line.text = (rows entries).map Row.text ++ rest)
    (hrow : (rows entries)[n]? = some row) (hcolumn : row.start.column ≠ 0) :
    chain text n = row.path.map Step.name := by
  obtain ⟨line, hline, htext⟩ := exists_line_of_row h hrow
  obtain ⟨hn, -⟩ := List.getElem?_eq_some_iff.mp hrow
  have hindent : line.indent? ≠ some 0 := by
    rw [Line.indent?, htext, row.indent?_text]
    rcases start_or_inside_of_row hrow with ⟨hstart, -⟩ | ⟨hpos, -⟩
    · rw [hstart] at hcolumn
      exact absurd rfl hcolumn
    · simpa using Nat.ne_of_gt hpos
  have hnesting : nestingColumn line = row.start.column := by
    rw [nestingColumn, Line.contentColumn?, htext, row.contentColumn?_text]
    rfl
  have htake : (text.lines.take n).map Line.text =
      (((rows entries).take n).map Row.line).map Line.text := by
    rw [map_text_take h (Nat.le_of_lt hn), List.map_map]
    rfl
  obtain ⟨-, hpath⟩ := nested_entryRows 0 entries n row hrow
  rw [chain_eq_map_openFrames hline hindent, hnesting,
    (openFrames_contents_eq (forall₂_alike_of_map_text_eq htake)).1]
  exact hpath

theorem marker?_text_eq_iff (hmarked : first.start.marked) (row : Row) :
    Outline.marker? row.text = some first.start.indent ↔ row.start = first.start := by
  rw [row.marker?_text]
  cases hfirst : first.start with
  | mk indent marked =>
    obtain rfl : marked = true := by simpa [hfirst] using hmarked
    cases hrow : row.start with
    | mk indent' marked' => cases marked' <;> simp

theorem countP_marker_of_map_text (hmarked : first.start.marked)
    (h : lines.map Line.text = between.map Row.text) :
    lines.countP (·.marker? = some first.start.indent) =
      between.countP (·.start = first.start) := by
  calc lines.countP (·.marker? = some first.start.indent)
      = (lines.map Line.text).countP (Outline.marker? · = some first.start.indent) := by
        rw [List.countP_map]
        rfl
    _ = between.countP fun row => Outline.marker? row.text = some first.start.indent := by
        rw [h, List.countP_map]
        rfl
    _ = between.countP (·.start = first.start) :=
        List.countP_congr fun row _ => by simpa using marker?_text_eq_iff hmarked row

/-- A line that is counted to an item of a list is found there, if no other line declares the key of
the list. -/
theorem itemIndex_of_countsTo
    (htake : (text.lines.take (n + 1)).map Line.text = ((rows entries).take (n + 1)).map Row.text)
    (hcounts : CountsTo key k ((rows entries).take (n + 1)))
    (hone : text.lines.countP (·.declares key.name) = 1) :
    itemIndex key.name n text = .item k := by
  obtain ⟨before, head, first, between, hsplit, hkey, hmarked, hle, hcount⟩ := hcounts
  rw [hsplit, List.map_append, List.map_cons, List.map_cons] at htake
  obtain ⟨ahead, behind, hlines, -, hbehind⟩ := List.map_eq_append_iff.mp htake
  obtain ⟨opening, behind, rfl, hopening, hbehind⟩ := List.map_eq_cons_iff.mp hbehind
  obtain ⟨marker, items, rfl, hmarker, hitems⟩ := List.map_eq_cons_iff.mp hbehind
  have hdeclares : opening.declares key.name := by
    rw [Line.declares, hopening]
    exact Row.declares_text hkey
  have hnot : ∀ line ∈ marker :: items, ¬ line.declares key.name := by
    have hall := hone
    rw [← List.take_append_drop (n + 1) text.lines, hlines, List.countP_append,
      List.countP_append, List.countP_cons_of_pos (by exact hdeclares)] at hall
    exact List.countP_eq_zero.mp (by omega)
  have hcolumn : opening.labelColumn = head.start.column := by
    rw [Line.labelColumn, Line.contentColumn?, hopening, head.contentColumn?_text]
    rfl
  have hfirst : marker.marker? = some first.start.indent := by
    rw [Line.marker?, hmarker, first.marker?_text, if_pos hmarked]
  have hitem : firstItem? opening.labelColumn (marker :: items) =
      some (first.start.indent, marker, items) := by
    rw [firstItem?, if_pos (isSignificant_of_marker? hfirst), hfirst]
    simp [hcolumn, hle]
  rw [itemIndex_of_last_declaration hlines hdeclares hnot, hitem]
  simp only [countP_marker_of_map_text hmarked hitems, hcount]

/-- The structure of a canonical manifest is recovered from its lines. The chain of a line holds the
entries around it, or the entry itself at the left margin. Each list around the line has it in the
item that holds it, if no other line declares the key of the list. -/
theorem chain_and_itemIndex_of_row {text : Text} {entries : List Entry}
    (htext : text = render entries ∨ text = render entries ++ ['\n']) {n : Nat} {row : Row}
    (hrow : (rows entries)[n]? = some row) :
    (∃ line, text.lines[n]? = some line ∧ line.text = row.text) ∧
      (row.path = [] → ∃ key, row.body.key? = some key ∧ chain text n = [key.name]) ∧
      (row.start.column ≠ 0 → chain text n = row.path.map Step.name) ∧
      ∀ step ∈ row.path, ∀ k, step.item = some k →
        text.lines.countP (·.declares step.key.name) = 1 →
          itemIndex step.key.name n text = .item k := by
  obtain ⟨hn, -⟩ := List.getElem?_eq_some_iff.mp hrow
  obtain ⟨rest, hlines⟩ :=
    map_text_lines_render (List.ne_nil_of_mem (List.mem_of_getElem? hrow)) htext
  obtain ⟨line, hline, hlinetext⟩ := exists_line_of_row hlines hrow
  refine ⟨⟨line, hline, hlinetext⟩, fun hpath => ?_, chain_of_row hlines hrow, ?_⟩
  · rcases start_or_inside_of_row hrow with ⟨hstart, -, hbody⟩ | ⟨-, hinside⟩
    · obtain ⟨key, hkey⟩ := Option.ne_none_iff_exists'.mp hbody
      exact ⟨key, hkey, chain_of_top_level hline hlinetext hstart hkey⟩
    · exact absurd hpath hinside
  · intro step hstep k hk hone
    have hcounts := counted_entryRows 0 entries n row hrow step hstep k hk
    exact itemIndex_of_countsTo (map_text_take hlines hn) hcounts hone

def stages : Key := ⟨"stages".toList, ⟨'s', rfl, by decide⟩, by simp [isBlank]⟩

def env : Key := ⟨"env".toList, ⟨'e', rfl, by decide⟩, by simp [isBlank]⟩

def mode : Key := ⟨"mode".toList, ⟨'m', rfl, by decide⟩, by simp [isBlank]⟩

def fast : Value := ⟨"fast".toList, by decide⟩

def build : Scalar := ⟨"build".toList, ⟨'b', rfl, by decide⟩, by decide⟩

/-- Two stages, the second of which holds a block. -/
def pipeline : List Entry :=
  [.list stages (.scalar build) [.entries (.leaf mode fast) [.block env (.leaf mode fast) []]]]

def pipelineText : Text :=
  "stages:\n  - build\n  - mode: fast\n    env:\n      mode: fast\n".toList

theorem chain_and_itemIndex_of_row_pipeline :
    chain pipelineText 4 = ["stages", "env"] ∧ itemIndex "stages" 4 pipelineText = .item 1 := by
  have htext : pipelineText = render pipeline ++ ['\n'] := by decide +kernel
  have hrow : (rows pipeline)[4]? = some
      { start := ⟨6, false⟩, body := .leaf mode fast, path := [⟨stages, some 1⟩, ⟨env, none⟩] } :=
    rfl
  have hone : pipelineText.lines.countP (·.declares stages.name) = 1 := by decide +kernel
  obtain ⟨-, -, hchain, hitem⟩ := chain_and_itemIndex_of_row (.inr htext) hrow
  exact ⟨hchain (by decide), hitem ⟨stages, some 1⟩ (by simp) 1 rfl hone⟩

end ManifestAssist.Canonical
