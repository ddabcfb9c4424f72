import ManifestAssist.Proofs.Outline.Alike
import ManifestAssist.Proofs.Outline.Laminar
import ManifestAssist.Proofs.Text.LineMap

/-! # Line endings

A carriage return ahead of a newline stays at the end of its line. No resolver reads it there: white
space at an end is trimmed, a marker may have it behind the hyphen, and a key is ahead of a colon.
So the lines look alike, and offsets within lines of one number stay on lines of one number.
-/

namespace ManifestAssist

open Text Outline

/-- The text with a carriage return ahead of each newline. -/
def Text.crlf (text : Text) : Text :=
  text.flatMap fun c => if c = '\n' then ['\r', '\n'] else [c]

namespace Text

theorem crlf_cons_newline (text : Text) : crlf ('\n' :: text) = '\r' :: '\n' :: text.crlf := rfl

theorem crlf_cons {c : Char} (h : c ≠ '\n') (text : Text) : crlf (c :: text) = c :: text.crlf := by
  simp [crlf, h]

theorem bytes_le_bytes_crlf (text : Text) : text.bytes ≤ text.crlf.bytes := by
  induction text with
  | nil => exact Nat.le_refl _
  | cons c cs ih =>
    unfold bytes at ih ⊢
    by_cases hc : c = '\n'
    · subst hc
      simp only [crlf_cons_newline, width_cons]
      omega
    · simp only [crlf_cons hc, width_cons]
      omega

theorem forall₂_splitAll_crlf (text : Text) :
    List.Forall₂ (fun part part' => part' = part ∨ part' = part ++ ['\r'])
      (text.splitAll '\n') (text.crlf.splitAll '\n') := by
  induction text with
  | nil => exact .cons (.inl rfl) .nil
  | cons c cs ih =>
    by_cases hc : c = '\n'
    · subst hc
      simpa [crlf_cons_newline, splitAll] using ih
    · rw [crlf_cons hc, splitAll, splitAll, if_neg hc, if_neg hc]
      cases hs : splitAll '\n' cs with
      | nil => exact absurd hs (splitAll_ne_nil cs)
      | cons part parts =>
        rw [hs] at ih
        obtain ⟨part', parts', hpart, hparts, hcrlf⟩ := List.forall₂_cons_left_iff.mp ih
        rw [hcrlf]
        refine .cons ?_ hparts
        rcases hpart with rfl | rfl
        · exact .inl rfl
        · exact .inr rfl

section Return

variable (text : Text)

theorem leadingSpaces_append_return : leadingSpaces (text ++ ['\r']) = leadingSpaces text := by
  have hspace : isSpace '\r' = false := by decide
  rw [leadingSpaces, leadingSpaces, List.takeWhile_append]
  split <;> simp_all

theorem dropSpaces_append_return : dropSpaces (text ++ ['\r']) = dropSpaces text ++ ['\r'] := by
  have hspace : isSpace '\r' = false := by decide
  rw [dropSpaces, dropSpaces, List.dropWhile_append]
  split <;> simp_all

theorem trimEnd_append_return : trimEnd (text ++ ['\r']) = trimEnd text := by
  have hblank : isBlank '\r' = true := by decide
  exact trimEnd_append_of_forall (by simp [hblank])

theorem splitFirst_append_return {sep : Char} (h : sep ≠ '\r') :
    splitFirst sep (text ++ ['\r']) =
      (splitFirst sep text).map fun (before, after) => (before, after ++ ['\r']) := by
  induction text with
  | nil => simp [splitFirst, h.symm]
  | cons c cs ih =>
    rw [List.cons_append, splitFirst, splitFirst, ih]
    split
    · rfl
    · cases splitFirst sep cs <;> rfl

end Return

end Text

namespace Outline

section Return

variable {text : Text} (line : Text)

theorem startsWithMarker_append_return (text : Text) :
    startsWithMarker (text ++ ['\r']) = startsWithMarker text := by
  rcases text with _ | ⟨c, cs⟩
  · rfl
  · by_cases hc : c = '-'
    · subst hc
      cases cs <;> rfl
    · rw [Bool.eq_iff_iff]
      exact iff_of_false (not_startsWithMarker_cons hc) (not_startsWithMarker_cons hc)

theorem tail_append_return (h : startsWithMarker text) :
    (text ++ ['\r']).tail = text.tail ++ ['\r'] := by
  cases text with
  | nil => simp [startsWithMarker] at h
  | cons c cs => rfl

theorem columnBehindMarkers_append_return (column : Nat) (text : Text) :
    columnBehindMarkers column (text ++ ['\r']) = columnBehindMarkers column text := by
  have hall (rest : Text) : (rest ++ ['\r']).all isBlank = rest.all isBlank := by
    have hblank : isBlank '\r' = true := by decide
    simp [hblank]
  fun_induction columnBehindMarkers column text with
  | case1 column text hmarker gap rest hblank =>
    rw [columnBehindMarkers, startsWithMarker_append_return, if_pos hmarker]
    simp only [tail_append_return hmarker, leadingSpaces_append_return, dropSpaces_append_return,
      hall]
    exact if_pos hblank
  | case2 column text hmarker gap rest hblank ih =>
    rw [columnBehindMarkers, startsWithMarker_append_return, if_pos hmarker]
    simp only [tail_append_return hmarker, leadingSpaces_append_return, dropSpaces_append_return,
      hall]
    exact (if_neg hblank).trans ih
  | case3 column text hmarker =>
    rw [columnBehindMarkers, startsWithMarker_append_return, if_neg hmarker]

theorem dropMarkers_append_return (text : Text) :
    dropMarkers (text ++ ['\r']) = dropMarkers text ++ ['\r'] := by
  fun_induction dropMarkers text with
  | case1 text hmarker ih =>
    rw [dropMarkers, startsWithMarker_append_return, if_pos hmarker, tail_append_return hmarker,
      dropSpaces_append_return, ih]
  | case2 text hmarker =>
    rw [dropMarkers, startsWithMarker_append_return, if_neg hmarker]

theorem indent?_append_return : indent? (line ++ ['\r']) = indent? line := by
  rw [indent?, indent?, dropSpaces_append_return, trimEnd_append_return,
    leadingSpaces_append_return]

theorem marker?_append_return : marker? (line ++ ['\r']) = marker? line := by
  simp only [marker?, indent?_append_return, dropSpaces_append_return,
    startsWithMarker_append_return]

theorem contentColumn?_append_return : contentColumn? (line ++ ['\r']) = contentColumn? line := by
  simp only [contentColumn?, indent?_append_return, dropSpaces_append_return,
    columnBehindMarkers_append_return]

theorem content_append_return : content (line ++ ['\r']) = content line ++ ['\r'] := by
  rw [content, content, dropSpaces_append_return, dropMarkers_append_return]

theorem splitFirst_content_append_return :
    splitFirst ':' (content (line ++ ['\r'])) =
      (splitFirst ':' (content line)).map fun (key, rest) => (key, rest ++ ['\r']) := by
  rw [content_append_return, splitFirst_append_return _ (by decide)]

theorem label?_append_return : label? (line ++ ['\r']) = label? line := by
  unfold label?
  rw [splitFirst_content_append_return]
  cases splitFirst ':' (content line) <;> rfl

theorem declares_append_return (label : String) :
    declares (line ++ ['\r']) label = declares line label := by
  unfold declares
  rw [splitFirst_content_append_return]
  cases splitFirst ':' (content line) <;> rfl

end Return

end Outline

variable {R : Nat → Nat → Prop} {a b : Line} {as bs : List Line} {text text' : Text}
  {label : String} {i j n : Nat}

theorem Alike.of_append_return (hstart : R a.start b.start) (htext : b.text = a.text ++ ['\r']) :
    Alike R a b where
  start := hstart
  indent := by simp only [Line.indent?, htext, indent?_append_return]
  marker := by simp only [Line.marker?, htext, marker?_append_return]
  column := by simp only [Line.contentColumn?, htext, contentColumn?_append_return]
  label := by simp only [Line.label?, htext, label?_append_return]
  declares label := by simp only [Line.declares, htext, declares_append_return]
  nesting := by
    simp only [nestingColumn, Line.contentColumn?, htext, contentColumn?_append_return,
      leadingSpaces_append_return]
  own := by
    simp only [ownLabel, Line.label?, htext, label?_append_return, content_append_return,
      trimEnd_append_return]

/-- The numbers of the lines on which a span starts and ends. -/
def Span.lineNumbers (text : Text) (span : Span) : Nat × Nat :=
  ((LineMap.ofText text).lineAt span.start, (LineMap.ofText text).lineAt span.stop)

namespace Outline

/-- Are two offsets that a span can hold on lines with the same number? -/
def OnSameLine (text text' : Text) (i j : Nat) : Prop :=
  i ≤ maxOffset ∧ j ≤ maxOffset ∧ (LineMap.ofText text).lineAt i = (LineMap.ofText text').lineAt j

/-- Do two lines have the same number and look alike, wherever they are in the texts? -/
def Counterparts (text text' : Text) (a b : Line) : Prop :=
  a.number = b.number ∧ Alike (OnSameLine text text') a b

theorem onSameLine_min (h : OnSameLine text text' i j) :
    OnSameLine text text' (min i maxOffset) (min j maxOffset) := by
  rwa [Nat.min_eq_left h.1, Nat.min_eq_left h.2.1]

theorem map_lineNumbers_eq_of_related {items items' : List ItemRange}
    (h : List.Forall₂ (ItemRange.Related (OnSameLine text text')) items items') :
    items.map (fun item => (item.index, item.span.lineNumbers text)) =
      items'.map fun item => (item.index, item.span.lineNumbers text') := by
  rw [← List.forall₂_eq_eq_eq, List.forall₂_map_left_iff, List.forall₂_map_right_iff]
  refine h.imp ?_
  rintro item item' ⟨hindex, ⟨-, -, hstart⟩, -, -, hstop⟩
  simp only [Span.lineNumbers, hindex, hstart, hstop]

theorem find?_related {S : Line → Line → Prop} {p : Line → Bool} (hp : ∀ a b, S a b → p a = p b)
    (h : List.Forall₂ S as bs) :
    (as.find? p = none ∧ bs.find? p = none) ∨
      ∃ a b, as.find? p = some a ∧ bs.find? p = some b ∧ S a b := by
  induction h with
  | nil => exact .inl ⟨rfl, rfl⟩
  | @cons a b as bs hline _ ih =>
    rw [List.find?_cons, List.find?_cons, ← hp a b hline]
    cases p a with
    | true => exact .inr ⟨a, b, rfl, rfl, hline⟩
    | false => exact ih

section Bounded

variable (hbytes : text.bytes < 2 ^ 32) (hbytes' : text'.bytes < 2 ^ 32)

include hbytes hbytes'

theorem onSameLine_of_getElem? (ha : text.lines[n]? = some a) (hb : text'.lines[n]? = some b)
    (hi : a.start ≤ i ∧ i ≤ a.stop) (hj : b.start ≤ j ∧ j ≤ b.stop) :
    OnSameLine text text' i j := by
  have hstop := stop_le_bytes (List.mem_of_getElem? ha)
  have hstop' := stop_le_bytes (List.mem_of_getElem? hb)
  have hmax : maxOffset = 2 ^ 32 - 1 := rfl
  refine ⟨by omega, by omega, ?_⟩
  rw [LineMap.lineAt_ofText ha hi.1 hi.2, LineMap.lineAt_ofText hb hj.1 hj.2]

section Counterparts

variable (h : List.Forall₂ (Counterparts text text') text.lines text'.lines)

include h

theorem onSameLine_bytes : OnSameLine text text' text.bytes text'.bytes := by
  have hlength := h.length_eq
  have hne : 0 < text.lines.length := by
    rw [← length_splitAll_eq_length_lines]
    exact List.length_pos_iff.mpr (splitAll_ne_nil text)
  have hlast : text.lines[text.lines.length - 1]? = some text.lines[text.lines.length - 1] :=
    List.getElem?_eq_getElem (by omega)
  have hlast' : text'.lines[text.lines.length - 1]? = some text'.lines[text.lines.length - 1] :=
    List.getElem?_eq_getElem (by omega)
  have hstop := stop_of_last hlast (List.getElem?_eq_none (by omega))
  have hstop' := stop_of_last hlast' (List.getElem?_eq_none (by omega))
  refine onSameLine_of_getElem? hbytes hbytes' hlast hlast' ⟨?_, hstop.ge⟩ ⟨?_, hstop'.ge⟩
  · exact start_le_bytes (List.mem_of_getElem? hlast)
  · exact start_le_bytes (List.mem_of_getElem? hlast')

theorem rangesOf_related (hline : Counterparts text text' a b) :
    List.Forall₂ (ItemRange.Related (OnSameLine text text')) (rangesOf text a)
      (rangesOf text' b) := by
  obtain ⟨hnumber, halike⟩ := hline
  rw [rangesOf, rangesOf, ← hnumber, ← halike.labelColumn]
  refine rangesAfter_related (fun _ _ => onSameLine_min) ?_ (onSameLine_bytes hbytes hbytes' h)
  exact (List.forall₂_drop _ h).imp fun _ _ => And.right

theorem itemRanges_related (label : String) :
    List.Forall₂ (ItemRange.Related (OnSameLine text text')) (itemRanges label text)
      (itemRanges label text') := by
  rw [itemRanges_eq_rangesBehind, itemRanges_eq_rangesBehind]
  exact rangesBehind_related (fun _ _ => onSameLine_min) (h.imp fun _ _ => And.right)
    (onSameLine_bytes hbytes hbytes' h)

theorem itemRangesAt_related (label : String) (t : Nat) :
    List.Forall₂ (ItemRange.Related (OnSameLine text text')) (itemRangesAt label t text)
      (itemRangesAt label t text') := by
  have hreverse := List.forall₂_reverse_iff.mpr (List.forall₂_take (t + 1) h)
  unfold itemRangesAt
  rcases find?_related (fun _ _ hline => hline.2.declares label) hreverse with
    ⟨hnone, hnone'⟩ | ⟨a, b, ha, hb, hline⟩
  · rw [hnone, hnone']
    exact .nil
  · rw [ha, hb]
    exact rangesOf_related hbytes hbytes' h hline

theorem lineNumbers_blockOf (hline : Counterparts text text' a b) (ha : a ∈ text.lines)
    (hb : b ∈ text'.lines) (hdeclares : a.declares label) :
    (blockOf text a).lineNumbers text = (blockOf text' b).lineNumbers text' := by
  obtain ⟨hnumber, halike⟩ := hline
  have hdeclares' : b.declares label := (halike.declares label) ▸ hdeclares
  obtain ⟨hstart, hle⟩ := start_blockOf hbytes ha hdeclares
  obtain ⟨hstart', hle'⟩ := start_blockOf hbytes' hb hdeclares'
  obtain ⟨k, hk⟩ := List.getElem?_of_mem ha
  obtain ⟨k', hk'⟩ := List.getElem?_of_mem hb
  obtain rfl : k = k' := by rw [← number_of_getElem? hk, hnumber, number_of_getElem? hk']
  obtain ⟨-, -, hfirst⟩ := onSameLine_of_getElem? hbytes hbytes' hk hk'
    ⟨Nat.le_add_right .., hle⟩ ⟨Nat.le_add_right .., hle'⟩
  have hlast : OnSameLine text text'
      (stopAmong a.labelColumn text.bytes (text.lines.drop (a.number + 1)))
      (stopAmong a.labelColumn text'.bytes (text'.lines.drop (a.number + 1))) :=
    stopAmong_related ((List.forall₂_drop _ h).imp fun _ _ => And.right)
      (onSameLine_bytes hbytes hbytes' h)
  rw [Span.lineNumbers, Span.lineNumbers, hstart, hstart', hfirst, stop_blockOf hbytes,
    stop_blockOf hbytes', hlast.2.2, hnumber, halike.labelColumn]

theorem lineNumbers_blockSpan? (label : String) :
    (blockSpan? label text).map (Span.lineNumbers text) =
      (blockSpan? label text').map (Span.lineNumbers text') := by
  unfold blockSpan?
  rcases find?_related (fun _ _ hline => hline.2.declares label) h with
    ⟨hnone, hnone'⟩ | ⟨a, b, ha, hb, hline⟩
  · rw [hnone, hnone']
    rfl
  · have hdeclares : a.declares label := by simpa using List.find?_some ha
    rw [ha, hb]
    exact congrArg some (lineNumbers_blockOf hbytes hbytes' h hline (List.mem_of_find?_eq_some ha)
      (List.mem_of_find?_eq_some hb) hdeclares)

end Counterparts

end Bounded

/-- The lines of a text with other line endings look the same, line by line. -/
theorem forall₂_lines_crlf (hbytes : text.crlf.bytes < 2 ^ 32) :
    List.Forall₂ (Counterparts text text.crlf) text.lines text.crlf.lines := by
  have htexts := forall₂_splitAll_crlf text
  rw [← map_text_lines, ← map_text_lines, List.forall₂_map_left_iff,
    List.forall₂_map_right_iff] at htexts
  obtain ⟨hlength, hline⟩ := List.forall₂_iff_get.mp htexts
  refine List.forall₂_iff_get.mpr ⟨hlength, fun n hn hn' => ?_⟩
  have ha : text.lines[n]? = some (text.lines.get ⟨n, hn⟩) := List.getElem?_eq_getElem hn
  have hb : text.crlf.lines[n]? = some (text.crlf.lines.get ⟨n, hn'⟩) :=
    List.getElem?_eq_getElem hn'
  have hstart := onSameLine_of_getElem? ((bytes_le_bytes_crlf text).trans_lt hbytes) hbytes ha hb
    ⟨Nat.le_refl _, Nat.le_add_right ..⟩ ⟨Nat.le_refl _, Nat.le_add_right ..⟩
  refine ⟨(number_of_getElem? ha).trans (number_of_getElem? hb).symm, ?_⟩
  rcases hline n hn hn' with heq | hreturn
  · exact .of_text_eq hstart heq.symm
  · exact .of_append_return hstart hreturn

theorem chain_crlf (hbytes : text.crlf.bytes < 2 ^ 32) (t : Nat) :
    chain text.crlf t = chain text t := by
  have hlines := forall₂_lines_crlf hbytes
  have hlength := hlines.length_eq
  cases ha : text.lines[t]? with
  | none =>
    have hb : text.crlf.lines[t]? = none := by
      rw [List.getElem?_eq_none_iff] at ha ⊢
      omega
    simp [chain, ha, hb]
  | some a =>
    obtain ⟨ht, rfl⟩ := List.getElem?_eq_some_iff.mp ha
    have hb := List.getElem?_eq_getElem (hlength ▸ ht)
    obtain ⟨-, halike⟩ := (List.forall₂_iff_get.mp hlines).2 t ht (hlength ▸ ht)
    have htake := (List.forall₂_take t hlines).imp fun _ _ => And.right
    exact (chain_eq_of_alike ha hb halike (openFrames_contents_eq htake).1).symm

theorem itemIndex_crlf (hbytes : text.crlf.bytes < 2 ^ 32) (label : String) (t : Nat) :
    itemIndex label t text.crlf = itemIndex label t text := by
  have htake := (List.forall₂_take (t + 1) (forall₂_lines_crlf hbytes)).imp fun _ _ => And.right
  rw [itemIndex, itemIndex, foldl_step_eq htake]

/-- Whether lines end with or without carriage returns, the blocks around a line, the item that it
belongs to and, up to the columns of their ends, the spans of items and blocks are the same. -/
theorem resolvers_crlf (hbytes : text.crlf.bytes < 2 ^ 32) (label : String) (t : Nat) :
    chain text.crlf t = chain text t ∧
      itemIndex label t text.crlf = itemIndex label t text ∧
      (itemRanges label text.crlf).map
          (fun item => (item.index, item.span.lineNumbers text.crlf)) =
        (itemRanges label text).map (fun item => (item.index, item.span.lineNumbers text)) ∧
      (itemRangesAt label t text.crlf).map
          (fun item => (item.index, item.span.lineNumbers text.crlf)) =
        (itemRangesAt label t text).map (fun item => (item.index, item.span.lineNumbers text)) ∧
      (blockSpan? label text.crlf).map (Span.lineNumbers text.crlf) =
        (blockSpan? label text).map (Span.lineNumbers text) := by
  have hbytes' := (bytes_le_bytes_crlf text).trans_lt hbytes
  have hlines := forall₂_lines_crlf hbytes
  refine ⟨chain_crlf hbytes t, itemIndex_crlf hbytes label t, ?_, ?_, ?_⟩
  · exact (map_lineNumbers_eq_of_related (itemRanges_related hbytes' hbytes hlines label)).symm
  · exact (map_lineNumbers_eq_of_related (itemRangesAt_related hbytes' hbytes hlines label t)).symm
  · exact (lineNumbers_blockSpan? hbytes' hbytes hlines label).symm

/-- A bare marker, an empty line and a line without a label. -/
def bareMarker : Text := "a:\n  -\n    b: x\n\n  - c\nd".toList

theorem resolvers_crlf_bareMarker :
    bareMarker.crlf.bytes < 2 ^ 32 ∧
      chain bareMarker.crlf 2 = chain bareMarker 2 ∧
      itemIndex "a" 2 bareMarker.crlf = itemIndex "a" 2 bareMarker ∧
      (itemRanges "a" bareMarker.crlf).map
          (fun item => (item.index, item.span.lineNumbers bareMarker.crlf)) =
        (itemRanges "a" bareMarker).map
          (fun item => (item.index, item.span.lineNumbers bareMarker)) ∧
      (itemRangesAt "a" 2 bareMarker.crlf).map
          (fun item => (item.index, item.span.lineNumbers bareMarker.crlf)) =
        (itemRangesAt "a" 2 bareMarker).map
          (fun item => (item.index, item.span.lineNumbers bareMarker)) ∧
      (blockSpan? "a" bareMarker.crlf).map (Span.lineNumbers bareMarker.crlf) =
        (blockSpan? "a" bareMarker).map (Span.lineNumbers bareMarker) := by
  have hbytes : bareMarker.crlf.bytes < 2 ^ 32 := by cbv
  exact ⟨hbytes, resolvers_crlf hbytes "a" 2⟩

example : (itemRanges "a" bareMarker.crlf).map (·.span.lineNumbers bareMarker.crlf) =
    [(1, 4), (4, 5)] := by
  decide +kernel

end Outline

end ManifestAssist
