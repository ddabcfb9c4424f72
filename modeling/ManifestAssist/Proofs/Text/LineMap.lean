import Mathlib
import ManifestAssist.Proofs.Text.Cut
import ManifestAssist.Proofs.Text.Lines

/-! # Lines within a text

A line stands in its text behind the lines ahead of it, each with its newline. The map of a text
tells the same lines, by the offsets at which they start.
-/

namespace ManifestAssist

open Text

variable {text : Text} {line : Line} {i : Nat}

namespace Text

/-- Parts of a text, each with a newline behind it. -/
def joined (parts : List Text) : Text :=
  parts.flatMap (· ++ ['\n'])

/-- The lines ahead of the one with a number. -/
def ahead (text : Text) (i : Nat) : Text :=
  joined ((text.splitAll '\n').take i)

@[simp] theorem joined_nil : joined [] = [] := rfl

@[simp] theorem joined_cons (part : Text) (parts : List Text) :
    joined (part :: parts) = part ++ '\n' :: joined parts := by
  simp [joined]

@[simp] theorem joined_append (a b : List Text) : joined (a ++ b) = joined a ++ joined b :=
  List.flatMap_append

theorem joined_splitAll (text : Text) : joined (text.splitAll '\n') = text ++ ['\n'] := by
  induction text with
  | nil => rfl
  | cons c cs ih =>
    unfold splitAll
    split
    · subst c
      simp [ih]
    · cases hs : splitAll '\n' cs with
      | nil => exact absurd hs (splitAll_ne_nil cs)
      | cons part parts =>
        rw [hs] at ih
        simpa using ih

theorem splitAll_getElem? (h : text.lines[i]? = some line) :
    (text.splitAll '\n')[i]? = some line.text := by
  rw [← map_text_lines, List.getElem?_map, h, Option.map_some]

theorem ahead_succ (h : text.lines[i]? = some line) :
    text.ahead (i + 1) = text.ahead i ++ line.text ++ ['\n'] := by
  simp [ahead, List.take_add_one, splitAll_getElem? h]

theorem ahead_append_isPrefix (h : text.lines[i]? = some line) :
    text.ahead i ++ line.text <+: text := by
  have hlines : text.ahead (i + 1) <+: text ++ ['\n'] := by
    obtain ⟨rest, hrest⟩ := List.take_prefix (i + 1) (text.splitAll '\n')
    exact ⟨joined rest, by rw [ahead, ← joined_append, hrest, joined_splitAll]⟩
  rw [ahead_succ h] at hlines
  have hlength := hlines.length_le
  refine List.prefix_of_prefix_length_le ((List.prefix_append _ _).trans hlines)
    (List.prefix_append text ['\n']) ?_
  simp only [List.length_append, List.length_singleton] at hlength ⊢
  omega

theorem ahead_append_of_last (h : text.lines[i]? = some line)
    (hlast : text.lines[i + 1]? = none) : text.ahead i ++ line.text = text := by
  have hlength : (text.splitAll '\n').length ≤ i + 1 := by
    simpa [← map_text_lines] using hlast
  have hall : text.ahead (i + 1) = text ++ ['\n'] := by
    rw [ahead, List.take_of_length_le hlength, joined_splitAll]
  rw [ahead_succ h] at hall
  exact List.append_cancel_right hall

end Text

namespace Line

theorem start_of_locate {number start : Nat} {texts : List Text}
    (h : (locate number start texts)[i]? = some line) :
    line.start = start + (joined (texts.take i)).bytes := by
  induction texts generalizing number start i with
  | nil => simp [locate] at h
  | cons text texts ih =>
    cases i with
    | zero =>
      obtain rfl : ⟨number, start, text⟩ = line := by simpa [locate] using h
      simp
    | succ i =>
      have hsize : Char.utf8Size '\n' = 1 := by decide
      rw [ih (by simpa [locate] using h)]
      simp only [bytes, List.take_succ_cons, joined_cons, width_append, width_cons, hsize]
      omega

end Line

namespace Text

theorem bytes_ahead (h : text.lines[i]? = some line) : (text.ahead i).bytes = line.start := by
  rw [Line.start_of_locate h, Nat.zero_add]
  rfl

/-- A line stands in the text behind the lines ahead of it. -/
theorem exists_append_of_getElem? (h : text.lines[i]? = some line) :
    ∃ after, text = text.ahead i ++ line.text ++ after := by
  obtain ⟨after, happend⟩ := ahead_append_isPrefix h
  exact ⟨after, happend.symm⟩

theorem bytes_ahead_append (h : text.lines[i]? = some line) :
    (text.ahead i ++ line.text).bytes = line.stop := by
  rw [bytes_append, bytes_ahead h]
  rfl

theorem start_of_next {next : Line} (h : text.lines[i]? = some line)
    (hnext : text.lines[i + 1]? = some next) : next.start = line.stop + 1 := by
  have hsize : Char.utf8Size '\n' = 1 := by decide
  rw [← bytes_ahead hnext, ahead_succ h, bytes_append, bytes_ahead_append h]
  simp [hsize]

theorem stop_of_last (h : text.lines[i]? = some line) (hlast : text.lines[i + 1]? = none) :
    line.stop = text.bytes := by
  rw [← bytes_ahead_append h, ahead_append_of_last h hlast]

theorem slice?_of_text_eq_append {front part back : Text} (h : text.lines[i]? = some line)
    (hline : line.text = front ++ part ++ back) :
    text.slice? (line.start + front.bytes) (line.start + (front ++ part).bytes) = some part := by
  obtain ⟨after, happend⟩ := exists_append_of_getElem? h
  have htext : text.ahead i ++ front ++ part ++ (back ++ after) = text := by
    calc text.ahead i ++ front ++ part ++ (back ++ after)
        = text.ahead i ++ (front ++ part ++ back) ++ after := by simp only [List.append_assoc]
      _ = text := by rw [← hline, ← happend]
  have hslice := slice?_bytes_append (text.ahead i ++ front) part (back ++ after)
  rwa [htext, List.append_assoc (text.ahead i), bytes_append, bytes_append, bytes_ahead h] at hslice

theorem slice?_of_getElem? (h : text.lines[i]? = some line) :
    text.slice? line.start line.stop = some line.text :=
  slice?_of_text_eq_append h (show line.text = [] ++ line.text ++ [] by simp)

end Text

namespace LineMap

theorem starts_eq_map_locate (number start : Nat) (text : Text) :
    start :: startsAfter start text =
      (Line.locate number start (text.splitAll '\n')).map Line.start := by
  induction text generalizing number start with
  | nil => rfl
  | cons c cs ih =>
    unfold startsAfter splitAll
    split
    · simp [Line.locate, ih (number + 1)]
    · cases hs : splitAll '\n' cs with
      | nil => exact absurd hs (splitAll_ne_nil cs)
      | cons part parts =>
        have := ih number (start + c.utf8Size)
        simp only [hs, Line.locate, List.map_cons, List.cons.injEq, true_and] at this
        simp [Line.locate, this, Nat.add_assoc]

@[simp] theorem text_ofText (text : Text) : (ofText text).text = text := rfl

theorem starts_ofText (text : Text) : (ofText text).starts = text.lines.map Line.start :=
  starts_eq_map_locate 0 0 text

@[simp] theorem start?_ofText (text : Text) (i : Nat) :
    (ofText text).start? i = text.lines[i]?.map Line.start := by
  rw [start?, starts_ofText, List.getElem?_map]

@[simp] theorem line?_ofText (text : Text) (i : Nat) :
    (ofText text).line? i = text.lines[i]?.map Line.text := by
  cases h : text.lines[i]? with
  | none => simp [line?, h]
  | some line =>
    have hslice := slice?_of_getElem? h
    simp only [line?, start?_ofText, h, Option.map_some, Option.bind_eq_bind, Option.bind_some]
    cases hnext : text.lines[i + 1]? with
    | none => simpa [stop_of_last h hnext] using hslice
    | some next => simpa [start_of_next h hnext] using hslice

theorem offset_eq_bytes_ahead_append {position : Position}
    (h : text.lines[position.line]? = some line) :
    (ofText text).offset position =
      (text.ahead position.line ++ takeWithin Char.utf8Size position.column line.text).bytes := by
  rw [offset_eq (by rw [line?_ofText, h]; rfl) (by rw [start?_ofText, h]; rfl), bytes_append,
    bytes_ahead h]

/-- An offset is on the last line that does not start behind it. -/
theorem isGreatest_lineAt (text : Text) (offset : Nat) :
    IsGreatest {i | ∃ start, (ofText text).start? i = some start ∧ start ≤ offset}
      ((ofText text).lineAt offset) := by
  have hsorted : (ofText text).starts.Pairwise (· < ·) := by
    rw [starts_ofText]
    exact List.pairwise_map.mpr (pairwise_start_lines text)
  -- The first line starts at zero, so at least one line is counted.
  have hfirst : (ofText text).starts[0]? = some 0 := rfl
  have hpos := (getElem?_le_iff hsorted offset hfirst).mp (Nat.zero_le _)
  have hlt : (ofText text).lineAt offset < (ofText text).starts.length := by
    have hcount := List.countP_le_length (p := (· ≤ offset)) (l := (ofText text).starts)
    unfold lineAt
    omega
  have hget := List.getElem?_eq_getElem hlt
  constructor
  · refine ⟨_, hget, (getElem?_le_iff hsorted offset hget).mpr ?_⟩
    unfold lineAt
    omega
  · rintro i ⟨start, hstart, hle⟩
    have hcount := (getElem?_le_iff hsorted offset hstart).mp hle
    unfold lineAt
    omega

theorem lineAt_ofText (h : text.lines[i]? = some line) {offset : Nat} (hstart : line.start ≤ offset)
    (hstop : offset ≤ line.stop) : (ofText text).lineAt offset = i := by
  obtain ⟨⟨start, hget, hle⟩, hgreatest⟩ := isGreatest_lineAt text offset
  apply Nat.le_antisymm
  · by_contra hlt
    rw [start?_ofText] at hget
    obtain ⟨next, hnext, rfl⟩ := Option.map_eq_some_iff.mp hget
    have hbehind := stop_lt_start h hnext (Nat.lt_of_not_le hlt)
    omega
  · exact hgreatest ⟨line.start, by rw [start?_ofText, h, Option.map_some], hstart⟩

theorem eq_of_getElem? {a b : Line} {j offset : Nat} (ha : text.lines[i]? = some a)
    (hb : text.lines[j]? = some b) (hi : a.start ≤ offset ∧ offset ≤ a.stop)
    (hj : b.start ≤ offset ∧ offset ≤ b.stop) : i = j := by
  rw [← lineAt_ofText ha hi.1 hi.2, lineAt_ofText hb hj.1 hj.2]

end LineMap

end ManifestAssist
