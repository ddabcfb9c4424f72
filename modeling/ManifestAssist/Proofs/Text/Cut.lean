import Mathlib
import ManifestAssist.Text.Blank
import ManifestAssist.Text.LineMap
import ManifestAssist.Text.Part
import ManifestAssist.Text.Span

/-! # Cuts and edits

A text that is put together from parts is cut exactly between them. So an edit that replaces one of
the parts applies, and what it leaves are the others.
-/

namespace ManifestAssist

open Text

namespace Text

variable {text part a b needle : Text} {start stop offset : Nat}

theorem cut?_width_append {weight : Char → Nat} (hweight : ∀ c, 0 < weight c) (a b : Text) :
    cut? weight (width weight a) (a ++ b) = some (a, b) := by
  induction a with
  | nil => simp [cut?]
  | cons c a ih =>
    have hc := hweight c
    obtain ⟨n, hn⟩ : ∃ n, weight c + width weight a = n + 1 :=
      ⟨weight c + width weight a - 1, by omega⟩
    have hrest : n + 1 - weight c = width weight a := by omega
    rw [width_cons, hn, List.cons_append, cut?, if_pos (by omega), hrest, ih]
    rfl

theorem bytes_append (a b : Text) : (a ++ b).bytes = a.bytes + b.bytes :=
  width_append a b

theorem bytes_le_bytes_append (a b : Text) : a.bytes ≤ (a ++ b).bytes := by
  rw [bytes_append]
  exact Nat.le_add_right ..

theorem cut?_bytes_append (a b : Text) : cut? Char.utf8Size a.bytes (a ++ b) = some (a, b) :=
  cut?_width_append Char.utf8Size_pos a b

theorem cut?_append_of_le {weight : Char → Nat} {n : Nat} (h : n ≤ width weight a) (b : Text) :
    cut? weight n (a ++ b) = (cut? weight n a).map fun (front, back) => (front, back ++ b) := by
  induction a generalizing n with
  | nil =>
    obtain rfl := Nat.le_zero.mp h
    simp [cut?]
  | cons c a ih =>
    cases n with
    | zero => simp [cut?]
    | succ n =>
      rw [width_cons] at h
      rw [List.cons_append, cut?, cut?, ih (by omega)]
      split
      · simp [Option.map_map, Function.comp_def]
      · rfl

theorem isBoundary_bytes_append (a b : Text) : isBoundary (a ++ b) a.bytes := by
  rw [isBoundary, cut?_bytes_append]
  rfl

theorem width_le_of_isPrefix (weight : Char → Nat) (h : a <+: b) :
    width weight a ≤ width weight b := by
  obtain ⟨rest, rfl⟩ := h
  rw [width_append]
  exact Nat.le_add_right ..

theorem isPrefix_of_width_le {weight : Char → Nat} (hweight : ∀ c, 0 < weight c)
    (ha : a <+: text) (hb : b <+: text) (h : width weight a ≤ width weight b) : a <+: b := by
  rcases List.prefix_or_prefix_of_prefix ha hb with hab | ⟨rest, rfl⟩
  · exact hab
  · cases rest with
    | nil => simp
    | cons c rest =>
      have hc := hweight c
      rw [width_append, width_cons] at h
      omega

theorem eq_of_width_eq {weight : Char → Nat} (hweight : ∀ c, 0 < weight c) (ha : a <+: text)
    (hb : b <+: text) (h : width weight a = width weight b) : a = b := by
  have hab := isPrefix_of_width_le hweight ha hb h.le
  have hba := isPrefix_of_width_le hweight hb ha h.ge
  exact hab.eq_of_length_le hba.length_le

theorem slice?_eq_some (h : text.slice? start stop = some part) :
    ∃ before after, text = before ++ part ++ after ∧ before.bytes = start := by
  unfold slice? at h
  split at h
  · simp only [Option.bind_eq_bind, Option.bind_eq_some_iff, Option.pure_def,
      Option.some.injEq] at h
    obtain ⟨⟨front, after⟩, hstop, ⟨before, part'⟩, hstart, rfl⟩ := h
    obtain ⟨rfl, -⟩ := cut?_eq_some hstop
    obtain ⟨rfl, hbytes⟩ := cut?_eq_some hstart
    exact ⟨before, after, rfl, hbytes⟩
  · cases h

theorem isBoundary_of_slice?_eq_some (h : text.slice? start stop = some part) :
    text.isBoundary start := by
  obtain ⟨before, after, rfl, rfl⟩ := slice?_eq_some h
  rw [List.append_assoc]
  exact isBoundary_bytes_append before _

theorem slice?_bytes_append (before part after : Text) :
    (before ++ part ++ after).slice? before.bytes (before ++ part).bytes = some part := by
  rw [slice?, if_pos (bytes_le_bytes_append before part), cut?_bytes_append]
  simp [cut?_bytes_append]

theorem slice?_append_of_le (h : stop ≤ a.bytes) (start : Nat) (b : Text) :
    (a ++ b).slice? start stop = a.slice? start stop := by
  simp only [slice?, cut?_append_of_le h, Option.bind_eq_bind, Option.bind_map]
  rfl

theorem takeWithin_isPrefix (weight : Char → Nat) (n : Nat) (text : Text) :
    takeWithin weight n text <+: text := by
  induction text generalizing n with
  | nil => exact List.prefix_refl _
  | cons c text ih =>
    unfold takeWithin
    split
    · exact List.cons_prefix_cons.mpr ⟨rfl, ih _⟩
    · exact List.nil_prefix

theorem takeWithin_width_append {weight : Char → Nat} (hweight : ∀ c, 0 < weight c) (a b : Text) :
    takeWithin weight (width weight a) (a ++ b) = a := by
  induction a with
  | nil =>
    cases b with
    | nil => rfl
    | cons c b => simp [takeWithin, Nat.ne_of_gt (hweight c)]
  | cons c a ih =>
    rw [List.cons_append, takeWithin, width_cons, if_pos (Nat.le_add_right ..),
      Nat.add_sub_cancel_left, ih]

theorem takeEndWhile_isSuffix (p : Char → Bool) (text : Text) : takeEndWhile p text <:+ text :=
  ⟨dropEndWhile p text, dropEndWhile_append_takeEndWhile p text⟩

theorem splitAtFirst_eq_some (h : splitAtFirst needle text = some (a, b)) :
    text = a ++ needle ++ b := by
  induction text generalizing a with
  | nil =>
    unfold splitAtFirst at h
    split at h
    · simp_all
    · cases h
  | cons c text ih =>
    unfold splitAtFirst at h
    split at h
    · obtain ⟨rfl, rfl⟩ := Prod.mk.inj (Option.some.inj h)
      exact dropFront?_eq_some.mp ‹_›
    · obtain ⟨⟨front, back⟩, hsplit, heq⟩ := Option.map_eq_some_iff.mp h
      obtain ⟨rfl, rfl⟩ := Prod.mk.inj heq
      rw [ih hsplit]
      rfl

/-- No occurrence is ahead of the one at which a text is split. -/
theorem isPrefix_of_splitAtFirst {a' b' : Text} (h : splitAtFirst needle text = some (a, b))
    (htext : text = a' ++ needle ++ b') : a <+: a' := by
  -- The search passes a character only if the needle does not start there.
  induction text generalizing a a' with
  | nil =>
    have hnil := splitAtFirst_eq_some h
    simp only [List.nil_eq, List.append_eq_nil_iff] at hnil
    exact hnil.1.1 ▸ List.nil_prefix
  | cons c text ih =>
    unfold splitAtFirst at h
    split at h
    · obtain ⟨rfl, rfl⟩ := Prod.mk.inj (Option.some.inj h)
      exact List.nil_prefix
    · next hfront =>
      obtain ⟨⟨front, back⟩, hsplit, heq⟩ := Option.map_eq_some_iff.mp h
      obtain ⟨rfl, rfl⟩ := Prod.mk.inj heq
      cases a' with
      | nil => exact absurd (dropFront?_eq_some.mpr htext) (by simp [hfront])
      | cons c' a' =>
        obtain ⟨rfl, hrest⟩ := List.cons.inj htext
        exact List.cons_prefix_cons.mpr ⟨rfl, ih hsplit hrest⟩

theorem exists_splitAtFirst_eq_some (h : needle <:+: text) :
    ∃ a b, splitAtFirst needle text = some (a, b) := by
  induction text with
  | nil => exact ⟨[], [], by simp [splitAtFirst, List.infix_nil.mp h]⟩
  | cons c text ih =>
    unfold splitAtFirst
    split
    · exact ⟨_, _, rfl⟩
    · next hfront =>
      have htext : needle <:+: text := by
        refine (List.infix_cons_iff.mp h).resolve_left ?_
        rintro ⟨back, hback⟩
        exact absurd (dropFront?_eq_some.mpr hback.symm) (by simp [hfront])
      obtain ⟨a, b, hsplit⟩ := ih htext
      exact ⟨c :: a, b, by rw [hsplit]; rfl⟩

theorem splitAtFirst_eq_none (h : ¬ needle <:+: text) : splitAtFirst needle text = none := by
  rw [Option.eq_none_iff_forall_ne_some]
  rintro ⟨a, b⟩ hsplit
  exact h ⟨a, b, (splitAtFirst_eq_some hsplit).symm⟩

theorem hasPart_iff : text.hasPart needle ↔ needle <:+: text := by
  rw [hasPart]
  constructor
  · intro h
    obtain ⟨⟨a, b⟩, hsplit⟩ := Option.isSome_iff_exists.mp h
    exact ⟨a, b, (splitAtFirst_eq_some hsplit).symm⟩
  · intro h
    obtain ⟨a, b, hsplit⟩ := exists_splitAtFirst_eq_some h
    rw [hsplit]
    rfl

theorem isPrefix_of_isPrefix_append_cons {c : Char} (hc : c ∉ needle)
    (h : needle <+: a ++ c :: b) : needle <+: a := by
  have hfront : a ++ [c] <+: a ++ c :: b := ⟨b, by simp⟩
  rcases List.prefix_or_prefix_of_prefix h hfront with hneedle | hneedle
  · rcases List.prefix_concat_iff.mp hneedle with rfl | hneedle
    · simp at hc
    · exact hneedle
  · exact absurd (hneedle.subset (by simp)) hc

theorem isInfix_append_cons_iff {c : Char} (hc : c ∉ needle) :
    needle <:+: a ++ c :: b ↔ needle <:+: a ∨ needle <:+: b := by
  constructor
  · intro h
    induction a with
    | nil =>
      rcases List.infix_cons_iff.mp h with hfront | hback
      · exact .inl (isPrefix_of_isPrefix_append_cons (a := []) hc hfront).isInfix
      · exact .inr hback
    | cons d a ih =>
      rcases List.infix_cons_iff.mp h with hfront | hback
      · exact .inl (isPrefix_of_isPrefix_append_cons (a := d :: a) hc hfront).isInfix
      · exact (ih hback).imp_left fun ha => List.infix_cons_iff.mpr (.inr ha)
  · rintro (h | h)
    · exact h.trans (List.infix_append' [] a _)
    · exact h.trans ⟨a ++ [c], [], by simp⟩

theorem splitAtFirst_append_of_notMem {c : Char} (hc : c ∉ a) (needle b : Text) :
    splitAtFirst (c :: needle) (a ++ (c :: needle) ++ b) = some (a, b) := by
  induction a with
  | nil =>
    have hfront : dropFront? (c :: (needle ++ b)) (c :: needle) = some b :=
      dropFront?_eq_some.mpr rfl
    rw [List.nil_append, List.cons_append, splitAtFirst, hfront]
  | cons d a ih =>
    simp only [List.mem_cons, not_or] at hc
    have hfront : dropFront? (d :: (a ++ (c :: needle) ++ b)) (c :: needle) = none :=
      if_neg (Ne.symm hc.1)
    rw [List.cons_append, List.cons_append, splitAtFirst, hfront, ih hc.2]
    rfl

theorem splitAtLast_append_of_notMem {c : Char} (hc : c ∉ b) (needle a : Text) :
    splitAtLast (needle ++ [c]) (a ++ (needle ++ [c]) ++ b) = some (a, b) := by
  have hsplit := splitAtFirst_append_of_notMem (show c ∉ b.reverse by simpa using hc)
    needle.reverse a.reverse
  have hreverse : (a ++ (needle ++ [c]) ++ b).reverse =
      b.reverse ++ (c :: needle.reverse) ++ a.reverse := by
    simp
  rw [splitAtLast, hreverse, List.reverse_concat, hsplit]
  simp

theorem splitAtLast_eq_some (h : splitAtLast needle text = some (a, b)) :
    text = a ++ needle ++ b := by
  obtain ⟨⟨back, front⟩, hsplit, heq⟩ := Option.map_eq_some_iff.mp h
  obtain ⟨rfl, rfl⟩ := Prod.mk.inj heq
  have hreverse := congrArg List.reverse (splitAtFirst_eq_some hsplit)
  simpa using hreverse

end Text

namespace LineMap

theorem le_of_mem_startsAfter {offset start : Nat} {text : Text}
    (h : start ∈ startsAfter offset text) : start ≤ offset + text.bytes := by
  induction text generalizing offset with
  | nil => cases h
  | cons c text ih =>
    have hpos := c.utf8Size_pos
    simp only [bytes, width_cons]
    unfold startsAfter at h
    split at h
    · rcases List.mem_cons.mp h with rfl | h
      · omega
      · have := ih h
        simp only [bytes] at this
        omega
    · have := ih h
      simp only [bytes] at this
      omega

variable {text line : Text} {position : Position} {start : Nat}

theorem start_le_bytes {line : Nat} (h : (ofText text).start? line = some start) :
    start ≤ text.bytes := by
  rcases List.mem_cons.mp (List.mem_of_getElem? h) with rfl | h
  · exact Nat.zero_le _
  · simpa using le_of_mem_startsAfter h

theorem line?_eq_some {i : Nat} (hline : (ofText text).line? i = some line)
    (hstart : (ofText text).start? i = some start) :
    ∃ before after, text = before ++ line ++ after ∧ before.bytes = start := by
  simp only [line?, hstart, Option.bind_eq_bind, Option.bind_some] at hline
  exact slice?_eq_some hline

theorem offset_eq (hline : (ofText text).line? position.line = some line)
    (hstart : (ofText text).start? position.line = some start) :
    (ofText text).offset position =
      start + (takeWithin Char.utf8Size position.column line).bytes := by
  simp [offset, hline, hstart]

theorem offset_of_start?_eq_none (h : (ofText text).start? position.line = none) :
    (ofText text).offset position = text.bytes := by
  simp only [offset, h]
  rfl

theorem offset_of_line?_eq_none (h : (ofText text).line? position.line = none) :
    (ofText text).offset position = text.bytes := by
  simp only [offset, h]
  split
  · cases ‹none = some _›
  · rfl

theorem exists_append_offset (text : Text) (position : Position) :
    ∃ before after, text = before ++ after ∧ (ofText text).offset position = before.bytes ∧
      ∀ start, (ofText text).start? position.line = some start → start ≤ before.bytes := by
  cases hstart : (ofText text).start? position.line with
  | none => exact ⟨text, [], by simp, offset_of_start?_eq_none hstart, nofun⟩
  | some start =>
    cases hline : (ofText text).line? position.line with
    | none =>
      refine ⟨text, [], by simp, offset_of_line?_eq_none hline, ?_⟩
      rintro _ ⟨⟩
      exact start_le_bytes hstart
    | some line =>
      obtain ⟨before, after, htext, hbytes⟩ := line?_eq_some hline hstart
      obtain ⟨rest, hrest⟩ := takeWithin_isPrefix Char.utf8Size position.column line
      refine ⟨before ++ takeWithin Char.utf8Size position.column line, rest ++ after, ?_, ?_, ?_⟩
      · conv_lhs => rw [htext, ← hrest]
        simp
      · rw [offset_eq hline hstart, bytes_append, hbytes]
      · rintro _ ⟨⟩
        rw [← hbytes]
        exact bytes_le_bytes_append before _

end LineMap

theorem Span.between_eq {start stop : Nat} (hstart : start ≤ maxOffset) (hstop : stop ≤ maxOffset) :
    between start stop = ⟨start, stop⟩ := by
  rw [between, Nat.min_eq_left hstart, Nat.min_eq_left hstop]

theorem Edit.applied?_append (before part after newText : Text) :
    (Edit.mk ⟨before.bytes, (before ++ part).bytes⟩ newText).applied? (before ++ part ++ after) =
      some (before ++ newText ++ after) := by
  have hle := bytes_le_bytes_append before part
  have hstop := cut?_bytes_append (before ++ part) after
  have hstart := cut?_bytes_append before (part ++ after)
  rw [← List.append_assoc] at hstart
  simp only [applied?, hle, guard_true, hstart, hstop, Option.bind_eq_bind, Option.pure_def,
    Option.bind_some]

end ManifestAssist
