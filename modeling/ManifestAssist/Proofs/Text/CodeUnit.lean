import Mathlib
import ManifestAssist.Editor.Unit
import ManifestAssist.Proofs.Text.Cut

/-! # Texts in code units

A text in UTF-16 is the list of the code units of its characters, and an offset in units counts
them. At a boundary between characters, offsets in bytes and in units stand for each other, so a
span between boundaries holds the same part of a text in either form.
-/

namespace ManifestAssist

open Text

/-- The code units of a character: itself if it fits into one, or a pair of surrogates. -/
def codeUnits (c : Char) : List UInt16 :=
  if c.val < 0x10000 then
    [c.val.toUInt16]
  else
    let offset := c.val - 0x10000
    [0xD800 + (offset / 0x400).toUInt16, 0xDC00 + (offset % 0x400).toUInt16]

theorem length_codeUnits (c : Char) : (codeUnits c).length = unitSize c := by
  unfold codeUnits unitSize
  split <;> rfl

theorem unitSize_le_utf8Size (c : Char) : unitSize c ≤ c.utf8Size := by
  unfold unitSize Char.utf8Size
  grind

namespace Text

variable {text part a b : Text} {start stop offset n : Nat}

/-- A text in UTF-16. -/
def utf16 (text : Text) : List UInt16 :=
  text.flatMap codeUnits

@[simp] theorem utf16_append (a b : Text) : (a ++ b).utf16 = a.utf16 ++ b.utf16 :=
  List.flatMap_append

@[simp] theorem length_utf16 (text : Text) : text.utf16.length = text.units := by
  induction text with
  | nil => rfl
  | cons c cs ih =>
    simp only [utf16, units] at ih
    simp [utf16, length_codeUnits, ih]

example : utf16 "aé😀".toList = [0x61, 0xE9, 0xD83D, 0xDE00] := by decide +kernel

theorem units_le_bytes (text : Text) : text.units ≤ text.bytes := by
  induction text with
  | nil => exact Nat.le_refl _
  | cons c cs ih => exact Nat.add_le_add (unitSize_le_utf8Size c) ih

theorem units_append (a b : Text) : (a ++ b).units = a.units + b.units :=
  width_append a b

theorem units_le_units_append (a b : Text) : a.units ≤ (a ++ b).units := by
  rw [units_append]
  exact Nat.le_add_right ..

theorem take_utf16_append (a b : Text) : (a ++ b).utf16.take a.units = a.utf16 := by
  rw [utf16_append]
  exact List.take_left' (length_utf16 a)

theorem drop_utf16_append (a b : Text) : (a ++ b).utf16.drop a.units = b.utf16 := by
  rw [utf16_append]
  exact List.drop_left' (length_utf16 a)

theorem extract_utf16_append (before part after : Text) :
    (before ++ part ++ after).utf16.extract before.units (before ++ part).units = part.utf16 := by
  have hunits : (before ++ part).units - before.units = part.units := by
    rw [units_append, Nat.add_sub_cancel_left]
  rw [List.extract_eq_take_drop, hunits, List.append_assoc, drop_utf16_append, take_utf16_append]

theorem isBoundary_iff : text.isBoundary offset ↔ ∃ a b, text = a ++ b ∧ a.bytes = offset := by
  rw [isBoundary, Option.isSome_iff_exists]
  constructor
  · rintro ⟨⟨a, b⟩, h⟩
    obtain ⟨rfl, hbytes⟩ := cut?_eq_some h
    exact ⟨a, b, rfl, hbytes⟩
  · rintro ⟨a, b, rfl, rfl⟩
    exact ⟨(a, b), cut?_bytes_append a b⟩

theorem isBoundary_iff_isPrefix :
    text.isBoundary offset ↔ ∃ front, front <+: text ∧ bytes front = offset := by
  rw [isBoundary_iff]
  constructor
  · rintro ⟨a, b, rfl, hbytes⟩
    exact ⟨a, List.prefix_append a b, hbytes⟩
  · rintro ⟨front, ⟨rest, rfl⟩, hbytes⟩
    exact ⟨front, rest, rfl, hbytes⟩

theorem le_bytes_of_isBoundary (h : text.isBoundary offset) : offset ≤ text.bytes := by
  obtain ⟨a, b, rfl, rfl⟩ := isBoundary_iff.mp h
  exact bytes_le_bytes_append a b

theorem unitOffset_bytes_append (h : (a ++ b).bytes < 2 ^ 32) :
    unitOffset (a ++ b) a.bytes = a.units := by
  have hmax : maxOffset = 2 ^ 32 - 1 := rfl
  have hunits := units_le_bytes a
  have hbytes := bytes_le_bytes_append a b
  rw [unitOffset, cut?_bytes_append]
  change min a.units maxOffset = a.units
  omega

theorem unitSize_pos (c : Char) : 0 < unitSize c := by
  unfold unitSize
  split <;> decide

theorem takeCovering_isPrefix (weight : Char → Nat) (n : Nat) (text : Text) :
    takeCovering weight n text <+: text := by
  fun_induction takeCovering weight n text with
  | case1 => exact List.nil_prefix
  | case2 => exact List.prefix_refl _
  | case3 n c cs ih => exact List.cons_prefix_cons.mpr ⟨rfl, ih⟩

theorem min_le_width_takeCovering (weight : Char → Nat) (n : Nat) (text : Text) :
    min n (width weight text) ≤ width weight (takeCovering weight n text) := by
  fun_induction takeCovering weight n text with
  | case1 => simp
  | case2 => simp
  | case3 n c cs ih =>
    simp only [width_cons]
    omega

theorem width_takeCovering_le {weight : Char → Nat} (hweight : ∀ c, 0 < weight c) {front : Text}
    (hfront : front <+: text) (h : min n (width weight text) ≤ width weight front) :
    width weight (takeCovering weight n text) ≤ width weight front := by
  fun_induction takeCovering weight n text generalizing front with
  | case1 => simp
  | case2 => simp
  | case3 n c cs ih =>
    have hc := hweight c
    cases front with
    | nil =>
      simp only [width_cons, width_nil] at h
      omega
    | cons d front =>
      obtain ⟨rfl, hrest⟩ := List.cons_prefix_cons.mp hfront
      simp only [width_cons] at h ⊢
      exact Nat.add_le_add_left (ih hrest (by omega)) _

/-- Is `n` the first boundary between characters at or behind an offset in units? -/
def IsNextBoundary (text : Text) (offset n : Nat) : Prop :=
  IsLeast {n | offset ≤ n ∧ ∃ front, front <+: text ∧ units front = n} n

theorem isNextBoundary_takeCovering (n : Nat) (text : Text) :
    text.IsNextBoundary (min n text.units) (takeCovering unitSize n text).units := by
  refine ⟨⟨min_le_width_takeCovering unitSize n text, _, takeCovering_isPrefix .., rfl⟩, ?_⟩
  rintro m ⟨hle, front, hfront, rfl⟩
  exact width_takeCovering_le unitSize_pos hfront hle

end Text

namespace Span

variable {text before part after : Text} {span : Span} {start stop : Nat}

/-- Does a span run from one boundary of a text to another? -/
structure IsSlice (span : Span) (text : Text) : Prop where
  le : span.start ≤ span.stop
  start : text.isBoundary span.start
  stop : text.isBoundary span.stop

theorem isSlice_between (hbytes : text.bytes < 2 ^ 32) (hle : start ≤ stop)
    (hstart : text.isBoundary start) (hstop : text.isBoundary stop) :
    (between start stop).IsSlice text := by
  have hmax : maxOffset = 2 ^ 32 - 1 := rfl
  have hend := le_bytes_of_isBoundary hstop
  rw [between_eq (by omega) (by omega)]
  exact ⟨hle, hstart, hstop⟩

theorem IsSlice.exists_append (h : span.IsSlice text) :
    ∃ before part after, text = before ++ part ++ after ∧
      span = ⟨before.bytes, (before ++ part).bytes⟩ := by
  obtain ⟨start, stop⟩ := span
  obtain ⟨before, rest, hbefore, rfl⟩ := isBoundary_iff.mp h.start
  obtain ⟨front, after, hfront, rfl⟩ := isBoundary_iff.mp h.stop
  obtain ⟨part, rfl⟩ : before <+: front :=
    isPrefix_of_width_le Char.utf8Size_pos ⟨rest, hbefore.symm⟩ ⟨after, hfront.symm⟩ h.le
  exact ⟨before, part, after, hfront, rfl⟩

theorem inUnits_append (h : (before ++ part ++ after).bytes < 2 ^ 32) :
    inUnits (before ++ part ++ after) ⟨before.bytes, (before ++ part).bytes⟩ =
      ⟨before.units, (before ++ part).units⟩ := by
  have hstop := unitOffset_bytes_append h
  rw [List.append_assoc] at h
  have hstart := unitOffset_bytes_append h
  rw [← List.append_assoc] at hstart
  rw [inUnits, hstart, hstop]

end Span

end ManifestAssist
