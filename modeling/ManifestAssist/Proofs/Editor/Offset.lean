import ManifestAssist.Proofs.Editor.View

/-! # Offsets in bytes and in units

Each front of a text ends at an offset in bytes and at one in units, and the two are turned into
each other. An offset in units that ends no front stands for the next one that does. So of the two
ways, one is the inverse of the other at boundaries, and both keep the order.
-/

namespace ManifestAssist

open Text

variable {text front a b : Text} {offset units : Nat}

namespace Position

variable {line : Line} {position : Position}

theorem ofUnits_eq (hbytes : text.bytes < 2 ^ 32)
    (hline : text.lines[position.line]? = some line) :
    position.ofUnits text = ⟨position.line, line.text.byteOffset position.column⟩ ∧
      (LineMap.ofText text).offset (position.ofUnits text) =
        line.start + line.text.byteOffset position.column := by
  constructor
  · rw [← line_ofUnits position text, byteOffset, ← column_ofUnits hbytes hline]
  · rw [offset_ofUnits hbytes hline, bytes_append, bytes_ahead hline, byteOffset]

end Position

namespace Text

theorem unitOffset_of_isPrefix (hbytes : text.bytes < 2 ^ 32) (h : front <+: text) :
    text.unitOffset front.bytes = front.units := by
  obtain ⟨rest, rfl⟩ := h
  exact unitOffset_bytes_append hbytes

theorem bytes_le_bytes_iff (ha : a <+: text) (hb : b <+: text) :
    a.bytes ≤ b.bytes ↔ a.units ≤ b.units := by
  constructor
  · intro h
    exact width_le_of_isPrefix _ (isPrefix_of_width_le Char.utf8Size_pos ha hb h)
  · intro h
    exact width_le_of_isPrefix _ (isPrefix_of_width_le unitSize_pos ha hb h)

/-- An offset in units does not pass a front in bytes if and only if it does not in units. -/
theorem byteOffset_le_bytes_iff (h : front <+: text) :
    text.byteOffset units ≤ front.bytes ↔ min units text.units ≤ front.units := by
  rw [byteOffset, bytes_le_bytes_iff (takeCovering_isPrefix ..) h]
  constructor
  · exact (min_le_width_takeCovering ..).trans
  · exact width_takeCovering_le unitSize_pos h

theorem isBoundary_byteOffset (text : Text) (units : Nat) :
    text.isBoundary (text.byteOffset units) :=
  isBoundary_iff_isPrefix.mpr ⟨_, takeCovering_isPrefix .., rfl⟩

theorem monotone_byteOffset (text : Text) : Monotone text.byteOffset := by
  intro u v hle
  change text.byteOffset u ≤ (takeCovering unitSize v text).bytes
  rw [byteOffset_le_bytes_iff (takeCovering_isPrefix ..)]
  calc min u text.units ≤ min v text.units := min_le_min_right _ hle
    _ ≤ (takeCovering unitSize v text).units := min_le_width_takeCovering ..

theorem byteOffset_units (h : front <+: text) : text.byteOffset front.units = front.bytes := by
  apply Nat.le_antisymm
  · exact (byteOffset_le_bytes_iff h).mpr (min_le_left _ _)
  · have hcovering := min_le_width_takeCovering unitSize front.units text
    rw [min_eq_left (width_le_of_isPrefix _ h)] at hcovering
    exact (bytes_le_bytes_iff h (takeCovering_isPrefix ..)).mpr hcovering

theorem byteOffset_unitOffset (hbytes : text.bytes < 2 ^ 32) (h : text.isBoundary offset) :
    text.byteOffset (text.unitOffset offset) = offset := by
  obtain ⟨front, hfront, rfl⟩ := isBoundary_iff_isPrefix.mp h
  rw [unitOffset_of_isPrefix hbytes hfront, byteOffset_units hfront]

theorem isNextBoundary_unitOffset_byteOffset (hbytes : text.bytes < 2 ^ 32) (units : Nat) :
    text.IsNextBoundary (min units text.units) (text.unitOffset (text.byteOffset units)) := by
  rw [byteOffset, unitOffset_of_isPrefix hbytes (takeCovering_isPrefix ..)]
  exact isNextBoundary_takeCovering units text

theorem monotoneOn_unitOffset (hbytes : text.bytes < 2 ^ 32) :
    MonotoneOn text.unitOffset {offset | text.isBoundary offset} := by
  rintro m hm n hn hle
  obtain ⟨a, ha, rfl⟩ := isBoundary_iff_isPrefix.mp hm
  obtain ⟨b, hb, rfl⟩ := isBoundary_iff_isPrefix.mp hn
  rw [unitOffset_of_isPrefix hbytes ha, unitOffset_of_isPrefix hbytes hb]
  exact (bytes_le_bytes_iff ha hb).mp hle

/-- Offsets in units and offsets in bytes stand for each other at boundaries, in the order of both.
An offset in units within a character stands for the next boundary, and one past the end for the
end. A position in units is at such an offset of its line. -/
theorem offsets_correspond (hbytes : text.bytes < 2 ^ 32) :
    (∀ offset, text.isBoundary offset → text.byteOffset (text.unitOffset offset) = offset) ∧
    (∀ units, text.isBoundary (text.byteOffset units) ∧
      text.IsNextBoundary (min units text.utf16.length)
        (text.unitOffset (text.byteOffset units))) ∧
    MonotoneOn text.unitOffset {offset | text.isBoundary offset} ∧
    Monotone text.byteOffset ∧
    let map := LineMap.ofText text
    ∀ position : Position, position.line < map.starts.length →
      ∃ start line, map.start? position.line = some start ∧
        map.line? position.line = some line ∧
        let found := position.ofUnits text
        found = ⟨position.line, line.byteOffset position.column⟩ ∧
        line.isBoundary found.column ∧ map.offset found = start + found.column := by
  refine ⟨fun offset h => byteOffset_unitOffset hbytes h, fun units => ?_,
    monotoneOn_unitOffset hbytes, monotone_byteOffset text, ?_⟩
  · rw [length_utf16]
    exact ⟨isBoundary_byteOffset text units, isNextBoundary_unitOffset_byteOffset hbytes units⟩
  · intro map position hlt
    rw [LineMap.starts_ofText, List.length_map] at hlt
    have hline := List.getElem?_eq_getElem hlt
    obtain ⟨hfound, hoffset⟩ := Position.ofUnits_eq hbytes hline
    refine ⟨text.lines[position.line].start, text.lines[position.line].text, ?_, ?_, hfound, ?_, ?_⟩
    · rw [LineMap.start?_ofText, hline, Option.map_some]
    · rw [LineMap.line?_ofText, hline, Option.map_some]
    · rw [hfound]
      exact isBoundary_byteOffset _ _
    · rw [hoffset, hfound]

/-- Two lines with characters of all widths. -/
def mixedWidths : Text := "é😀\n€😀b".toList

theorem offsets_correspond_withinSurrogates :
    let map := LineMap.ofText mixedWidths
    (mixedWidths.bytes < 2 ^ 32 ∧ mixedWidths.isBoundary 6 ∧ mixedWidths.isBoundary 10 ∧
        1 < map.starts.length) ∧
      mixedWidths.byteOffset (mixedWidths.unitOffset 10) = 10 ∧
      mixedWidths.IsNextBoundary 6 (mixedWidths.unitOffset (mixedWidths.byteOffset 6)) ∧
      mixedWidths.unitOffset 6 ≤ mixedWidths.unitOffset 10 ∧
      mixedWidths.byteOffset 2 ≤ mixedWidths.byteOffset 6 ∧
      ∃ start line, map.start? 1 = some start ∧ map.line? 1 = some line ∧
        let found := Position.ofUnits mixedWidths ⟨1, 2⟩
        found = ⟨1, line.byteOffset 2⟩ ∧ line.isBoundary found.column ∧
          map.offset found = start + found.column := by
  intro map
  have hbytes : mixedWidths.bytes < 2 ^ 32 := by cbv
  have hsix : mixedWidths.isBoundary 6 := by decide +kernel
  have hten : mixedWidths.isBoundary 10 := by decide +kernel
  have hlines : 1 < map.starts.length := by decide +kernel
  obtain ⟨hback, hnext, hunits, hmono, hposition⟩ := offsets_correspond hbytes
  exact ⟨⟨hbytes, hsix, hten, hlines⟩, hback 10 hten, (hnext 6).2,
    hunits hsix hten (by decide), hmono (by decide), hposition ⟨1, 2⟩ hlines⟩

end Text

end ManifestAssist
