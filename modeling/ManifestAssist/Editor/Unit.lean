import ManifestAssist.Text.LineMap
import ManifestAssist.Text.Span

/-! # Offsets in code units

An editor counts the code units of UTF-16. Its offsets are moved to the next boundary between
characters if they are none.
-/

namespace ManifestAssist

namespace Text

/-- The byte offset of the first boundary at or behind an offset in units, or else the end. -/
def byteOffset (text : Text) (units : Nat) : Nat :=
  (text.takeCovering unitSize units).bytes

/-- The offset in units of a byte offset. What is no boundary stands for the end. -/
def unitOffset (text : Text) (bytes : Nat) : Nat :=
  min (((text.cut? Char.utf8Size bytes).map (·.1)).getD text).units maxOffset

end Text

/-- The span in units of a span in bytes. -/
def Span.inUnits (text : Text) (span : Span) : Span :=
  ⟨text.unitOffset span.start, text.unitOffset span.stop⟩

/-- The position in bytes of a position in units. -/
def Position.ofUnits (text : Text) (position : Position) : Position :=
  match (LineMap.ofText text).line? position.line with
  | some line => ⟨position.line, min (line.byteOffset position.column) maxOffset⟩
  | none => ⟨position.line, 0⟩

end ManifestAssist
