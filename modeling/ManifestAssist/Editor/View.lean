import ManifestAssist.Completion.Answer
import ManifestAssist.Editor.Unit
import ManifestAssist.Navigation.Lens
import ManifestAssist.Navigation.Selection

/-! # Views

Answers as an editor sees them, with all positions, offsets and spans in code units.
-/

namespace ManifestAssist

/-- An offer with its edit in units, and with where the cursor is once it has been accepted. -/
structure OfferView where
  suggestion : Suggestion
  edit : Edit
  cursor : Option Nat
  deriving DecidableEq, Repr

structure CompletionView where
  offers : List OfferView
  replace : Span
  preferred : List Nat
  deriving DecidableEq, Repr

/-- The offset in units of the end of an edit, in the edited text. -/
def Edit.cursor? (text : Text) (edit : Edit) : Option Nat :=
  (edit.applied? text).map fun edited => edited.unitOffset (edit.span.start + edit.newText.bytes)

def Edit.inUnits (text : Text) (edit : Edit) : Edit :=
  ⟨edit.span.inUnits text, edit.newText⟩

def Offer.view (text : Text) (offer : Offer) : OfferView :=
  ⟨offer.suggestion, offer.edit.inUnits text, offer.edit.cursor? text⟩

def Completion.view (text : Text) (completion : Completion) : CompletionView :=
  ⟨completion.offers.map (Offer.view text), completion.replace.inUnits text, completion.preferred⟩

namespace View

/-- What completes a text at a position in units. -/
def complete (text : Text) (position : Position) (manifest : Manifest) (context : Context) :
    CompletionView :=
  (ManifestAssist.complete text (position.ofUnits text) manifest context).view text

def lenses (text : Text) (manifest : Manifest) : List Lens :=
  (Lens.ofMetrics text manifest).map fun lens => { lens with span := lens.span.inUnits text }

def selections (text : Text) (line : Nat) : List Span :=
  (Selection.spansAt text line).map (Span.inUnits text)

def itemRanges (label : String) (text : Text) : List ItemRange :=
  (Outline.itemRanges label text).map fun item => { item with span := item.span.inUnits text }

def blockSpan? (label : String) (text : Text) : Option Span :=
  (Outline.blockSpan? label text).map (Span.inUnits text)

/-- The encoding of an index as a signed integer of 32 bits. -/
def indexCode (index : ItemIndex) : Int :=
  min index.code 0x7FFFFFFF

end View

end ManifestAssist
