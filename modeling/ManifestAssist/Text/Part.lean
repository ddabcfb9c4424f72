import ManifestAssist.Text.Width

/-! # Parts of a text

Splitting at a character and taking off a known front or end.
-/

namespace ManifestAssist.Text

/-- The parts before and after the first occurrence of a character. -/
def splitFirst (sep : Char) : Text → Option (Text × Text)
  | [] => none
  | c :: cs =>
    if c = sep then some ([], cs)
    else (splitFirst sep cs).map fun (a, b) => (c :: a, b)

/-- All parts between the occurrences of a character. -/
def splitAll (sep : Char) : Text → List Text
  | [] => [[]]
  | c :: cs =>
    if c = sep then
      [] :: splitAll sep cs
    else
      match splitAll sep cs with
      | part :: parts => (c :: part) :: parts
      | [] => [[c]]

/-- The rest of a text behind `front`. -/
def dropFront? : (text front : Text) → Option Text
  | text, [] => some text
  | [], _ :: _ => none
  | c :: text, f :: front => if c = f then dropFront? text front else none

/-- The rest of a text ahead of `back`. -/
def dropBack? (text back : Text) : Option Text :=
  (dropFront? text.reverse back.reverse).map List.reverse

/-- The sides of the earliest occurrence of `needle`. -/
def splitAtFirst (needle : Text) : Text → Option (Text × Text)
  | [] => if needle.isEmpty then some ([], []) else none
  | c :: cs =>
    match dropFront? (c :: cs) needle with
    | some rest => some ([], rest)
    | none => (splitAtFirst needle cs).map fun (a, b) => (c :: a, b)

/-- The sides of the latest occurrence of `needle`. -/
def splitAtLast (needle text : Text) : Option (Text × Text) :=
  (splitAtFirst needle.reverse text.reverse).map fun (b, a) => (a.reverse, b.reverse)

/-- Does the needle occur in the text? -/
def hasPart (text needle : Text) : Bool :=
  (splitAtFirst needle text).isSome

theorem dropFront?_eq_some {text front rest : Text} :
    dropFront? text front = some rest ↔ text = front ++ rest := by
  induction front generalizing text with
  | nil => simp [dropFront?]
  | cons f front ih =>
    cases text with
    | nil => simp [dropFront?]
    | cons c text =>
      by_cases h : c = f
      · simp [dropFront?, h, ih]
      · simp [dropFront?, h]

theorem dropBack?_eq_some {text back rest : Text} :
    dropBack? text back = some rest ↔ text = rest ++ back := by
  simp only [dropBack?, Option.map_eq_some_iff, dropFront?_eq_some]
  constructor
  · rintro ⟨a, h, rfl⟩
    simpa using congrArg List.reverse h
  · rintro rfl
    exact ⟨rest.reverse, by simp, by simp⟩

end ManifestAssist.Text
