import ManifestAssist.Text.Part

/-! # Matches of a query in a label

Letters match regardless of their case, and underscores do not count. A label that does not contain
the query in one piece may still hold its characters one after another. Then they are placed as far
to the front as they can be, and the gaps between them tell how good the match is.
-/

namespace ManifestAssist

open Text

/-- A text without underscores, with the letters of ASCII in lower case. -/
def normalize (text : Text) : Text :=
  (text.filter (· != '_')).map Char.toLower

/-- Where the characters of a query stand in a label that starts at `position`, each as far to the
front as it can be. -/
def positions? : (query : Text) → (position : Nat) → (label : Text) → Option (List Nat)
  | [], _, _ => some []
  | _ :: _, _, [] => none
  | q :: query, position, c :: label =>
    if q = c then (positions? query (position + 1) label).map (position :: ·)
    else positions? (q :: query) (position + 1) label

/-- The number of places that ascending positions leave out. -/
def gapSum : List Nat → Nat
  | p :: q :: rest => (q - p - 1) + gapSum (q :: rest)
  | _ => 0

/-- The length of the longest run of adjacent positions. A run of length `run` ends with the first
one. -/
def longestRun : (run : Nat) → List Nat → Nat
  | run, p :: q :: rest =>
    if q = p + 1 then longestRun (run + 1) (q :: rest) else max run (longestRun 1 (q :: rest))
  | run, _ => run

/-- How well the characters of a query are kept together in a label. -/
structure Score where
  gapSum : Nat
  longestRun : Nat
  first : Nat
  length : Nat
  deriving DecidableEq, Repr

/-- The score of a query that is not empty, if the label has its characters in order. -/
def Score.of? (query label : Text) : Option Score :=
  match positions? query 0 label with
  | some (first :: rest) =>
    some ⟨ManifestAssist.gapSum (first :: rest), ManifestAssist.longestRun 1 (first :: rest), first,
      label.length⟩
  | _ => none

/-- How a normalized label matches a normalized query. -/
inductive Match where
  | exact
  /-- The query is the front of the label, whose length is given. -/
  | front (length : Nat)
  /-- The query is first found at an offset of the label, whose length is given. -/
  | within (offset length : Nat)
  /-- The label has the characters of the query in order. -/
  | scattered (score : Score)
  deriving DecidableEq, Repr

namespace Match

def of? (query label : Text) : Option Match :=
  if label = query then some exact
  else
    match splitAtFirst query label with
    | some ([], _) => some (front label.length)
    | some (before, _) => some (within before.bytes label.length)
    | none => (Score.of? query label).map scattered

/-- Does the label hold the query in one piece? -/
def isContained : Match → Bool
  | scattered _ => false
  | _ => true

end Match

end ManifestAssist
