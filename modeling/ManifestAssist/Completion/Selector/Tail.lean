import ManifestAssist.Completion.Selector.Scope

/-! # Tails of entity selectors

What is being typed at the end of a selector, told by the innermost open call or the last comma.
-/

namespace ManifestAssist.Selector

open Text

inductive Place where
  | entityType
  /-- The name of a relationship, from the selected entities or to them. -/
  | relationship (isOutgoing : Bool)
  | healthState
  | operator
  deriving DecidableEq, Repr

/-- A place with the word that has been typed there. -/
structure Tail where
  place : Place
  word : Text
  deriving DecidableEq, Repr

def isWordChar (c : Char) : Bool :=
  c.isAlphanum || c == '_' || c == '.' || c == ':' || c == '-' || c == '$'

def outgoing : String := "fromRelationships."

def incoming : String := "toRelationships."

/-- The name of a relationship that is being typed behind a mark. -/
def relationshipWord? (mark : String) (fragment : Text) : Option Text := do
  let (_, word) ← splitAtLast mark.toList fragment
  if word.all Char.isAlphanum then some word else none

/-- What the argument of a call is, by the name of the call. -/
def argument? (name : Text) : Option Place :=
  if name = "type".toList then some .entityType
  else if name = "healthState".toList then some .healthState
  else if name = "not".toList then some .operator
  else if [outgoing, incoming].any fun mark => (dropFront? name mark.toList).isSome then
    some .operator
  else none

/-- What may stand behind a text. -/
def placeBehind? (before : Text) : Option Place :=
  if before.isEmpty then some .operator
  else if (dropBack? before [',']).isSome then some .operator
  else do
    let callee ← dropBack? before ['(']
    argument? (callee.takeEndWhile isNameChar)

def Tail.ofFragment? (fragment : Text) : Option Tail :=
  match relationshipWord? outgoing fragment, relationshipWord? incoming fragment with
  | some word, _ => some ⟨.relationship true, word⟩
  | none, some word => some ⟨.relationship false, word⟩
  | none, none =>
    (placeBehind? (trimEnd (fragment.dropEndWhile isWordChar))).map
      (⟨·, fragment.takeEndWhile isWordChar⟩)

end ManifestAssist.Selector
