import ManifestAssist.Text.Blank
import ManifestAssist.Text.Part

/-! # Scopes of entity selectors

A selector is a list of calls, some of which take selectors themselves. What is being typed belongs
to the innermost call that is still open.
-/

namespace ManifestAssist.Selector

open Text

/-- The texts behind the parentheses that are still open, innermost first. -/
def openScopes : (scopes : List Text) → Text → List Text
  | scopes, [] => scopes
  | scopes, '(' :: rest => openScopes (rest :: scopes) rest
  | scopes, ')' :: rest => openScopes scopes.tail rest
  | scopes, _ :: rest => openScopes scopes rest

/-- The innermost selector that is still open. -/
def openScope (fragment : Text) : Text :=
  (openScopes [] fragment).headD fragment

/-- The placeholder for the conditions of a card. -/
def entityConditions : String :=
  "$(entityConditions)"

/-- A text at some depth of parentheses without the arguments of its calls, apart from the first
`kept` characters. The placeholder for conditions is kept whole. -/
def dropArguments : (kept depth : Nat) → Text → Text
  | _, _, [] => []
  | kept + 1, depth, c :: rest => c :: dropArguments kept depth rest
  | 0, 0, c :: rest =>
    if (dropFront? (c :: rest) entityConditions.toList).isSome then
      c :: dropArguments (entityConditions.length - 1) 0 rest
    else
      c :: dropArguments 0 (if c = '(' then 1 else 0) rest
  | 0, depth + 1, c :: rest =>
    if c = '(' then dropArguments 0 (depth + 2) rest
    else if c = ')' then
      if depth = 0 then c :: dropArguments 0 0 rest else dropArguments 0 depth rest
    else
      dropArguments 0 (depth + 1) rest

/-- The calls of the innermost open selector, without their arguments. -/
def outline (fragment : Text) : Text :=
  dropArguments 0 0 (openScope fragment)

/-- Does a character belong to the name of a call? -/
def isNameChar (c : Char) : Bool :=
  c.isAlphanum || c == '.'

/-- The first argument of a call, without quotes around it. -/
def firstArgument? (rest : Text) : Option String :=
  let name := trimWhile (· == '"') (trim (rest.takeWhile fun c => c != ')' && c != ','))
  if name.isEmpty then none else some (String.ofList name)

/-- The argument of the first call of `type` at depth 0 of a text, which stands at some depth of
parentheses behind `previous`. -/
def typeArgument? (previous : Option Char) (depth : Nat) : Text → Option String
  | [] => none
  | c :: rest =>
    if c = '(' then typeArgument? (some c) (depth + 1) rest
    else if c = ')' then typeArgument? (some c) (depth - 1) rest
    else if depth = 0 ∧ ¬ previous.any isNameChar then
      match dropFront? (c :: rest) "type(".toList with
      | some argument => firstArgument? argument
      | none => typeArgument? (some c) depth rest
    else
      typeArgument? (some c) depth rest

/-- The type that the innermost open selector selects. -/
def selectedType? (fragment : Text) : Option String :=
  typeArgument? none 0 (openScope fragment)

end ManifestAssist.Selector
