import ManifestAssist.Metrics.Family
import ManifestAssist.Text.Blank

/-! # Expositions

The text of a scrape, line by line. A comment may tell the description or the kind of a family;
every other line is a sample of a series, with labels in braces. The samples of a distribution
belong to its family. A counter that is declared without the suffix of its samples takes their name.
Other lines are skipped.
-/

namespace ManifestAssist

open Text

/-- What a line of an exposition says. -/
inductive Exposition where
  | help (family : String) (help : Option String)
  | kind (family : String) (kind : MetricKind)
  | sample (series : String) (labels : List String)
  deriving DecidableEq, Repr

namespace Exposition

/-- The kind of a name. Every other name is that of an untyped family. -/
def kindOf (name : Text) : MetricKind :=
  (MetricKind.ofName? (String.ofList name)).getD .untyped

/-- Reads a comment behind its sign: a keyword, the name of a family and a text, with a space
between. -/
def ofComment? (comment : Text) : Option Exposition := do
  let (keyword, rest) ← splitFirst ' ' (trimStart comment)
  let (name, rest) := (splitFirst ' ' rest).getD (rest, [])
  let text := trim rest
  if keyword = "HELP".toList then
    some (.help (String.ofList name) (if text.isEmpty then none else some (String.ofList text)))
  else if keyword = "TYPE".toList then
    some (.kind (String.ofList name) (kindOf text))
  else
    none

/-- The text behind the closing quote of a value, in which a backslash escapes the next character.
-/
def behindValue? : Text → Option Text
  | [] => none
  | ['\\'] => none
  | '\\' :: _ :: rest => behindValue? rest
  | '"' :: rest => some rest
  | _ :: rest => behindValue? rest

/-- Splits off the name of the first label: the rest is the text behind its value. -/
def label? (text : Text) : Option (String × Text) := do
  let (name, rest) ← splitFirst '=' text
  let value ← dropFront? (trimStart rest) ['"']
  let rest ← behindValue? value
  return (String.ofList (trim name), rest)

def skipSeparators (text : Text) : Text :=
  text.dropWhile fun c => c == ' ' || c == ','

theorem length_behindValue?_lt {text rest : Text} (h : behindValue? text = some rest) :
    rest.length < text.length := by
  fun_induction behindValue? text <;> simp_all <;> omega

theorem length_splitFirst_lt {sep : Char} {text a b : Text}
    (h : splitFirst sep text = some (a, b)) : b.length < text.length := by
  induction text generalizing a b with
  | nil => simp [splitFirst] at h
  | cons c cs ih =>
    simp only [splitFirst] at h
    split at h
    · simp_all
    · simp only [Option.map_eq_some_iff, Prod.mk.injEq, Prod.exists] at h
      obtain ⟨a', b', h', rfl, rfl⟩ := h
      have := ih h'
      simp only [List.length_cons]
      omega

theorem length_label?_lt {text rest : Text} {name : String} (h : label? text = some (name, rest)) :
    rest.length < text.length := by
  simp only [label?, Option.bind_eq_bind, Option.bind_eq_some_iff, Option.pure_def,
    Option.some.injEq, Prod.mk.injEq, Prod.exists] at h
  obtain ⟨a, b, hs, value, hv, rest', hr, -, rfl⟩ := h
  have h1 := length_splitFirst_lt hs
  have h2 := length_behindValue?_lt hr
  have h3 : (trimStart b).length ≤ b.length := (List.dropWhile_sublist _).length_le
  have h4 := congrArg List.length (dropFront?_eq_some.1 hv)
  simp only [List.length_append, List.length_cons, List.length_nil] at h4
  omega

theorem length_skipSeparators_le (text : Text) : (skipSeparators text).length ≤ text.length :=
  (List.dropWhile_sublist _).length_le

/-- The names of the labels behind an opening brace. The text may end without a closing one, but not
within a value. -/
def labels? (text : Text) : Option (List String) :=
  let text' := skipSeparators text
  if text'.isEmpty || text'.head? == some '\x7d' then some []
  else
    match _h : label? text' with
    | none => none
    | some (name, rest) => (labels? rest).map (name :: ·)
  termination_by text.length
  decreasing_by exact Nat.lt_of_lt_of_le (length_label?_lt ‹_›) (length_skipSeparators_le text)

/-- Reads a sample: the name of a series, perhaps with labels right behind it. -/
def ofSample? (line : Text) : Option Exposition := do
  let (name, rest) := line.span fun c => !(c == '\x7b' || isBlank c)
  guard (!name.isEmpty)
  let labels ← match rest with
    | '\x7b' :: rest => labels? rest
    | _ => some []
  return .sample (String.ofList name) labels

/-- Reads a line. -/
def ofLine? (line : Text) : Option Exposition :=
  match trim line with
  | [] => none
  | '#' :: comment => ofComment? comment
  | c :: cs => ofSample? (c :: cs)

end Exposition

namespace Family

/-- The labels that tell the parts of a distribution apart. -/
def partLabels : List String :=
  ["le", "quantile"]

/-- Adds labels that are not known yet. -/
def addLabels (family : Family) (labels : List String) : Family :=
  let add (known : List String) (label : String) :=
    if partLabels.contains label || known.contains label then known else known ++ [label]
  { family with labels := labels.foldl add family.labels }

end Family

namespace Scrape

/-- The distribution that a series is a part of. -/
def distribution? (scrape : Scrape) (series : String) : Option String :=
  (distributionSuffixes.filterMap (Family.dropSuffix? series)).find? fun name =>
    (scrape.find? name).any (·.kind.isDistribution)

/-- The counter that is declared without the suffix of the series. -/
def counter? (scrape : Scrape) (series : String) : Option (String × Family) := do
  let name ← Family.dropSuffix? series "_total"
  let family ← scrape.find? name
  if family.kind = .counter then some (name, family) else none

/-- The name of the family of a sample. A counter that has to be renamed is renamed. -/
def resolve (scrape : Scrape) (series : String) : String × Scrape :=
  if scrape.contains series then (series, scrape)
  else
    match scrape.distribution? series with
    | some name => (name, scrape)
    | none =>
      match scrape.counter? series with
      | some (name, family) => (series, (scrape.erase name).insert series family)
      | none => (series, scrape)

/-- Adds what a line says. -/
def add (scrape : Scrape) : Exposition → Scrape
  | .help name help => scrape.modify name {} (fun family => { family with help := help })
  | .kind name kind => scrape.modify name {} (fun family => { family with kind := kind })
  | .sample series labels =>
    let (name, scrape) := scrape.resolve series
    scrape.modify name {} (·.addLabels labels)

/-- The families of an exposition. -/
def ofExposition (text : Text) : Scrape :=
  ((splitAll '\n' text).filterMap Exposition.ofLine?).foldl add ∅

end Scrape

end ManifestAssist
