import ManifestAssist.Proofs.Outline.Items

/-! # Canonical manifests

A tree of entries and its lines in canonical form: children of a block are two columns right of its
key, the markers of a list too, and the entries of an item are two columns right of its marker. A
line is known with the keys and items around it.
-/

namespace ManifestAssist.Canonical

open Text Outline

/-- A key that is written as it is. -/
structure Key where
  text : Text
  starts : ∃ c ∈ text.head?, c ≠ '#' ∧ c ≠ '-'
  plain : ∀ c ∈ text, ¬ isBlank c ∧ c ≠ ':' ∧ c ≠ '"' ∧ c ≠ '\''

/-- A value on the line of its key. -/
structure Value where
  text : Text
  oneLine : '\n' ∉ text

/-- A list item on one line. -/
structure Scalar where
  text : Text
  starts : ∃ c ∈ text.head?, ¬ isBlank c ∧ c ≠ '-'
  oneLine : '\n' ∉ text

mutual

inductive Entry where
  | leaf (key : Key) (value : Value)
  | block (key : Key) (first : Entry) (rest : List Entry)
  | list (key : Key) (first : Item) (rest : List Item)

inductive Item where
  | scalar (scalar : Scalar)
  | entries (first : Entry) (rest : List Entry)

end

/-- What a line holds behind its spaces and its marker. -/
inductive Body where
  | leaf (key : Key) (value : Value)
  | opening (key : Key)
  | scalar (scalar : Scalar)

/-- The spaces and the marker in front of a line. -/
structure Start where
  indent : Nat
  marked : Bool
  deriving DecidableEq

/-- An entry around a line, with the number of the item if it is a list. -/
structure Step where
  key : Key
  item : Option Nat

def Key.name (key : Key) : String :=
  String.ofList key.text

def Step.name (step : Step) : String :=
  step.key.name

namespace Body

def text : Body → Text
  | leaf key value => key.text ++ ':' :: ' ' :: value.text
  | opening key => key.text ++ [':']
  | scalar s => s.text

def key? : Body → Option Key
  | leaf key _ => some key
  | opening key => some key
  | scalar _ => none

end Body

namespace Start

/-- The column of what stands behind the spaces and the marker. -/
def column (start : Start) : Nat :=
  if start.marked then start.indent + 2 else start.indent

def text (start : Start) : Text :=
  List.replicate start.indent ' ' ++ if start.marked then ['-', ' '] else []

end Start

/-- A line of a canonical manifest with the entries around it, outermost first. -/
structure Row where
  start : Start
  body : Body
  path : List Step := []
  marked_of_scalar : body.key? = none → start.marked := by simp [Body.key?]

namespace Row

def text (row : Row) : Text :=
  row.start.text ++ row.body.text

/-- Puts another entry around a line. -/
def under (step : Step) (row : Row) : Row :=
  { row with path := step :: row.path }

end Row

mutual

def Entry.rows (start : Start) : Entry → List Row
  | .leaf key value => [{ start, body := .leaf key value }]
  | .block key first rest =>
    { start, body := .opening key } ::
      (first.rows ⟨start.column + 2, false⟩ ++ entryRows (start.column + 2) rest).map
        (Row.under ⟨key, none⟩)
  | .list key first rest =>
    { start, body := .opening key } ::
      ((first.rows (start.column + 2)).map (Row.under ⟨key, some 0⟩) ++
        itemRows key (start.column + 2) 1 rest)

/-- The lines of entries at a column. -/
def entryRows (column : Nat) : List Entry → List Row
  | [] => []
  | entry :: entries => entry.rows ⟨column, false⟩ ++ entryRows column entries

/-- The lines of an item whose marker is at a column. -/
def Item.rows (column : Nat) : Item → List Row
  | .scalar s => [{ start := ⟨column, true⟩, body := .scalar s }]
  | .entries first rest => first.rows ⟨column, true⟩ ++ entryRows (column + 2) rest

/-- The lines of the items of a list from the one with a number on. -/
def itemRows (key : Key) (column index : Nat) : List Item → List Row
  | [] => []
  | item :: items =>
    (item.rows column).map (Row.under ⟨key, some index⟩) ++ itemRows key column (index + 1) items

end

/-- The lines of a manifest with these entries at the left margin. -/
def rows (entries : List Entry) : List Row :=
  entryRows 0 entries

def render (entries : List Entry) : Text :=
  ['\n'].intercalate ((rows entries).map Row.text)

namespace Key

variable (key : Key)

theorem exists_text_eq_cons :
    ∃ c cs, key.text = c :: cs ∧ ¬ isBlank c ∧ c ≠ '#' ∧ c ≠ '-' ∧ c ≠ '"' ∧ c ≠ '\'' := by
  obtain ⟨c, hc, hstarts⟩ := key.starts
  obtain ⟨cs, hcs⟩ := List.head?_eq_some_iff.mp hc
  obtain ⟨hblank, -, hquotes⟩ := key.plain c (by simp [hcs])
  exact ⟨c, cs, hcs, hblank, hstarts.1, hstarts.2, hquotes⟩

theorem not_mem_of_isBlank {c : Char} (h : isBlank c) : c ∉ key.text :=
  fun hc => (key.plain c hc).1 h

theorem colon_not_mem : ':' ∉ key.text :=
  fun hc => (key.plain ':' hc).2.1 rfl

theorem trimEnd_text : trimEnd key.text = key.text := by
  apply dropEndWhile_eq_self
  intro c hc
  exact (key.plain c (List.mem_of_getLast? hc)).1

theorem unquote_text : unquote key.text = key.text := by
  obtain ⟨c, cs, hcs, -, -, -, hdouble, hsingle⟩ := key.exists_text_eq_cons
  rw [hcs, unquote_cons hdouble hsingle]

theorem text_ne_nil : key.text ≠ [] := by
  obtain ⟨c, cs, hcs, -⟩ := key.exists_text_eq_cons
  simp [hcs]

theorem trim_text : trim key.text = key.text :=
  trimWhile_eq_self_of_forall fun c hc => (key.plain c hc).1

end Key

namespace Body

variable {body : Body}

theorem exists_text_eq_cons (body : Body) :
    ∃ c cs, body.text = c :: cs ∧ ¬ isBlank c ∧ c ≠ '-' ∧ (body.key? ≠ none → c ≠ '#') := by
  cases body with
  | leaf key value =>
    obtain ⟨c, cs, hcs, hblank, hhash, hdash, -⟩ := key.exists_text_eq_cons
    exact ⟨c, _, by rw [text, hcs, List.cons_append], hblank, hdash, fun _ => hhash⟩
  | opening key =>
    obtain ⟨c, cs, hcs, hblank, hhash, hdash, -⟩ := key.exists_text_eq_cons
    exact ⟨c, _, by rw [text, hcs, List.cons_append], hblank, hdash, fun _ => hhash⟩
  | scalar s =>
    obtain ⟨c, hc, hblank, hdash⟩ := s.starts
    obtain ⟨cs, hcs⟩ := List.head?_eq_some_iff.mp hc
    exact ⟨c, cs, hcs, hblank, hdash, fun h => absurd rfl h⟩

theorem splitFirst_text {key : Key} (h : body.key? = some key) :
    ∃ rest, splitFirst ':' body.text = some (key.text, rest) := by
  cases body <;> simp only [key?, Option.some.injEq, reduceCtorEq] at h <;> subst h <;>
    exact ⟨_, splitFirst_append_cons (Key.colon_not_mem _) _⟩

theorem newline_not_mem_text (body : Body) : '\n' ∉ body.text := by
  cases body with
  | leaf key value =>
    simp [text, key.not_mem_of_isBlank (show isBlank '\n' by decide), value.oneLine]
  | opening key => simp [text, key.not_mem_of_isBlank (show isBlank '\n' by decide)]
  | scalar s => exact s.oneLine

end Body

namespace Row

variable {row : Row} {key : Key}

/-- A line behind its spaces. -/
def front (row : Row) : Text :=
  (if row.start.marked then ['-', ' '] else []) ++ row.body.text

theorem text_eq (row : Row) : row.text = List.replicate row.start.indent ' ' ++ row.front :=
  List.append_assoc ..

theorem front_eq_of_marked (h : row.start.marked = true) :
    row.front = '-' :: ' ' :: row.body.text := by
  simp [front, h]

theorem front_eq_of_not_marked (h : row.start.marked = false) : row.front = row.body.text := by
  simp [front, h]

theorem exists_front_eq_cons (row : Row) :
    ∃ c cs, row.front = c :: cs ∧ ¬ isBlank c ∧ c ≠ '#' := by
  cases h : row.start.marked with
  | true => exact ⟨'-', _, front_eq_of_marked h, by decide, by decide⟩
  | false =>
    obtain ⟨c, cs, hcs, hblank, -, hhash⟩ := row.body.exists_text_eq_cons
    refine ⟨c, cs, (front_eq_of_not_marked h).trans hcs, hblank, hhash fun hkey => ?_⟩
    simp [row.marked_of_scalar hkey] at h

theorem dropSpaces_text (row : Row) : dropSpaces row.text = row.front := by
  obtain ⟨c, cs, hcs, hblank, -⟩ := row.exists_front_eq_cons
  rw [text_eq, hcs, dropSpaces_replicate_append hblank]

theorem indent?_text (row : Row) : indent? row.text = some row.start.indent := by
  obtain ⟨c, cs, hcs, hblank, hhash⟩ := row.exists_front_eq_cons
  rw [indent?, dropSpaces_text, text_eq, hcs, trimEnd_cons hblank,
    leadingSpaces_replicate_append hblank]
  simp [hhash]

theorem not_startsWithMarker_body (row : Row) : ¬ startsWithMarker row.body.text := by
  obtain ⟨c, cs, hcs, -, hdash, -⟩ := row.body.exists_text_eq_cons
  rw [hcs]
  exact not_startsWithMarker_cons hdash

theorem dropSpaces_body (row : Row) : dropSpaces (' ' :: row.body.text) = row.body.text := by
  obtain ⟨c, cs, hcs, hblank, -⟩ := row.body.exists_text_eq_cons
  rw [hcs]
  exact @dropSpaces_replicate_append c cs 1 hblank

theorem marker?_text (row : Row) :
    marker? row.text = if row.start.marked then some row.start.indent else none := by
  cases h : row.start.marked with
  | true =>
    refine marker?_eq_some_iff.mpr ⟨row.indent?_text, ?_⟩
    rw [dropSpaces_text, front_eq_of_marked h]
    rfl
  | false =>
    refine marker?_eq_none_iff.mpr (.inr ?_)
    rw [dropSpaces_text, front_eq_of_not_marked h]
    simpa using row.not_startsWithMarker_body

theorem contentColumn?_text (row : Row) : contentColumn? row.text = some row.start.column := by
  refine contentColumn?_eq_some_iff.mpr ⟨_, row.indent?_text, ?_⟩
  rw [dropSpaces_text]
  cases h : row.start.marked with
  | true =>
    obtain ⟨c, cs, hcs, hblank, -⟩ := row.body.exists_text_eq_cons
    have hgap : leadingSpaces (' ' :: row.body.text) = 1 := by
      rw [hcs]
      exact @leadingSpaces_replicate_append c cs 1 hblank
    have hall : row.body.text.all isBlank = false := by simp [hcs, hblank]
    rw [front_eq_of_marked h, columnBehindMarkers,
      if_pos startsWithMarker_hyphen_space]
    simp only [List.tail_cons, dropSpaces_body, hall, hgap]
    rw [if_neg Bool.false_ne_true, columnBehindMarkers_of_not_marker row.not_startsWithMarker_body]
    simp [Start.column, h]
  | false =>
    rw [front_eq_of_not_marked h, columnBehindMarkers_of_not_marker row.not_startsWithMarker_body]
    simp [Start.column, h]

theorem content_text (row : Row) : content row.text = row.body.text := by
  have hbody : dropMarkers row.body.text = row.body.text := by
    rw [dropMarkers, if_neg row.not_startsWithMarker_body]
  rw [content, dropSpaces_text]
  cases h : row.start.marked with
  | true =>
    rw [front_eq_of_marked h, dropMarkers, if_pos startsWithMarker_hyphen_space, List.tail_cons,
      dropSpaces_body, hbody]
  | false => rw [front_eq_of_not_marked h, hbody]

theorem label?_text (h : row.body.key? = some key) : label? row.text = some key.name := by
  obtain ⟨rest, hsplit⟩ := Body.splitFirst_text h
  refine label?_eq_some_iff.mpr ⟨key.text, rest, by rw [content_text, hsplit], ?_⟩
  rw [key.trim_text, key.unquote_text]
  exact ⟨key.text_ne_nil, rfl⟩

theorem declares_text (h : row.body.key? = some key) : declares row.text key.name := by
  obtain ⟨rest, hsplit⟩ := Body.splitFirst_text h
  simp [declares, content_text, hsplit, key.trimEnd_text, key.unquote_text, Key.name]

theorem newline_not_mem_text (row : Row) : '\n' ∉ row.text := by
  have hstart : '\n' ∉ row.start.text := by
    cases h : row.start.marked <;> simp [Start.text, h]
  simpa [text, hstart] using row.body.newline_not_mem_text

end Row

end ManifestAssist.Canonical
