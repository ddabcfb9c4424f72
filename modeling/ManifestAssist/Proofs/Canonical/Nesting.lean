import ManifestAssist.Proofs.Canonical.Basic

/-! # Entries around a canonical line

The rows of a canonical manifest that stay open at a row are those of the entries around it. This is
kept when rows at one column are put behind one another and when an entry is put around rows that
are right of it, so it follows the tree.
-/

namespace ManifestAssist.Canonical

open Text Outline

variable {column bound : Nat} {names : List String} {a b children : List Row} {row head : Row}
  {step : Step} {key : Key}

namespace Row

/-- The line of a row, wherever it stands. -/
def line (row : Row) : Line :=
  ⟨0, 0, row.text⟩

theorem contents_cons_line (row : Row) (lines : List Line) :
    contents (row.line :: lines) = (row.line, row.start.column) :: contents lines :=
  contents_cons_of_eq_some row.contentColumn?_text

theorem contents_map_line (rows : List Row) :
    contents (rows.map line) = rows.map fun row => (row.line, row.start.column) := by
  induction rows with
  | nil => rfl
  | cons row rows ih => rw [List.map_cons, contents_cons_line, ih, List.map_cons]

end Row

/-- The labels of the rows that stay open at a column. -/
def openLabels (bound : Nat) (rows : List Row) : List String :=
  (openFrames bound (contents (rows.map Row.line))).map Frame.label

/-- The leftmost of a column and those of some rows. -/
def leftmostRow (bound : Nat) (rows : List Row) : Nat :=
  leftmost bound (contents (rows.map Row.line))

theorem openLabels_append (bound : Nat) (a b : List Row) :
    openLabels bound (a ++ b) = openLabels (leftmostRow bound b) a ++ openLabels bound b := by
  simp [openLabels, leftmostRow, contents, openFrames_append]

theorem lt_leftmostRow_iff {n : Nat} {rows : List Row} :
    n < leftmostRow bound rows ↔ n < bound ∧ ∀ row ∈ rows, n < row.start.column := by
  simp [leftmostRow, lt_leftmost_iff, Row.contents_map_line]

theorem leftmostRow_cons_le (row : Row) (rows : List Row) :
    leftmostRow bound (row :: rows) ≤ row.start.column := by
  rw [leftmostRow, List.map_cons, Row.contents_cons_line]
  exact Nat.min_le_left ..

theorem openFrames_eq_nil {contents : List (Line × Nat)} (h : ∀ c ∈ contents, bound ≤ c.2) :
    openFrames bound contents = [] := by
  induction contents with
  | nil => rfl
  | cons content rest ih =>
    obtain ⟨hle, h⟩ := List.forall_mem_cons.mp h
    have hnot : ¬ content.2 < leftmost bound rest := by
      rw [lt_leftmost_iff]
      omega
    simp only [openFrames, hnot, ih h]
    split <;> rfl

theorem openLabels_eq_nil {rows : List Row} (h : ∀ row ∈ rows, bound ≤ row.start.column) :
    openLabels bound rows = [] := by
  rw [openLabels, openFrames_eq_nil, List.map_nil]
  simpa [Row.contents_map_line] using h

theorem openLabels_cons {rows : List Row} (hkey : head.body.key? = some key)
    (hlt : head.start.column < leftmostRow bound rows) :
    openLabels bound (head :: rows) = key.name :: openLabels bound rows := by
  have hlabel : head.line.label? = some key.name := Row.label?_text hkey
  rw [leftmostRow] at hlt
  rw [openLabels, List.map_cons, Row.contents_cons_line]
  simp [openLabels, openFrames, hlabel, hlt]

theorem getElem?_append_cases {n : Nat} (h : (a ++ b)[n]? = some row) :
    (n < a.length ∧ a[n]? = some row) ∨ ∃ m, n = a.length + m ∧ b[m]? = some row := by
  rcases Nat.lt_or_ge n a.length with hn | hn
  · rw [List.getElem?_append_left hn] at h
    exact .inl ⟨hn, h⟩
  · obtain ⟨m, rfl⟩ := Nat.exists_eq_add_of_le hn
    rw [List.getElem?_append_right hn, Nat.add_sub_cancel_left] at h
    exact .inr ⟨m, rfl, h⟩

/-- Rows at or right of a column, each of which is in the open rows ahead of it, besides entries of
the given names. -/
def Nested (column : Nat) (names : List String) (rows : List Row) : Prop :=
  ∀ n row, rows[n]? = some row → column ≤ row.start.column ∧
    names ++ openLabels row.start.column (rows.take n) = row.path.map Step.name

theorem Nested.le_column (h : Nested column names a) (hrow : row ∈ a) :
    column ≤ row.start.column := by
  obtain ⟨n, hn⟩ := List.getElem?_of_mem hrow
  exact (h n row hn).1

theorem nested_nil : Nested column names [] := by
  intro n row h
  simp at h

theorem Nested.append (ha : Nested column names a) (hb : Nested column names b)
    (hhead : ∀ row ∈ b.head?, row.start.column = column) : Nested column names (a ++ b) := by
  intro n row hrow
  rcases getElem?_append_cases hrow with ⟨hn, hrow⟩ | ⟨m, rfl, hm⟩
  · rw [List.take_append_of_le_length (Nat.le_of_lt hn)]
    exact ha n row hrow
  · obtain ⟨hle, hpath⟩ := hb m row hm
    refine ⟨hle, ?_⟩
    have hleft : leftmostRow row.start.column (b.take m) ≤ column := by
      cases b with
      | nil => simp at hrow
      | cons first rest =>
        have hfirst : first.start.column = column := hhead first rfl
        cases m with
        | zero =>
          obtain rfl : first = row := by simpa using hrow
          exact Nat.le_of_eq hfirst
        | succ m => exact hfirst ▸ leftmostRow_cons_le ..
    rw [List.take_length_add_append, openLabels_append,
      openLabels_eq_nil fun row hrow => Nat.le_trans hleft (ha.le_column hrow), List.nil_append,
      hpath]

theorem Nested.under (h : Nested column [] a) (step : Step) :
    Nested column [step.name] (a.map (Row.under step)) := by
  intro n row hrow
  rw [List.getElem?_map, Option.map_eq_some_iff] at hrow
  obtain ⟨row, hrow, rfl⟩ := hrow
  obtain ⟨hle, hpath⟩ := h n row hrow
  refine ⟨hle, ?_⟩
  have hlabels : openLabels row.start.column ((a.map (Row.under step)).take n) =
      openLabels row.start.column (a.take n) := by
    rw [openLabels, ← List.map_take, List.map_map]
    rfl
  simpa [Row.under, hlabels] using hpath

theorem Nested.cons (h : Nested bound [key.name] children) (hkey : head.body.key? = some key)
    (hpath : head.path = []) (hlt : head.start.column < bound) :
    Nested head.start.column [] (head :: children) := by
  intro n row hrow
  cases n with
  | zero =>
    obtain rfl : head = row := by simpa using hrow
    refine ⟨Nat.le_refl _, ?_⟩
    rw [hpath]
    rfl
  | succ n =>
    obtain ⟨hle, hnames⟩ := h n row (by simpa using hrow)
    have hopen : head.start.column < leftmostRow row.start.column (children.take n) := by
      refine lt_leftmostRow_iff.mpr ⟨by omega, fun row hrow => ?_⟩
      exact Nat.lt_of_lt_of_le hlt (h.le_column (List.mem_of_mem_take hrow))
    refine ⟨by omega, ?_⟩
    rw [List.take_succ_cons, openLabels_cons hkey hopen, List.nil_append, ← hnames]
    rfl

theorem Entry.rows_eq_cons (entry : Entry) (start : Start) :
    ∃ head children, entry.rows start = head :: children ∧ head.start = start ∧
      head.path = [] ∧ head.body.key? ≠ none := by
  cases entry <;> exact ⟨_, _, rfl, rfl, rfl, nofun⟩

theorem start_of_mem_head?_entryRows {entries : List Entry}
    (h : row ∈ (entryRows column entries).head?) : row.start = ⟨column, false⟩ := by
  cases entries with
  | nil => simp [entryRows] at h
  | cons entry entries =>
    obtain ⟨head, children, heq, hstart, -⟩ := entry.rows_eq_cons ⟨column, false⟩
    obtain rfl : head = row := by simpa [entryRows, heq] using h
    exact hstart

theorem Item.rows_eq_cons (item : Item) (column : Nat) :
    ∃ head rest, item.rows column = head :: rest ∧ head.start = ⟨column, true⟩ := by
  cases item with
  | scalar s => exact ⟨_, _, rfl, rfl⟩
  | entries first rest =>
    obtain ⟨head, children, heq, hstart, -⟩ := first.rows_eq_cons ⟨column, true⟩
    exact ⟨head, _, by rw [Item.rows, heq, List.cons_append], hstart⟩

theorem start_of_mem_head?_itemRows {items : List Item} {index : Nat}
    (h : row ∈ (itemRows key column index items).head?) : row.start = ⟨column, true⟩ := by
  cases items with
  | nil => simp [itemRows] at h
  | cons item items =>
    obtain ⟨head, rest, heq, hstart⟩ := item.rows_eq_cons column
    obtain rfl : head.under ⟨key, some index⟩ = row := by simpa [itemRows, heq] using h
    exact hstart

theorem nested_singleton (hpath : row.path = []) : Nested row.start.column [] [row] := by
  intro n row' hrow
  cases n with
  | zero =>
    obtain rfl : row = row' := by simpa using hrow
    refine ⟨Nat.le_refl _, ?_⟩
    rw [hpath]
    rfl
  | succ n => simp at hrow

mutual

theorem Entry.nested_rows (start : Start) : ∀ entry : Entry,
    Nested start.column [] (entry.rows start)
  | .leaf key value => nested_singleton rfl
  | .block key first rest => by
    have hfirst := first.nested_rows ⟨start.column + 2, false⟩
    have hrest := nested_entryRows (start.column + 2) rest
    have hchildren := (hfirst.append hrest fun row hrow => by
      rw [start_of_mem_head?_entryRows hrow]).under ⟨key, none⟩
    rw [Entry.rows]
    exact hchildren.cons rfl rfl (by simp [Start.column])
  | .list key first rest => by
    have hfirst := (first.nested_rows (start.column + 2)).under ⟨key, some 0⟩
    have hrest := nested_itemRows key (start.column + 2) 1 rest
    have hchildren := hfirst.append hrest fun row hrow => by
      rw [start_of_mem_head?_itemRows hrow]
      rfl
    rw [Entry.rows]
    exact hchildren.cons rfl rfl (by dsimp only; omega)

theorem nested_entryRows (column : Nat) : ∀ entries : List Entry,
    Nested column [] (entryRows column entries)
  | [] => nested_nil
  | entry :: entries => by
    have hentry := entry.nested_rows ⟨column, false⟩
    rw [entryRows]
    exact hentry.append (nested_entryRows column entries) fun row hrow => by
      rw [start_of_mem_head?_entryRows hrow]

theorem Item.nested_rows (column : Nat) : ∀ item : Item,
    Nested (column + 2) [] (item.rows column)
  | .scalar s => nested_singleton rfl
  | .entries first rest => by
    have hfirst := first.nested_rows ⟨column, true⟩
    rw [Item.rows]
    exact hfirst.append (nested_entryRows (column + 2) rest) fun row hrow => by
      rw [start_of_mem_head?_entryRows hrow]
      rfl

theorem nested_itemRows (key : Key) (column index : Nat) : ∀ items : List Item,
    Nested (column + 2) [key.name] (itemRows key column index items)
  | [] => nested_nil
  | item :: items => by
    have hitem := (item.nested_rows column).under ⟨key, some index⟩
    rw [itemRows]
    exact hitem.append (nested_itemRows key column (index + 1) items) fun row hrow => by
      rw [start_of_mem_head?_itemRows hrow]
      rfl

end

end ManifestAssist.Canonical
