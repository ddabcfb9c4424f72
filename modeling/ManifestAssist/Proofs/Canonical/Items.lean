import ManifestAssist.Proofs.Canonical.Nesting

/-! # Items around a canonical line

The number of an item is read off the markers behind the key of its list. Each item has one marker
at the column of the list, on its first row, and all its other rows start right of that column. So
the rows of a list up to a row hold as many markers there as items have started.
-/

namespace ManifestAssist.Canonical

open Text Outline

variable {column index n k : Nat} {a b children : List Row} {row head : Row} {step : Step}
  {key : Key}

theorem Start.indent_le_column (start : Start) : start.indent ≤ start.column := by
  unfold Start.column
  split <;> omega

mutual

theorem Entry.indent_le_of_mem_rows (start : Start) : ∀ entry : Entry,
    ∀ row ∈ entry.rows start, start.indent ≤ row.start.indent
  | .leaf key value => by simp [Entry.rows]
  | .block key first rest => by
    have hstart := start.indent_le_column
    have hfirst := first.indent_le_of_mem_rows ⟨start.column + 2, false⟩
    have hrest := indent_le_of_mem_entryRows (start.column + 2) rest
    simp only [Entry.rows, List.map_append, List.mem_cons, List.mem_append, List.mem_map]
    rintro row (rfl | ⟨row, hrow, rfl⟩ | ⟨row, hrow, rfl⟩)
    · exact Nat.le_refl _
    · exact Nat.le_trans (by dsimp only; omega) (hfirst row hrow)
    · exact Nat.le_trans (by omega) (hrest row hrow)
  | .list key first rest => by
    have hstart := start.indent_le_column
    have hfirst := first.indent_le_of_mem_rows (start.column + 2)
    have hrest := indent_le_of_mem_itemRows key (start.column + 2) 1 rest
    simp only [Entry.rows, List.mem_cons, List.mem_append, List.mem_map]
    rintro row (rfl | ⟨row, hrow, rfl⟩ | hrow)
    · exact Nat.le_refl _
    · exact Nat.le_trans (by omega) (hfirst row hrow)
    · exact Nat.le_trans (by omega) (hrest row hrow)

theorem indent_le_of_mem_entryRows (column : Nat) : ∀ entries : List Entry,
    ∀ row ∈ entryRows column entries, column ≤ row.start.indent
  | [] => by simp [entryRows]
  | entry :: entries => by
    intro row hrow
    rcases List.mem_append.mp hrow with hrow | hrow
    · exact entry.indent_le_of_mem_rows ⟨column, false⟩ row hrow
    · exact indent_le_of_mem_entryRows column entries row hrow

theorem Item.indent_le_of_mem_rows (column : Nat) : ∀ item : Item,
    ∀ row ∈ item.rows column, column ≤ row.start.indent
  | .scalar s => by simp [Item.rows]
  | .entries first rest => by
    intro row hrow
    rcases List.mem_append.mp hrow with hrow | hrow
    · exact first.indent_le_of_mem_rows ⟨column, true⟩ row hrow
    · exact Nat.le_trans (by omega) (indent_le_of_mem_entryRows (column + 2) rest row hrow)

theorem indent_le_of_mem_itemRows (key : Key) (column index : Nat) : ∀ items : List Item,
    ∀ row ∈ itemRows key column index items, column ≤ row.start.indent
  | [] => by simp [itemRows]
  | item :: items => by
    intro row hrow
    rcases List.mem_append.mp hrow with hrow | hrow
    · obtain ⟨inner, hinner, rfl⟩ := List.mem_map.mp hrow
      exact item.indent_le_of_mem_rows column inner hinner
    · exact indent_le_of_mem_itemRows key column (index + 1) items row hrow

end

theorem Entry.rows_list (key : Key) (first : Item) (rest : List Item) (start : Start) :
    (Entry.list key first rest).rows start =
      { start, body := .opening key } :: itemRows key (start.column + 2) 0 (first :: rest) := by
  rw [Entry.rows, itemRows]

theorem path_ne_nil_of_mem_itemRows {items : List Item}
    (h : row ∈ itemRows key column index items) : row.path ≠ [] := by
  induction items generalizing index with
  | nil => simp [itemRows] at h
  | cons item items ih =>
    rcases List.mem_append.mp h with h | h
    · obtain ⟨inner, -, rfl⟩ := List.mem_map.mp h
      exact List.cons_ne_nil _ _
    · exact ih h

theorem Entry.inside_of_mem_tail {entry : Entry} {start : Start}
    (h : row ∈ (entry.rows start).tail) : start.indent < row.start.indent ∧ row.path ≠ [] := by
  have hstart := start.indent_le_column
  cases entry with
  | leaf key value => simp [Entry.rows] at h
  | block key first rest =>
    rw [Entry.rows, List.tail_cons, ← entryRows] at h
    obtain ⟨inner, hinner, rfl⟩ := List.mem_map.mp h
    have hindent := indent_le_of_mem_entryRows _ _ inner hinner
    refine ⟨?_, List.cons_ne_nil _ _⟩
    change start.indent < inner.start.indent
    omega
  | list key first rest =>
    rw [Entry.rows_list, List.tail_cons] at h
    have hindent := indent_le_of_mem_itemRows _ _ _ _ row h
    exact ⟨by omega, path_ne_nil_of_mem_itemRows h⟩

theorem start_or_inside_of_mem_entryRows {entries : List Entry}
    (h : row ∈ entryRows column entries) :
    (row.start = ⟨column, false⟩ ∧ row.path = [] ∧ row.body.key? ≠ none) ∨
      (column < row.start.indent ∧ row.path ≠ []) := by
  induction entries with
  | nil => simp [entryRows] at h
  | cons entry entries ih =>
    rcases List.mem_append.mp h with h | h
    · obtain ⟨head, children, heq, hhead⟩ := entry.rows_eq_cons ⟨column, false⟩
      rw [heq] at h
      rcases List.mem_cons.mp h with rfl | h
      · exact .inl hhead
      · exact .inr (Entry.inside_of_mem_tail (by rwa [heq]))
    · exact ih h

theorem Item.indent_lt_of_mem_tail {item : Item} (h : row ∈ (item.rows column).tail) :
    column < row.start.indent := by
  cases item with
  | scalar s => simp [Item.rows] at h
  | entries first rest =>
    obtain ⟨head, children, heq, -⟩ := first.rows_eq_cons ⟨column, true⟩
    rw [Item.rows, heq, List.cons_append, List.tail_cons] at h
    rcases List.mem_append.mp h with h | h
    · have hinside := @Entry.inside_of_mem_tail row first ⟨column, true⟩ (by rwa [heq])
      exact hinside.1
    · have := indent_le_of_mem_entryRows _ _ row h
      omega

theorem Item.countP_marker_take (item : Item) (column n : Nat) :
    ((item.rows column).take (n + 1)).countP (·.start = ⟨column, true⟩) = 1 := by
  obtain ⟨head, rest, heq, hstart⟩ := item.rows_eq_cons column
  have hrest : (rest.take n).countP (·.start = ⟨column, true⟩) = 0 := by
    rw [List.countP_eq_zero]
    intro row hrow
    have hlt : column < row.start.indent := by
      refine @Item.indent_lt_of_mem_tail column row item ?_
      rw [heq]
      exact List.mem_of_mem_take hrow
    simp only [decide_eq_true_eq]
    rintro hrow
    simp [hrow] at hlt
  rw [heq, List.take_succ_cons, List.countP_cons_of_pos (by simpa using hstart), hrest]

/-- Behind the key of a list, `k` further markers follow at the column of the first. -/
def CountsTo (key : Key) (k : Nat) (rows : List Row) : Prop :=
  ∃ before head first between, rows = before ++ head :: first :: between ∧
    head.body.key? = some key ∧ first.start.marked ∧ head.start.column ≤ first.start.indent ∧
      between.countP (·.start = first.start) = k

theorem CountsTo.prepend (h : CountsTo key k b) (a : List Row) : CountsTo key k (a ++ b) := by
  obtain ⟨before, head, first, between, rfl, h⟩ := h
  exact ⟨a ++ before, head, first, between, (List.append_assoc ..).symm, h⟩

theorem CountsTo.under (h : CountsTo key k a) (step : Step) :
    CountsTo key k (a.map (Row.under step)) := by
  obtain ⟨before, head, first, between, rfl, hkey, hmarked, hle, hcount⟩ := h
  refine ⟨before.map (Row.under step), head.under step, first.under step,
    between.map (Row.under step), by simp, hkey, hmarked, hle, ?_⟩
  rw [List.countP_map]
  exact hcount

/-- Each row is counted to the items around it. -/
def Counted (rows : List Row) : Prop :=
  ∀ n row, rows[n]? = some row → ∀ step ∈ row.path, ∀ k, step.item = some k →
    CountsTo step.key k (rows.take (n + 1))

/-- Each row of a list is counted to the items around it. Those of the list itself are numbered from
`index` on. -/
def ItemsCounted (key : Key) (column index : Nat) (rows : List Row) : Prop :=
  ∀ n row, rows[n]? = some row → ∀ step ∈ row.path, ∀ k, step.item = some k →
    CountsTo step.key k (rows.take (n + 1)) ∨
      step.key = key ∧
        index + (rows.take (n + 1)).countP (·.start = ⟨column, true⟩) = k + 1

theorem counted_of_path_eq_nil (h : row.path = []) : Counted [row] := by
  intro n inner hinner step hstep
  obtain rfl : inner = row := by simpa using List.mem_of_getElem? hinner
  simp [h] at hstep

theorem Counted.append (ha : Counted a) (hb : Counted b) : Counted (a ++ b) := by
  intro n row hrow step hstep k hk
  rcases getElem?_append_cases hrow with ⟨hn, hrow⟩ | ⟨m, rfl, hm⟩
  · rw [List.take_append_of_le_length hn]
    exact ha n row hrow step hstep k hk
  · rw [Nat.add_assoc, List.take_length_add_append]
    exact (hb m row hm step hstep k hk).prepend a

theorem Counted.under (h : Counted a) (hitem : step.item = none) :
    Counted (a.map (Row.under step)) := by
  intro n row hrow inner hinner k hk
  rw [List.getElem?_map, Option.map_eq_some_iff] at hrow
  obtain ⟨row, hrow, rfl⟩ := hrow
  rcases List.mem_cons.mp hinner with rfl | hinner
  · simp [hitem] at hk
  · rw [← List.map_take]
    exact (h n row hrow inner hinner k hk).under step

theorem Item.itemsCounted_rows {item : Item} (h : Counted (item.rows column)) :
    ItemsCounted key column index ((item.rows column).map (Row.under ⟨key, some index⟩)) := by
  intro n row hrow step hstep k hk
  rw [List.getElem?_map, Option.map_eq_some_iff] at hrow
  obtain ⟨row, hrow, rfl⟩ := hrow
  rw [← List.map_take]
  rcases List.mem_cons.mp hstep with rfl | hstep
  · obtain rfl : index = k := Option.some.inj hk
    refine .inr ⟨rfl, ?_⟩
    rw [List.countP_map]
    exact congrArg (index + ·) (item.countP_marker_take column n)
  · exact .inl ((h n row hrow step hstep k hk).under _)

theorem ItemsCounted.append (ha : ItemsCounted key column index a)
    (hb : ItemsCounted key column (index + 1) b)
    (hcount : a.countP (·.start = ⟨column, true⟩) = 1) :
    ItemsCounted key column index (a ++ b) := by
  intro n row hrow step hstep k hk
  rcases getElem?_append_cases hrow with ⟨hn, hrow⟩ | ⟨m, rfl, hm⟩
  · rw [List.take_append_of_le_length hn]
    exact ha n row hrow step hstep k hk
  · rw [Nat.add_assoc, List.take_length_add_append, List.countP_append, hcount]
    rcases hb m row hm step hstep k hk with h | ⟨hkey, hindex⟩
    · exact .inl (h.prepend a)
    · exact .inr ⟨hkey, by omega⟩

theorem ItemsCounted.cons (h : ItemsCounted key column 0 children)
    (hfirst : ∀ row ∈ children.head?, row.start = ⟨column, true⟩)
    (hkey : head.body.key? = some key) (hpath : head.path = [])
    (hle : head.start.column ≤ column) : Counted (head :: children) := by
  intro n row hrow step hstep k hk
  cases n with
  | zero =>
    obtain rfl : head = row := by simpa using hrow
    simp [hpath] at hstep
  | succ n =>
    rw [List.getElem?_cons_succ] at hrow
    rw [List.take_succ_cons]
    rcases h n row hrow step hstep k hk with h | ⟨rfl, hcount⟩
    · exact h.prepend [head]
    · cases children with
      | nil => simp at hrow
      | cons first rest =>
        have hstart : first.start = ⟨column, true⟩ := hfirst first rfl
        rw [List.take_succ_cons, List.countP_cons_of_pos (by simpa using hstart)] at hcount
        refine ⟨[], head, first, rest.take n, ?_, hkey, by simp [hstart], by simpa [hstart], ?_⟩
        · rw [List.take_succ_cons]
          rfl
        · rw [hstart]
          omega

theorem itemsCounted_cons {item : Item} {items : List Item} (hitem : Counted (item.rows column))
    (hitems : ItemsCounted key column (index + 1) (itemRows key column (index + 1) items)) :
    ItemsCounted key column index (itemRows key column index (item :: items)) := by
  rw [itemRows]
  refine (Item.itemsCounted_rows hitem).append hitems ?_
  obtain ⟨head, rest, heq, -⟩ := item.rows_eq_cons column
  have hcount := item.countP_marker_take column rest.length
  rw [List.take_of_length_le (by simp [heq])] at hcount
  rw [List.countP_map]
  exact hcount

mutual

theorem Entry.counted_rows (start : Start) : ∀ entry : Entry, Counted (entry.rows start)
  | .leaf key value => counted_of_path_eq_nil rfl
  | .block key first rest => by
    have hfirst := first.counted_rows ⟨start.column + 2, false⟩
    have hrest := counted_entryRows (start.column + 2) rest
    have hchildren := @Counted.under _ ⟨key, none⟩ (hfirst.append hrest) rfl
    rw [Entry.rows, ← List.singleton_append]
    exact (counted_of_path_eq_nil rfl).append hchildren
  | .list key first rest => by
    have hfirst := first.counted_rows (start.column + 2)
    have hrest := itemsCounted_itemRows key (start.column + 2) 1 rest
    have hchildren : ItemsCounted key (start.column + 2) 0
        (itemRows key (start.column + 2) 0 (first :: rest)) :=
      itemsCounted_cons hfirst hrest
    rw [Entry.rows_list]
    refine hchildren.cons (fun row hrow => start_of_mem_head?_itemRows hrow) rfl rfl ?_
    exact Nat.le_add_right ..

theorem counted_entryRows (column : Nat) : ∀ entries : List Entry,
    Counted (entryRows column entries)
  | [] => by
    intro n row hrow
    simp [entryRows] at hrow
  | entry :: entries => by
    have hentry := entry.counted_rows ⟨column, false⟩
    rw [entryRows]
    exact hentry.append (counted_entryRows column entries)

theorem Item.counted_rows (column : Nat) : ∀ item : Item, Counted (item.rows column)
  | .scalar s => counted_of_path_eq_nil rfl
  | .entries first rest => by
    have hfirst := first.counted_rows ⟨column, true⟩
    rw [Item.rows]
    exact hfirst.append (counted_entryRows (column + 2) rest)

theorem itemsCounted_itemRows (key : Key) (column index : Nat) : ∀ items : List Item,
    ItemsCounted key column index (itemRows key column index items)
  | [] => by
    intro n row hrow
    simp [itemRows] at hrow
  | item :: items => by
    have hitem := item.counted_rows column
    exact itemsCounted_cons hitem (itemsCounted_itemRows key column (index + 1) items)

end

end ManifestAssist.Canonical
