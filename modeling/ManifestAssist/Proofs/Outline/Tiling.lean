import ManifestAssist.Proofs.Outline.Counting
import ManifestAssist.Proofs.Text.Cut

/-! # Items that tile their block

Behind its declaration, a block is cut at the markers at the column of the first item, up to the
first line that ends the items. So the items lie one behind the other without a gap, and whatever
else counts within an item is right of its marker.
-/

namespace ManifestAssist

open Text Outline

variable {label : String} {marker stop start d t i k : Nat} {line opening first : Line}
  {lines rest : List Line} {starts : List Nat} {item : ItemRange} {text : Text}
  {governs : Nat → Prop}

namespace Outline

/-- The starts of the items from the first one on, and where the items end. -/
def startsFrom (text : Text) (marker : Nat) (first : Line) : List Nat :=
  first.start :: laterStarts marker (text.lines.drop (first.number + 1))

def stopFrom (text : Text) (marker : Nat) (first : Line) : Nat :=
  stopAmong marker text.bytes (text.lines.drop (first.number + 1))

/-- Is line `d` the first one that declares the label? -/
def DeclaresFirst (label : String) (lines : List Line) (d : Nat) : Prop :=
  DeclaredAt label lines d ∧ ∀ k < d, ¬ DeclaredAt label lines k

/-- Items from a first line on that follow one another up to the first line that ends them. Each
is that of a line with a marker at the column, and the other lines in it that count are right of the
column. -/
structure Tiles (text : Text) (marker : Nat) (first : Line) (items : List ItemRange) : Prop where
  index : ∀ (i : Nat) (item : ItemRange), items[i]? = some item → item.index = i
  adjacent : ∀ (i : Nat) (item next : ItemRange), items[i]? = some item →
    items[i + 1]? = some next → item.span.stop = next.span.start
  nonempty : ∀ item ∈ items, item.span.start < item.span.stop
  marked : ∀ item ∈ items, ∃ line ∈ text.lines,
    line.marker? = some marker ∧ item.span.start = line.start
  inside : ∀ item ∈ items, ∀ line ∈ text.lines, item.span.contains line.start →
    line.start ≠ item.span.start → ∀ indent, line.indent? = some indent → marker < indent
  head : ∃ item, items.head? = some item ∧ item.span.start = first.start
  last : ∃ item, items.getLast? = some item ∧ item.span.stop = stopFrom text marker first

/-- The items of the block that a governing line declares. There is none if no line governs, or if
the first line behind it that counts is no list item at or right of the label. -/
structure TilesBlock (text : Text) (governs : Nat → Prop) (items : List ItemRange) : Prop where
  eq_nil_iff : items = [] ↔ ¬ ∃ d opening marker, governs d ∧ text.lines[d]? = some opening ∧
    StartsItems opening.labelColumn marker (text.lines.drop (d + 1))
  tiles : items ≠ [] → ∀ d opening, governs d → text.lines[d]? = some opening →
    ∃ first marker, (text.lines.drop (d + 1)).find? (·.isSignificant) = some first ∧
      first.marker? = some marker ∧ opening.labelColumn ≤ marker ∧ Tiles text marker first items

section Starts

theorem laterStarts_cons_of_exits (h : exits marker line) :
    laterStarts marker (line :: rest) = [] := by
  simp [laterStarts, h]

theorem laterStarts_cons_of_not_exits (h : ¬ exits marker line) :
    laterStarts marker (line :: rest) =
      if line.marker? = some marker then line.start :: laterStarts marker rest
      else laterStarts marker rest := by
  by_cases hm : line.marker? = some marker <;> simp [laterStarts, h, hm]

theorem mem_laterStarts_iff (hsorted : rest.Pairwise fun a b => a.start < b.start)
    (hstop : ∀ line ∈ rest, line.marker?.isSome → line.start < stop) :
    start ∈ laterStarts marker rest ↔
      ∃ line ∈ rest, line.marker? = some marker ∧ line.start = start ∧
        start < stopAmong marker stop rest := by
  induction rest with
  | nil => simp [laterStarts]
  | cons line rest ih =>
    obtain ⟨hline, hsorted⟩ := List.pairwise_cons.mp hsorted
    obtain ⟨hlt, hstop⟩ := List.forall_mem_cons.mp hstop
    by_cases he : exits marker line
    · -- No line behind the one that ends the items starts ahead of it.
      rw [laterStarts_cons_of_exits he, stopAmong_cons_of_exits he]
      refine iff_of_false List.not_mem_nil ?_
      rintro ⟨later, hlater, -, rfl, hbefore⟩
      rcases List.mem_cons.mp hlater with rfl | hlater
      · omega
      · have := hline later hlater
        omega
    · have hbefore (hm : line.marker? = some marker) : line.start < stopAmong marker stop rest :=
        le_stopAmong (hlt (by simp [hm])) fun later hlater => hline later hlater
      rw [laterStarts_cons_of_not_exits he, stopAmong_cons_of_not_exits he]
      simp only [List.mem_cons, exists_eq_or_imp, ← ih hsorted hstop]
      split
      · rename_i hm
        have := hbefore hm
        simp only [List.mem_cons, hm, true_and]
        refine or_congr_left ⟨?_, fun h => h.1.symm⟩
        rintro rfl
        exact ⟨rfl, this⟩
      · rename_i hm
        simp [hm]

theorem exists_start_of_getElem?_ranges (hle : ∀ start ∈ starts, start ≤ stop)
    (hmax : stop ≤ maxOffset) (h : (ranges stop 0 starts)[i]? = some item) :
    ∃ start, starts[i]? = some start ∧ item = ⟨i, start, starts[i + 1]?.getD stop⟩ := by
  rw [getElem?_ranges] at h
  obtain ⟨start, hstart, rfl⟩ := Option.map_eq_some_iff.mp h
  have hend : starts[i + 1]?.getD stop ≤ stop := by
    cases hnext : starts[i + 1]? with
    | none => exact Nat.le_refl _
    | some next => exact hle next (List.mem_of_getElem? hnext)
  refine ⟨start, hstart, ?_⟩
  rw [Span.between_eq ((hle start (List.mem_of_getElem? hstart)).trans hmax) (hend.trans hmax),
    Nat.zero_add]

theorem lt_of_getElem?_succ (hsorted : starts.Pairwise (· < ·)) {next : Nat}
    (hstart : starts[i]? = some start) (hnext : starts[i + 1]? = some next) : start < next := by
  obtain ⟨hi, rfl⟩ := List.getElem?_eq_some_iff.mp hstart
  obtain ⟨hj, rfl⟩ := List.getElem?_eq_some_iff.mp hnext
  exact List.pairwise_iff_getElem.mp hsorted i (i + 1) hi hj (Nat.lt_succ_self i)

theorem exists_next_le (hsorted : starts.Pairwise (· < ·)) (hstart : starts[i]? = some start)
    {later : Nat} (hlater : later ∈ starts) (hlt : start < later) :
    ∃ next, starts[i + 1]? = some next ∧ next ≤ later := by
  obtain ⟨j, hj⟩ := List.getElem?_of_mem hlater
  have hij : i < starts.countP (· ≤ start) :=
    (getElem?_le_iff hsorted start hstart).mp (Nat.le_refl _)
  have hjcount : ¬ j < starts.countP (· ≤ start) := fun h =>
    absurd ((getElem?_le_iff hsorted start hj).mpr h) (by omega)
  obtain ⟨hjlength, -⟩ := List.getElem?_eq_some_iff.mp hj
  have hnext : starts[i + 1]? = some starts[i + 1] := List.getElem?_eq_getElem (by omega)
  refine ⟨starts[i + 1], hnext, (getElem?_le_iff hsorted later hnext).mpr ?_⟩
  have := (getElem?_le_iff hsorted later hj).mp (Nat.le_refl _)
  omega

end Starts

section Lines

theorem drop_number (hline : line ∈ text.lines) :
    text.lines.drop line.number = line :: text.lines.drop (line.number + 1) := by
  obtain ⟨i, hi⟩ := List.getElem?_of_mem hline
  obtain ⟨hlt, rfl⟩ := List.getElem?_eq_some_iff.mp hi
  rw [number_of_getElem? hi]
  exact List.drop_eq_getElem_cons hlt

theorem mem_drop_succ_number_iff (hfirst : first ∈ text.lines) :
    line ∈ text.lines.drop (first.number + 1) ↔ line ∈ text.lines ∧ first.start < line.start := by
  obtain ⟨i, hi⟩ := List.getElem?_of_mem hfirst
  rw [number_of_getElem? hi]
  constructor
  · exact fun hline => ⟨List.mem_of_mem_drop hline, start_lt_of_mem_drop_succ hi hline⟩
  · rintro ⟨hline, hlt⟩
    obtain ⟨k, hk⟩ := List.getElem?_of_mem hline
    have hik := (start_lt_start_iff hi hk).mp hlt
    refine List.mem_of_getElem? (i := k - (i + 1)) ?_
    rw [List.getElem?_drop, show i + 1 + (k - (i + 1)) = k by omega, hk]

theorem start_lt_bytes_of_marker? (hline : line ∈ text.lines) (hm : line.marker?.isSome) :
    line.start < text.bytes := by
  obtain ⟨i, hi⟩ := List.getElem?_of_mem hline
  obtain ⟨marker, hm⟩ := Option.isSome_iff_exists.mp hm
  exact start_lt_bytes hi (isSignificant_of_marker? hm)

theorem marker?_of_not_exits {indent : Nat} (h : ¬ exits marker line)
    (hindent : line.indent? = some indent) (hle : indent ≤ marker) :
    line.marker? = some marker := by
  cases hm : line.marker? with
  | none =>
    simp only [exits, hindent, hm, beq_self_eq_true, Bool.and_true, Bool.or_eq_true,
      decide_eq_true_eq, beq_iff_eq] at h
    omega
  | some column =>
    have hcolumn : line.indent? = some column := (marker?_eq_some_iff.mp hm).1
    obtain rfl : indent = column := Option.some.inj (hindent.symm.trans hcolumn)
    simp only [exits, hindent, Bool.or_eq_true, decide_eq_true_eq] at h
    rw [show indent = marker by omega]

variable (hfirst : first ∈ text.lines)

include hfirst

theorem pairwise_drop_number : (first :: text.lines.drop (first.number + 1)).Pairwise
    fun a b => a.start < b.start := by
  rw [← drop_number hfirst]
  exact (pairwise_start_lines text).sublist (List.drop_sublist ..)

theorem pairwise_startsFrom : (startsFrom text marker first).Pairwise (· < ·) :=
  pairwise_starts (pairwise_drop_number hfirst)

theorem stopFrom_le_bytes : stopFrom text marker first ≤ text.bytes :=
  stopAmong_le fun _ hline => start_le_bytes ((mem_drop_succ_number_iff hfirst).mp hline).1

theorem not_exits_of_lt_stopFrom (hline : line ∈ text.lines) (hlt : first.start < line.start)
    (hstop : line.start < stopFrom text marker first) : ¬ exits marker line := by
  obtain ⟨-, hordered⟩ := List.pairwise_cons.mp (pairwise_drop_number hfirst)
  have hend : ∀ line ∈ text.lines.drop (first.number + 1), line.start ≤ text.bytes :=
    fun _ h => start_le_bytes ((mem_drop_succ_number_iff hfirst).mp h).1
  exact ((lt_stopAmong_iff hordered hend).mp hstop).2 line
    ((mem_drop_succ_number_iff hfirst).mpr ⟨hline, hlt⟩) (Nat.le_refl _)

theorem mem_startsFrom_iff (hm : first.marker? = some marker) :
    start ∈ startsFrom text marker first ↔ ∃ line ∈ text.lines, line.marker? = some marker ∧
      line.start = start ∧ first.start ≤ start ∧ start < stopFrom text marker first := by
  obtain ⟨hbehind, hordered⟩ := List.pairwise_cons.mp (pairwise_drop_number hfirst)
  have hhead : first.start < stopFrom text marker first :=
    le_stopAmong (start_lt_bytes_of_marker? hfirst (by simp [hm])) hbehind
  have hend : ∀ line ∈ text.lines.drop (first.number + 1), line.marker?.isSome →
      line.start < text.bytes :=
    fun line hline => start_lt_bytes_of_marker? ((mem_drop_succ_number_iff hfirst).mp hline).1
  rw [startsFrom, List.mem_cons, mem_laterStarts_iff hordered hend]
  constructor
  · rintro (rfl | ⟨line, hline, hmarker, rfl, hlt⟩)
    · exact ⟨first, hfirst, hm, rfl, Nat.le_refl _, hhead⟩
    · obtain ⟨hline, hstart⟩ := (mem_drop_succ_number_iff hfirst).mp hline
      exact ⟨line, hline, hmarker, rfl, Nat.le_of_lt hstart, hlt⟩
  · rintro ⟨line, hline, hmarker, rfl, hle, hlt⟩
    rcases Nat.lt_or_eq_of_le hle with hstart | heq
    · exact .inr ⟨line, (mem_drop_succ_number_iff hfirst).mpr ⟨hline, hstart⟩, hmarker, rfl, hlt⟩
    · exact .inl heq.symm

theorem lt_stopFrom_of_mem (hm : first.marker? = some marker)
    (h : start ∈ startsFrom text marker first) : start < stopFrom text marker first := by
  obtain ⟨-, -, -, -, -, hlt⟩ := (mem_startsFrom_iff hfirst hm).mp h
  exact hlt

theorem le_stopFrom_of_mem (hm : first.marker? = some marker) :
    ∀ start ∈ startsFrom text marker first, start ≤ stopFrom text marker first :=
  fun _ hstart => Nat.le_of_lt (lt_stopFrom_of_mem hfirst hm hstart)

theorem lt_indent_of_lt_next {indent : Nat} (hm : first.marker? = some marker)
    (hstart : (startsFrom text marker first)[i]? = some start) (hline : line ∈ text.lines)
    (hlt : start < line.start)
    (hnext : line.start < (startsFrom text marker first)[i + 1]?.getD (stopFrom text marker first))
    (hindent : line.indent? = some indent) : marker < indent := by
  obtain ⟨-, -, -, -, hfirstle, -⟩ :=
    (mem_startsFrom_iff hfirst hm).mp (List.mem_of_getElem? hstart)
  have hstop : line.start < stopFrom text marker first := by
    refine Nat.lt_of_lt_of_le hnext ?_
    cases hnext : (startsFrom text marker first)[i + 1]? with
    | none => exact Nat.le_refl _
    | some next => exact le_stopFrom_of_mem hfirst hm next (List.mem_of_getElem? hnext)
  -- A marker no further right would start an item of its own, ahead of the next one.
  by_contra hright
  have hexits := not_exits_of_lt_stopFrom hfirst hline (by omega) hstop
  have hmarker := marker?_of_not_exits hexits hindent (Nat.le_of_not_lt hright)
  have hitself : line.start ∈ startsFrom text marker first :=
    (mem_startsFrom_iff hfirst hm).mpr ⟨line, hline, hmarker, rfl, by omega, hstop⟩
  obtain ⟨next, heq, hle⟩ := exists_next_le (pairwise_startsFrom hfirst) hstart hitself hlt
  rw [heq, Option.getD_some] at hnext
  omega

/-- The items from a line with a marker on tile the lines up to where they end. -/
theorem tiles_ranges (hbytes : text.bytes < 2 ^ 32) (hm : first.marker? = some marker) :
    Tiles text marker first
      (ranges (stopFrom text marker first) 0 (startsFrom text marker first)) := by
  have hmax : stopFrom text marker first ≤ maxOffset :=
    (stopFrom_le_bytes hfirst).trans (Nat.le_of_lt_succ hbytes)
  have hsorted : (startsFrom text marker first).Pairwise (· < ·) := pairwise_startsFrom hfirst
  have hitem {i : Nat} {item : ItemRange} (hi : (ranges (stopFrom text marker first) 0
      (startsFrom text marker first))[i]? = some item) :=
    exists_start_of_getElem?_ranges (le_stopFrom_of_mem hfirst hm) hmax hi
  constructor
  case index =>
    intro i item hi
    obtain ⟨start, -, rfl⟩ := hitem hi
    rfl
  case adjacent =>
    intro i item next hi hnext
    obtain ⟨start, -, rfl⟩ := hitem hi
    obtain ⟨start', hstart', rfl⟩ := hitem hnext
    simp [hstart']
  case nonempty =>
    intro item hmem
    obtain ⟨i, hi⟩ := List.getElem?_of_mem hmem
    obtain ⟨start, hstart, rfl⟩ := hitem hi
    cases hnext : (startsFrom text marker first)[i + 1]? with
    | none => exact lt_stopFrom_of_mem hfirst hm (List.mem_of_getElem? hstart)
    | some next => exact lt_of_getElem?_succ hsorted hstart hnext
  case marked =>
    intro item hmem
    obtain ⟨i, hi⟩ := List.getElem?_of_mem hmem
    obtain ⟨start, hstart, rfl⟩ := hitem hi
    obtain ⟨line, hline, hmarker, rfl, -⟩ :=
      (mem_startsFrom_iff hfirst hm).mp (List.mem_of_getElem? hstart)
    exact ⟨line, hline, hmarker, rfl⟩
  case inside =>
    intro item hmem line hline hcontains hne indent hindent
    obtain ⟨i, hi⟩ := List.getElem?_of_mem hmem
    obtain ⟨start, hstart, rfl⟩ := hitem hi
    simp only [Span.contains, Bool.and_eq_true, decide_eq_true_eq] at hcontains
    obtain ⟨hge, hend⟩ := hcontains
    exact lt_indent_of_lt_next hfirst hm hstart hline (Nat.lt_of_le_of_ne hge (Ne.symm hne)) hend
      hindent
  case head =>
    obtain ⟨item, hhead⟩ : ∃ item, (ranges (stopFrom text marker first) 0
        (startsFrom text marker first))[0]? = some item := by
      rw [getElem?_ranges]
      exact ⟨_, rfl⟩
    obtain ⟨start, hstart, rfl⟩ := hitem hhead
    refine ⟨_, by rw [List.head?_eq_getElem?, hhead], ?_⟩
    exact (Option.some.inj hstart).symm
  case last =>
    obtain ⟨item, hitem, hend⟩ := getLast?_ranges (stopFrom text marker first) 0
      (List.cons_ne_nil first.start (laterStarts marker (text.lines.drop (first.number + 1))))
    exact ⟨item, hitem, hend.trans (Nat.min_eq_left hmax)⟩

end Lines

section Blocks

theorem rangesOf_eq (hopening : text.lines[d]? = some opening)
    (h : firstItem? opening.labelColumn (text.lines.drop (d + 1)) = some (marker, first, rest)) :
    first ∈ text.lines ∧ rangesOf text opening =
      ranges (stopFrom text marker first) 0 (startsFrom text marker first) := by
  obtain ⟨-, -, skipped, hdrop, -⟩ := exists_append_of_firstItem? h
  have hget : text.lines[d + 1 + skipped.length]? = some first := by
    rw [← List.getElem?_drop, hdrop]
    simp
  have hrest : text.lines.drop (first.number + 1) = rest := by
    rw [number_of_getElem? hget, Nat.add_assoc, ← List.drop_drop, hdrop]
    simp
  refine ⟨List.mem_of_getElem? hget, ?_⟩
  rw [rangesOf, rangesAfter_eq, number_of_getElem? hopening, h, stopFrom, startsFrom, hrest]

theorem rangesOf_eq_nil (hopening : text.lines[d]? = some opening)
    (h : firstItem? opening.labelColumn (text.lines.drop (d + 1)) = none) :
    rangesOf text opening = [] := by
  rw [rangesOf, rangesAfter_eq, number_of_getElem? hopening, h]

theorem tilesBlock_rangesOf (hbytes : text.bytes < 2 ^ 32)
    (hopening : text.lines[d]? = some opening)
    (hgoverns : ∀ k, governs k ↔ k = d) : TilesBlock text governs (rangesOf text opening) := by
  obtain rfl : governs = (· = d) := funext fun k => propext (hgoverns k)
  cases h : firstItem? opening.labelColumn (text.lines.drop (d + 1)) with
  | none =>
    have hnil := rangesOf_eq_nil hopening h
    refine ⟨iff_of_true hnil ?_, fun hne => absurd hnil hne⟩
    rintro ⟨d', opening', marker, rfl, hopening', hitems⟩
    obtain rfl : opening = opening' := Option.some.inj (hopening.symm.trans hopening')
    exact not_startsItems_of_firstItem? h marker hitems
  | some found =>
    obtain ⟨marker, first, rest⟩ := found
    obtain ⟨hm, hle, -⟩ := exists_append_of_firstItem? h
    obtain ⟨hfirst, heq⟩ := rangesOf_eq hopening h
    have htiles := tiles_ranges hfirst hbytes hm
    rw [heq]
    constructor
    case eq_nil_iff =>
      refine iff_of_false ?_ fun hnone => hnone
        ⟨d, opening, marker, rfl, hopening, startsItems_of_firstItem? h⟩
      intro hnil
      obtain ⟨item, hhead, -⟩ := htiles.head
      rw [hnil] at hhead
      cases hhead
    case tiles =>
      rintro - d' opening' rfl hopening'
      obtain rfl : opening = opening' := Option.some.inj (hopening.symm.trans hopening')
      exact ⟨first, marker, find?_isSignificant_of_firstItem? h, hm, hle, htiles⟩

theorem tilesBlock_nil (hgoverns : ∀ d, ¬ governs d) : TilesBlock text governs [] where
  eq_nil_iff := iff_of_true rfl fun ⟨d, _, _, h, _⟩ => hgoverns d h
  tiles := fun h => absurd rfl h

theorem Governs.unique (h : Governs label lines t d) (h' : Governs label lines t k) : k = d := by
  rcases Nat.lt_trichotomy k d with hlt | rfl | hgt
  · exact absurd h.2.1 (h'.2.2 d h.1 hlt)
  · rfl
  · exact absurd h'.2.1 (h.2.2 k h'.1 hgt)

theorem DeclaresFirst.unique (h : DeclaresFirst label lines d) (h' : DeclaresFirst label lines k) :
    k = d := by
  rcases Nat.lt_trichotomy k d with hlt | rfl | hgt
  · exact absurd h'.1 (h.2 k hlt)
  · rfl
  · exact absurd h.1 (h'.2 d hgt)

theorem exists_governs_of_find?
    (h : (lines.take (t + 1)).reverse.find? (·.declares label) = some opening) :
    ∃ d, Governs label lines t d ∧ lines[d]? = some opening := by
  obtain ⟨d, hdt, hopening, hdeclares, hlater⟩ := exists_of_find?_reverse_take h
  refine ⟨d, ⟨hdt, ⟨opening, hopening, hdeclares⟩, fun k hk hdk => ?_⟩, hopening⟩
  rintro ⟨line, hline, hlabel⟩
  exact hlater k hk hdk line hline hlabel

theorem tilesBlock_itemRangesAt (hbytes : text.bytes < 2 ^ 32) (label : String) (t : Nat) :
    TilesBlock text (Governs label text.lines t) (itemRangesAt label t text) := by
  unfold itemRangesAt
  cases hfind : (text.lines.take (t + 1)).reverse.find? (·.declares label) with
  | none =>
    refine tilesBlock_nil fun d => ?_
    rintro ⟨hdt, ⟨opening, hopening, hdeclares⟩, -⟩
    refine List.find?_eq_none.mp hfind opening (List.mem_reverse.mpr ?_) hdeclares
    refine List.mem_of_getElem? (i := d) ?_
    rwa [List.getElem?_take_of_lt (Nat.lt_succ_of_le hdt)]
  | some opening =>
    obtain ⟨d, hlast, hopening⟩ := exists_governs_of_find? hfind
    refine tilesBlock_rangesOf hbytes hopening fun k => ⟨fun hk => hlast.unique hk, ?_⟩
    rintro rfl
    exact hlast

theorem Tiles.pairwise_index {items : List ItemRange} (h : Tiles text marker first items) :
    items.Pairwise fun a b => a.index < b.index := by
  refine List.pairwise_iff_getElem.mpr fun i j hi hj hlt => ?_
  rwa [h.index i _ (List.getElem?_eq_getElem hi), h.index j _ (List.getElem?_eq_getElem hj)]

theorem Tiles.stop_le_start {items : List ItemRange} {a b : ItemRange}
    (h : Tiles text marker first items) (hik : i < k) (ha : items[i]? = some a)
    (hb : items[k]? = some b) : a.span.stop ≤ b.span.start := by
  -- Each item ends where the next one starts, and none is empty.
  induction k generalizing b with
  | zero => exact absurd hik (Nat.not_lt_zero i)
  | succ k ih =>
    have hk : k < items.length := by
      have := (List.getElem?_eq_some_iff.mp hb).1
      omega
    have hnext := h.adjacent k items[k] b (List.getElem?_eq_getElem hk) hb
    rcases Nat.lt_or_eq_of_le (Nat.le_of_lt_succ hik) with hlt | rfl
    · have hle := ih hlt (List.getElem?_eq_getElem hk)
      have hpos := h.nonempty items[k] (List.getElem_mem hk)
      omega
    · obtain rfl : items[i] = a := Option.some.inj ((List.getElem?_eq_getElem hk).symm.trans ha)
      exact hnext.le

theorem exists_tiles_itemRangesAt (hbytes : text.bytes < 2 ^ 32)
    (h : itemRangesAt label t text ≠ []) :
    ∃ marker first, Tiles text marker first (itemRangesAt label t text) := by
  have htile := tilesBlock_itemRangesAt hbytes label t
  obtain ⟨d, opening, -, hgoverns, hopening, -⟩ := not_not.mp (mt htile.eq_nil_iff.mpr h)
  obtain ⟨first, marker, -, -, -, htiles⟩ := htile.tiles h d opening hgoverns hopening
  exact ⟨marker, first, htiles⟩

end Blocks

end Outline

end ManifestAssist
