import ManifestAssist.Navigation.Lens
import ManifestAssist.Proofs.Outline.Enclosure
import ManifestAssist.Proofs.Outline.Tiling
import ManifestAssist.Proofs.Text.LineMap

/-! # Lenses on items

The items of the first block of metrics at the left margin are paired with the metrics of a manifest
by their indices, whether the manifest is that of the text or not. An item has a lens if there is a
metric with its index and that metric has a title, so an item without one changes no other lens.
-/

namespace ManifestAssist

open Text Outline

open Yaml (Value)

variable {text : Text} {metrics : List Value} {metric : Value} {items : List ItemRange}
  {item : ItemRange} {lens : Lens} {title : String} {first : Line} {marker : Nat}

namespace Lens

/-- Is this the display name of a metric, or its key if it has no display name? -/
def IsTitle (metric : Value) (title : String) : Prop :=
  (metric.get "metadata").field? "displayName" = some title ∨
    (metric.get "metadata").field? "displayName" = none ∧ metric.field? "key" = some title

/-- Is this the lens of item `i`, at the line with a marker where the item starts, with the title of
metric `i`? -/
def IsAt (text : Text) (items : List ItemRange) (metrics : List Value) (i : Nat) (lens : Lens) :
    Prop :=
  ∃ item ∈ items[i]?, lens.span = item.span ∧
    (∃ metric ∈ metrics[i]?, IsTitle metric lens.title) ∧
    ∃ line ∈ text.lines[lens.line]?, line.marker?.isSome ∧ line.start = item.span.start

/-- Lenses in the order of the items, one for each index of an item and a metric with a title. -/
structure Names (text : Text) (items : List ItemRange) (metrics : List Value) (indices : List Nat)
    (lenses : List Lens) : Prop where
  ordered : indices.Pairwise (· < ·)
  mem_iff : ∀ i, i ∈ indices ↔
    i < min items.length metrics.length ∧ ∃ metric ∈ metrics[i]?, ∃ title, IsTitle metric title
  paired : List.Forall₂ (IsAt text items metrics) indices lenses

/-- The lens of an item. -/
def ofItem? (text : Text) (metrics : List Value) (item : ItemRange) : Option Lens := do
  let title ← title? (← metrics[item.index]?)
  return ⟨item.span, (LineMap.ofText text).lineAt item.span.start, title⟩

theorem title?_eq_some_iff : title? metric = some title ↔ IsTitle metric title := by
  unfold title? IsTitle
  cases (metric.get "metadata").field? "displayName" <;> simp

theorem ofItem?_eq_some_iff :
    ofItem? text metrics item = some lens ↔
      (∃ metric ∈ metrics[item.index]?, IsTitle metric lens.title) ∧ lens.span = item.span ∧
        lens.line = (LineMap.ofText text).lineAt item.span.start := by
  simp only [ofItem?, Option.bind_eq_bind, Option.pure_def, Option.bind_eq_some_iff,
    Option.some.injEq, title?_eq_some_iff]
  constructor
  · rintro ⟨metric, hmetric, title, htitle, rfl⟩
    exact ⟨⟨metric, hmetric, htitle⟩, rfl, rfl⟩
  · rintro ⟨⟨metric, hmetric, htitle⟩, hspan, hline⟩
    exact ⟨metric, hmetric, lens.title, htitle, by rw [← hline, ← hspan]⟩

theorem forall₂_map_filter_filterMap {α β γ : Type} {R : γ → β → Prop} {f : α → Option β}
    {g : α → γ} {l : List α} (h : ∀ a ∈ l, ∀ b, f a = some b → R (g a) b) :
    List.Forall₂ R ((l.filter fun a => (f a).isSome).map g) (l.filterMap f) := by
  induction l with
  | nil => exact .nil
  | cons a l ih =>
    obtain ⟨ha, h⟩ := List.forall_mem_cons.mp h
    cases hf : f a with
    | none =>
      rw [List.filter_cons_of_neg (by simp [hf]), List.filterMap_cons_none hf]
      exact ih h
    | some b =>
      rw [List.filter_cons_of_pos (by simp [hf]), List.filterMap_cons_some hf]
      exact .cons (ha b hf) (ih h)

section Tiles

variable (htiles : Tiles text marker first items)

include htiles

theorem exists_line_of_ofItem? (hitem : item ∈ items) (h : ofItem? text metrics item = some lens) :
    ∃ line, text.lines[lens.line]? = some line ∧ line.marker?.isSome ∧
      line.start = lens.span.start := by
  obtain ⟨-, hspan, hnumber⟩ := ofItem?_eq_some_iff.mp h
  obtain ⟨line, hline, hm, hstart⟩ := htiles.marked item hitem
  obtain ⟨k, hk⟩ := List.getElem?_of_mem hline
  rw [hstart, LineMap.lineAt_ofText hk (Nat.le_refl _) (Nat.le_add_right ..)] at hnumber
  exact ⟨line, by rw [hnumber, hk], by simp [hm], by rw [hspan, hstart]⟩

theorem isAt_of_ofItem? (hitem : item ∈ items) (h : ofItem? text metrics item = some lens) :
    IsAt text items metrics item.index lens := by
  obtain ⟨htitle, hspan, -⟩ := ofItem?_eq_some_iff.mp h
  obtain ⟨line, hline, hm, hstart⟩ := exists_line_of_ofItem? htiles hitem h
  obtain ⟨k, hk⟩ := List.getElem?_of_mem hitem
  obtain rfl := htiles.index k item hk
  exact ⟨item, hk, hspan, htitle, line, hline, hm, by rw [hstart, hspan]⟩

theorem names_filterMap (metrics : List Value) :
    Names text items metrics
      ((items.filter fun item => (ofItem? text metrics item).isSome).map (·.index))
      (items.filterMap (ofItem? text metrics)) := by
  constructor
  case ordered => exact List.pairwise_map.mpr (htiles.pairwise_index.filter _)
  case mem_iff =>
    intro i
    simp only [List.mem_map, List.mem_filter, Option.isSome_iff_exists]
    constructor
    · rintro ⟨item, ⟨hitem, lens, hlens⟩, rfl⟩
      obtain ⟨⟨metric, hmetric, htitle⟩, -⟩ := ofItem?_eq_some_iff.mp hlens
      obtain ⟨k, hk⟩ := List.getElem?_of_mem hitem
      obtain rfl := htiles.index k item hk
      have hitems := (List.getElem?_eq_some_iff.mp hk).1
      have hmetrics := (List.getElem?_eq_some_iff.mp hmetric).1
      exact ⟨Nat.lt_min.mpr ⟨hitems, hmetrics⟩, metric, hmetric, lens.title, htitle⟩
    · rintro ⟨hlt, metric, hmetric, title, htitle⟩
      have hi := (Nat.lt_min.mp hlt).1
      have hindex := htiles.index i items[i] (List.getElem?_eq_getElem hi)
      have hlens : ofItem? text metrics items[i] = some
          ⟨items[i].span, (LineMap.ofText text).lineAt items[i].span.start, title⟩ :=
        ofItem?_eq_some_iff.mpr ⟨⟨metric, by rwa [hindex], htitle⟩, rfl, rfl⟩
      exact ⟨items[i], ⟨List.getElem_mem hi, _, hlens⟩, hindex⟩
  case paired =>
    exact forall₂_map_filter_filterMap fun item hitem lens => isAt_of_ofItem? htiles hitem

theorem pairwise_filterMap (metrics : List Value) :
    (items.filterMap (ofItem? text metrics)).Pairwise fun a b =>
      a.span.stop ≤ b.span.start ∧ a.line < b.line := by
  rw [List.pairwise_filterMap, List.pairwise_iff_getElem]
  intro i j hi hj hlt a ha b hb
  have hitem := List.getElem_mem hi
  have hitem' := List.getElem_mem hj
  obtain ⟨-, hspan, -⟩ := ofItem?_eq_some_iff.mp ha
  obtain ⟨-, hspan', -⟩ := ofItem?_eq_some_iff.mp hb
  obtain ⟨line, hline, -, hstart⟩ := exists_line_of_ofItem? htiles hitem ha
  obtain ⟨line', hline', -, hstart'⟩ := exists_line_of_ofItem? htiles hitem' hb
  have hle : a.span.stop ≤ b.span.start := by
    rw [hspan, hspan']
    exact htiles.stop_le_start hlt (List.getElem?_eq_getElem hi) (List.getElem?_eq_getElem hj)
  have hpos : a.span.start < a.span.stop := by
    rw [hspan]
    exact htiles.nonempty _ hitem
  exact ⟨hle, (start_lt_start_iff hline hline').mp (by omega)⟩

end Tiles

/-- The lenses are those of the items that the first declaration at the left margin governs. -/
theorem ofMetrics_eq {d : Declaration} (hd : d ∈ declarations "metrics" text) (h0 : d.column = 0)
    (hfirst : ∀ e ∈ declarations "metrics" text, e.column = 0 → d.line ≤ e.line)
    (manifest : Manifest) :
    ofMetrics text manifest =
      (itemRangesAt "metrics" d.line text).filterMap (ofItem? text manifest.metrics) := by
  obtain ⟨e, hfind⟩ : ∃ e, (declarations "metrics" text).find? (·.column == 0) = some e :=
    Option.isSome_iff_exists.mp (List.find?_isSome.mpr ⟨d, hd, by simp [h0]⟩)
  -- Only the line of the found declaration matters, so it need not be `d` itself.
  have hline : e.line = d.line := by
    obtain ⟨he, before, after, heq, hnot⟩ := List.find?_eq_some_iff_append.mp hfind
    refine Nat.le_antisymm ?_ (hfirst e (List.mem_of_find?_eq_some hfind) (by simpa using he))
    have hordered := pairwise_line_declarations "metrics" text
    rw [heq] at hd hordered
    rcases List.mem_append.mp hd with hd | hd
    · simpa [h0] using hnot d hd
    · rcases List.mem_cons.mp hd with rfl | hd
      · exact Nat.le_refl _
      · exact Nat.le_of_lt ((List.pairwise_cons.mp (List.pairwise_append.mp hordered).2.1).1 d hd)
  rw [ofMetrics, hfind, ← hline]
  rfl

/-- Without a declaration of metrics at the left margin there are no lenses. Otherwise they name the
items that the first such declaration governs by the metrics of the manifest with the same indices,
and they lie one behind the other. -/
theorem ofMetrics_names_items (hbytes : text.bytes < 2 ^ 32) (manifest : Manifest) :
    ((∀ d ∈ declarations "metrics" text, d.column ≠ 0) → ofMetrics text manifest = []) ∧
      ∀ d ∈ declarations "metrics" text, d.column = 0 →
        (∀ e ∈ declarations "metrics" text, e.column = 0 → d.line ≤ e.line) →
        (∃ indices, Names text (itemRangesAt "metrics" d.line text) manifest.metrics indices
          (ofMetrics text manifest)) ∧
        (ofMetrics text manifest).Pairwise fun a b =>
          a.span.stop ≤ b.span.start ∧ a.line < b.line := by
  constructor
  · intro hnone
    have hfind : (declarations "metrics" text).find? (·.column == 0) = none :=
      List.find?_eq_none.mpr fun d hd => by simpa using hnone d hd
    rw [ofMetrics, hfind]
  · intro d hd h0 hfirst
    rw [ofMetrics_eq hd h0 hfirst]
    by_cases hitems : itemRangesAt "metrics" d.line text = []
    · rw [hitems]
      exact ⟨⟨[], .nil, by simp, .nil⟩, .nil⟩
    · obtain ⟨marker, first, htiles⟩ := exists_tiles_itemRangesAt hbytes hitems
      exact ⟨⟨_, names_filterMap htiles _⟩, pairwise_filterMap htiles _⟩

/-- Metrics within another block ahead of those at the left margin, of which there are four. -/
def innerMetrics : Text :=
  "sql:\n  - metrics:\n    - key: a\nmetrics:\n  - key: b\n  # c\n  - d\n  - metadata:\n  - f".toList

/-- Three metrics, the second of which has no title. -/
def threeMetrics : Manifest :=
  ⟨.map [(.string "metrics", .list [.map [(.string "key", .string "b")], .null,
    .map [(.string "metadata", .map [(.string "displayName", .string "E")]),
      (.string "key", .string "e")]])]⟩

theorem ofMetrics_names_items_innerMetrics :
    (innerMetrics.bytes < 2 ^ 32 ∧ ⟨3, 0, 31⟩ ∈ declarations "metrics" innerMetrics ∧
        ∀ e ∈ declarations "metrics" innerMetrics, e.column = 0 → 3 ≤ e.line) ∧
      ofMetrics innerMetrics threeMetrics = [⟨⟨40, 57⟩, 4, "b"⟩, ⟨⟨63, 77⟩, 7, "E"⟩] ∧
      (∃ indices, Names innerMetrics (itemRangesAt "metrics" 3 innerMetrics) threeMetrics.metrics
        indices (ofMetrics innerMetrics threeMetrics)) ∧
      (ofMetrics innerMetrics threeMetrics).Pairwise fun a b =>
        a.span.stop ≤ b.span.start ∧ a.line < b.line := by
  have hbytes : innerMetrics.bytes < 2 ^ 32 := by cbv
  have hd : ⟨3, 0, 31⟩ ∈ declarations "metrics" innerMetrics := by decide +kernel
  have hfirst : ∀ e ∈ declarations "metrics" innerMetrics, e.column = 0 → 3 ≤ e.line := by
    decide +kernel
  obtain ⟨-, hlenses⟩ := ofMetrics_names_items hbytes threeMetrics
  exact ⟨⟨hbytes, hd, hfirst⟩, by cbv, hlenses _ hd rfl hfirst⟩

end Lens

end ManifestAssist
