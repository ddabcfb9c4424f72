import ManifestAssist.Metrics.Exposition
import ManifestAssist.Proofs.Metrics.Registry

/-! # Series and renamed counters

A line of an exposition keeps all families but for a sample that renames a counter. So a series
whose sample was read belongs to a family to the end, unless a later sample renames the only family
that it has then and no line behind that tells of a family of the series again.
-/

namespace ManifestAssist

open Text

/-- What a step starts or keeps holds behind a run if and only if it held before and all steps keep
it, or one of them starts it and all steps from then on keep it. -/
theorem foldl_iff_of_step {σ α : Type} {f : σ → α → σ} {s : σ} {l : List α} (P : σ → Prop)
    (Starts Keeps : σ → α → Prop) (AllKeep : σ → List α → Prop) (hnil : ∀ s, AllKeep s [])
    (hcons : ∀ s a l, AllKeep s (a :: l) ↔ Keeps s a ∧ AllKeep (f s a) l)
    (hstep : ∀ s, ∀ a ∈ l, P (f s a) ↔ Starts s a ∨ P s ∧ Keeps s a) :
    P (l.foldl f s) ↔ P s ∧ AllKeep s l ∨ ∃ before a after, l = before ++ a :: after ∧
      Starts (before.foldl f s) a ∧ AllKeep (f (before.foldl f s) a) after := by
  induction l generalizing s with
  | nil => simp [hnil]
  | cons a l ih =>
    obtain ⟨hhead, htail⟩ := forall_and.mp fun s => List.forall_mem_cons.mp (hstep s)
    rw [List.foldl_cons, ih htail, hhead, hcons]
    constructor
    · rintro (⟨hstarts | ⟨hheld, hkeeps⟩, hall⟩ | ⟨before, b, after, rfl, hlater⟩)
      · exact .inr ⟨[], a, l, rfl, hstarts, hall⟩
      · exact .inl ⟨hheld, hkeeps, hall⟩
      · exact .inr ⟨a :: before, b, after, rfl, hlater⟩
    · rintro (⟨hheld, hkeeps, hall⟩ | ⟨before, b, after, heq, hlater⟩)
      · exact .inl ⟨.inr ⟨hheld, hkeeps⟩, hall⟩
      · cases before with
        | nil =>
          obtain ⟨rfl, rfl⟩ := List.cons.inj heq
          exact .inl ⟨.inl hlater.1, hlater.2⟩
        | cons first before =>
          obtain ⟨rfl, rfl⟩ := List.cons.inj heq
          exact .inr ⟨before, b, after, rfl, hlater⟩

namespace Scrape

variable {scrape : Scrape} {name x series : String} {family : Family} {line : Exposition}
  {labels : List String} {lines : List Exposition}

/-- The names of the families that a series may belong to. -/
def familyNames (series : String) : List String :=
  series :: (distributionSuffixes ++ ["_total"]).filterMap (Family.dropSuffix? series)

/-- The counter that a line renames. -/
def renamed? (scrape : Scrape) : Exposition → Option String
  | .sample series _ =>
    if scrape.contains series ∨ (scrape.distribution? series).isSome then none
    else (scrape.counter? series).map Prod.fst
  | _ => none

/-- The name of the family that a line tells of. -/
def subject (scrape : Scrape) : Exposition → String
  | .help name _ => name
  | .kind name _ => name
  | .sample series _ => (scrape.resolve series).1

theorem dropSuffix?_eq_some {suffix : String} :
    Family.dropSuffix? series suffix = some name ↔ series = name ++ suffix := by
  simp only [Family.dropSuffix?, Option.map_eq_some_iff, dropBack?_eq_some]
  constructor
  · rintro ⟨front, hfront, rfl⟩
    rw [← String.toList_inj, String.toList_append, hfront, String.toList_ofList]
  · rintro rfl
    exact ⟨name.toList, by simp, by simp⟩

theorem family?_eq_findSome? (scrape : Scrape) (series : String) :
    scrape.family? series = (familyNames series).findSome? fun name =>
      (scrape.find? name).map fun family => (name, family) :=
  rfl

theorem isSome_family?_iff :
    (scrape.family? series).isSome ↔ ∃ name ∈ familyNames series, scrape.contains name := by
  rw [family?_eq_findSome?, List.findSome?_isSome_iff]
  simp [Registry.contains]

theorem mem_familyNames_of_distribution? (h : scrape.distribution? series = some name) :
    name ∈ familyNames series := by
  apply List.mem_cons_of_mem
  rw [List.filterMap_append]
  exact List.mem_append_left _ (List.mem_of_find?_eq_some h)

theorem counter?_eq_some (h : scrape.counter? series = some (name, family)) :
    series = name ++ "_total" ∧ scrape.find? name = some family := by
  simp only [counter?, Option.bind_eq_bind, Option.bind_eq_some_iff] at h
  obtain ⟨name', hname, family', hfamily, h⟩ := h
  split at h
  · obtain ⟨rfl, rfl⟩ := Prod.mk.inj (Option.some.inj h)
    exact ⟨dropSuffix?_eq_some.mp hname, hfamily⟩
  · cases h

theorem contains_of_distribution? (h : scrape.distribution? series = some name) :
    scrape.contains name := by
  have hkind := List.find?_some h
  rw [Option.any_eq_true] at hkind
  obtain ⟨family, hfind, -⟩ := hkind
  simp [Registry.contains, hfind]

theorem resolve_cases (scrape : Scrape) (series : String) (labels : List String) :
    (∃ name ∈ familyNames series, (name = series ∨ scrape.contains name) ∧
      scrape.resolve series = (name, scrape) ∧ scrape.renamed? (.sample series labels) = none) ∨
    ∃ name family, scrape.find? name = some family ∧ ¬ scrape.contains series ∧
      scrape.resolve series = (series, (scrape.erase name).insert series family) ∧
      scrape.renamed? (.sample series labels) = some name := by
  by_cases hcontains : scrape.contains series
  · exact .inl ⟨series, List.mem_cons_self, .inl rfl, by simp [resolve, hcontains],
      by simp [renamed?, hcontains]⟩
  · cases hdistribution : scrape.distribution? series with
    | some name =>
      exact .inl ⟨name, mem_familyNames_of_distribution? hdistribution,
        .inr (contains_of_distribution? hdistribution),
        by simp [resolve, hcontains, hdistribution], by simp [renamed?, hdistribution]⟩
    | none =>
      cases hcounter : scrape.counter? series with
      | none =>
        exact .inl ⟨series, List.mem_cons_self, .inl rfl,
          by simp [resolve, hcontains, hdistribution, hcounter],
          by simp [renamed?, hcounter]⟩
      | some found =>
        obtain ⟨name, family⟩ := found
        exact .inr ⟨name, family, (counter?_eq_some hcounter).2, hcontains,
          by simp [resolve, hcontains, hdistribution, hcounter],
          by simp [renamed?, hcontains, hdistribution, hcounter]⟩

theorem subject_sample_mem_familyNames (scrape : Scrape) (series : String) (labels : List String) :
    scrape.subject (.sample series labels) ∈ familyNames series := by
  rcases scrape.resolve_cases series labels with ⟨name, hname, -, hresolve, -⟩ |
    ⟨_, _, -, -, hresolve, -⟩
  · simpa [subject, hresolve] using hname
  · simp [subject, hresolve, familyNames]

theorem contains_add_iff :
    (scrape.add line).contains x ↔
      x = scrape.subject line ∨ scrape.contains x ∧ scrape.renamed? line ≠ some x := by
  cases line with
  | help name help => simp [add, subject, renamed?]
  | kind name kind => simp [add, subject, renamed?]
  | sample series labels =>
    rcases scrape.resolve_cases series labels with ⟨name, -, -, hresolve, hrenamed⟩ |
      ⟨name, family, -, -, hresolve, hrenamed⟩
    · simp [add, subject, hresolve, hrenamed]
    · simp only [add, subject, hresolve, hrenamed, Registry.contains_modify,
        Registry.contains_insert, Registry.contains_erase, ne_eq, Option.some.injEq]
      grind

theorem isSome_family?_add_iff :
    ((scrape.add line).family? series).isSome ↔
      scrape.subject line ∈ familyNames series ∨
        ∃ name ∈ familyNames series, scrape.contains name ∧ scrape.renamed? line ≠ some name := by
  simp only [isSome_family?_iff, contains_add_iff, and_or_left, exists_or, exists_eq_right]

/-- Does a line rename the only family that a series has, to a name that is none of the series? -/
def Orphans (scrape : Scrape) (series : String) (line : Exposition) : Prop :=
  scrape.subject line ∉ familyNames series ∧
    ∃ name ∈ familyNames series, scrape.renamed? line = some name ∧
      ∀ other ∈ familyNames series, scrape.contains other → other = name

/-- Does none of the lines tell of a family of the series? -/
def Unheard (series : String) : Scrape → List Exposition → Prop
  | _, [] => True
  | scrape, line :: lines =>
    scrape.subject line ∉ familyNames series ∧ Unheard series (scrape.add line) lines

theorem family?_add_eq_none_iff :
    (scrape.add line).family? series = none ↔
      scrape.Orphans series line ∨
        scrape.family? series = none ∧ scrape.subject line ∉ familyNames series := by
  rw [← Option.not_isSome_iff_eq_none, isSome_family?_add_iff, not_or,
    ← Option.not_isSome_iff_eq_none, isSome_family?_iff]
  push Not
  constructor
  · rintro ⟨hsubject, hrenamed⟩
    by_cases hknown : ∃ name ∈ familyNames series, scrape.contains name
    · obtain ⟨name, hname, hcontains⟩ := hknown
      have hline := hrenamed name hname hcontains
      refine .inl ⟨hsubject, name, hname, hline, fun other hother hcontains => ?_⟩
      exact Option.some.inj ((hrenamed other hother hcontains).symm.trans hline)
    · push Not at hknown
      exact .inr ⟨hknown, hsubject⟩
  · rintro (⟨hsubject, name, -, hline, honly⟩ | ⟨hunknown, hsubject⟩)
    · refine ⟨hsubject, fun other hother hcontains => ?_⟩
      rw [hline, honly other hother hcontains]
    · exact ⟨hsubject, fun name hname hcontains => absurd hcontains (hunknown name hname)⟩

/-- A series has no family behind some lines if and only if one of them took the last one, or there
was none before, and nothing was heard of any since. -/
theorem family?_foldl_eq_none_iff :
    (lines.foldl add scrape).family? series = none ↔
      (scrape.family? series = none ∧ Unheard series scrape lines) ∨
        ∃ before loss after, lines = before ++ loss :: after ∧
          (before.foldl add scrape).Orphans series loss ∧
          Unheard series ((before.foldl add scrape).add loss) after :=
  foldl_iff_of_step (·.family? series = none) (·.Orphans series) (·.subject · ∉ familyNames series)
    (Unheard series) (fun _ => trivial) (fun _ _ _ => Iff.rfl) fun _ _ _ => family?_add_eq_none_iff

/-- The series of a sample has no family at the end if and only if a later line renames the only one
that it has then and no line behind that tells of one again. -/
theorem family?_ofExposition_eq_none_iff {text line : Text} {above below : List Text}
    (hlines : splitAll '\n' text = above ++ line :: below)
    (hline : Exposition.ofLine? line = some (.sample series labels)) :
    (ofExposition text).family? series = none ↔
      ∃ before loss after, below.filterMap Exposition.ofLine? = before ++ loss :: after ∧
        let scrape := (((above ++ [line]).filterMap Exposition.ofLine?) ++ before).foldl add ∅
        scrape.Orphans series loss ∧ Unheard series (scrape.add loss) after := by
  have hread : (splitAll '\n' text).filterMap Exposition.ofLine? =
      (above ++ [line]).filterMap Exposition.ofLine? ++ below.filterMap Exposition.ofLine? := by
    rw [hlines, ← List.filterMap_append]
    simp
  have hknown : ((((above ++ [line]).filterMap Exposition.ofLine?).foldl add ∅).family?
      series).isSome := by
    simp only [List.filterMap_append, List.filterMap_cons, hline, List.filterMap_nil,
      List.foldl_append, List.foldl_cons, List.foldl_nil]
    exact isSome_family?_add_iff.mpr (.inl (subject_sample_mem_familyNames ..))
  rw [ofExposition, hread, List.foldl_append, family?_foldl_eq_none_iff]
  simp only [List.foldl_append]
  constructor
  · rintro (⟨hnone, -⟩ | hloss)
    · rw [hnone] at hknown
      cases hknown
    · exact hloss
  · exact .inr

/-- A counter with a sample of its own and then one of the suffix. -/
def plainAndTotal : Text :=
  "# TYPE x counter\nx 1\nx_total 2".toList

theorem family?_ofExposition_eq_none_iff_plainAndTotal :
    (splitAll '\n' plainAndTotal =
          ["# TYPE x counter".toList] ++ "x 1".toList :: ["x_total 2".toList] ∧
        Exposition.ofLine? "x 1".toList = some (.sample "x" [])) ∧
      (ofExposition plainAndTotal).family? "x" = none ∧
      ∃ before loss after,
        ["x_total 2".toList].filterMap Exposition.ofLine? = before ++ loss :: after ∧
          let scrape := ((["# TYPE x counter".toList] ++ ["x 1".toList]).filterMap
            Exposition.ofLine? ++ before).foldl add ∅
          scrape.Orphans "x" loss ∧ Unheard "x" (scrape.add loss) after := by
  have hlines : splitAll '\n' plainAndTotal =
      ["# TYPE x counter".toList] ++ "x 1".toList :: ["x_total 2".toList] := by
    cbv
  have hline : Exposition.ofLine? "x 1".toList = some (.sample "x" []) := by cbv
  have hnone : (ofExposition plainAndTotal).family? "x" = none := by decide +kernel
  exact ⟨⟨hlines, hline⟩, hnone, (family?_ofExposition_eq_none_iff hlines hline).mp hnone⟩

theorem not_isSome_family?_of_sample :
    ¬ ∀ (text line : Text) (series : String) (labels : List String), line ∈ splitAll '\n' text →
      Exposition.ofLine? line = some (.sample series labels) →
      ((ofExposition text).family? series).isSome := by
  intro h
  have hsome := h plainAndTotal "x 1".toList "x" [] (by decide +kernel) (by cbv)
  have hnone : (ofExposition plainAndTotal).family? "x" = none := by decide +kernel
  rw [hnone] at hsome
  cases hsome

end Scrape

end ManifestAssist
