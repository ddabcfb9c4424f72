import ManifestAssist.Proofs.Metrics.Comments
import ManifestAssist.Proofs.Metrics.Renaming
import ManifestAssist.Proofs.Text.Trim

/-! # Families without a name

A sample never starts a family without a name, since its series has one. A comment does if two
spaces stand behind its keyword: the name that it tells of lies between them. Such a family is there
to the end unless a sample renames it.
-/

namespace ManifestAssist

open Text

theorem filterMap_eq_append_cons_iff {α β : Type} {f : α → Option β} {l : List α} {b : β}
    {before after : List β} :
    l.filterMap f = before ++ b :: after ↔
      ∃ above a below, l = above ++ a :: below ∧ above.filterMap f = before ∧ f a = some b ∧
        below.filterMap f = after := by
  constructor
  · intro h
    obtain ⟨above, rest, rfl, rfl, hrest⟩ := List.filterMap_eq_append_iff.mp h
    obtain ⟨skipped, a, below, rfl, hskipped, ha, rfl⟩ := List.filterMap_eq_cons_iff.mp hrest
    refine ⟨above ++ skipped, a, below, (List.append_assoc ..).symm, ?_, ha, rfl⟩
    rw [List.filterMap_append, List.filterMap_eq_nil_iff.mpr hskipped, List.append_nil]
  · rintro ⟨above, a, below, rfl, rfl, ha, rfl⟩
    rw [List.filterMap_append, List.filterMap_cons_some ha]

namespace Exposition

variable {line : Text} {told : Exposition} {keyword name : String} {labels : List String}

/-- Is the line a comment that has a keyword in front, then two spaces and then a text? -/
def IsNameless (line : Text) : Prop :=
  ∃ keyword ∈ keywords, ∃ comment rest, trim line = '#' :: comment ∧
    trimStart comment = keyword.toList ++ ' ' :: ' ' :: rest

/-- The family that is told of without a sample. -/
def declared? (told : Exposition) : Option String :=
  told.heading?.map Prod.snd

theorem tells_empty_iff :
    Tells line keyword "" ↔ ∃ comment rest, trim line = '#' :: comment ∧
      trimStart comment = keyword.toList ++ ' ' :: ' ' :: rest := by
  constructor
  · rintro ⟨-, comment, behind, hcomment, hfront, hbehind⟩
    cases behind with
    | nil =>
      -- the line would end in the space behind the keyword, but it is trimmed
      have hne : trim line ≠ [] := by simp [hcomment]
      obtain ⟨c, hc, hblank⟩ := exists_mem_getLast?_trim hne
      obtain ⟨blanks, hblanks⟩ : trimStart comment <:+ comment := List.dropWhile_suffix _
      rw [hfront] at hblanks
      have hlast : '#' :: comment = '#' :: (blanks ++ keyword.toList) ++ [' '] := by
        simp [← hblanks]
      rw [hcomment, hlast, List.getLast?_concat] at hc
      obtain rfl := Option.some.inj hc
      exact absurd (by decide) hblank
    | cons c rest =>
      obtain rfl : c = ' ' := hbehind c rfl
      exact ⟨comment, rest, hcomment, hfront⟩
  · rintro ⟨comment, rest, hcomment, hfront⟩
    refine ⟨List.not_mem_nil, comment, ' ' :: rest, hcomment, hfront, ?_⟩
    rintro c hc
    exact (Option.some.inj hc).symm

theorem isNameless_iff :
    IsNameless line ↔ ∃ told, ofLine? line = some told ∧ told.declared? = some "" := by
  simp only [IsNameless, ← tells_empty_iff, ← bind_ofLine?_heading?_eq_some_iff,
    Option.bind_eq_some_iff, declared?, Option.map_eq_some_iff, Prod.exists, exists_eq_right]
  constructor
  · rintro ⟨keyword, told, hline, hheading⟩
    exact ⟨told, hline, keyword, hheading⟩
  · rintro ⟨told, hline, keyword, hheading⟩
    exact ⟨keyword, told, hline, hheading⟩

theorem ofLine?_ne_sample_empty : ofLine? line ≠ some (.sample "" labels) := by
  intro hline
  by_cases hcomment : IsComment line
  · obtain ⟨_, _, hheading⟩ := exists_heading?_of_isComment hcomment hline
    cases hheading
  · obtain ⟨_, _, htold, hne⟩ := exists_of_not_isComment hcomment hline
    cases htold
    exact hne rfl

end Exposition

namespace Scrape

open Exposition

variable {scrape : Scrape} {told : Exposition} {lines : List Exposition} {name : String}

/-- Does no line rename the family? -/
def Keeps (name : String) : Scrape → List Exposition → Prop
  | _, [] => True
  | scrape, told :: lines => scrape.renamed? told ≠ some name ∧ Keeps name (scrape.add told) lines

theorem contains_add_iff_of_ne_sample (h : ∀ labels, told ≠ .sample name labels) :
    (scrape.add told).contains name ↔
      told.declared? = some name ∨ scrape.contains name ∧ scrape.renamed? told ≠ some name := by
  rw [contains_add_iff]
  cases told with
  | help other help => exact or_congr_left (eq_comm.trans Option.some_inj.symm)
  | kind other kind => exact or_congr_left (eq_comm.trans Option.some_inj.symm)
  | sample series labels =>
    have hseries : name ≠ series := by
      rintro rfl
      exact h labels rfl
    have hdeclared : (Exposition.sample series labels).declared? ≠ some name := nofun
    rw [or_iff_right hdeclared, or_iff_right_of_imp]
    rintro rfl
    rcases scrape.resolve_cases series labels with ⟨other, -, hother, hresolve, hrenamed⟩ |
      ⟨_, _, -, -, hresolve, -⟩
    · simp only [subject, hresolve] at hseries ⊢
      exact ⟨hother.resolve_left hseries, by simp [hrenamed]⟩
    · exact absurd (by simp [subject, hresolve]) hseries

/-- Such a family is there behind some lines if and only if one declares it, or it has been there
before, and none renames it from then on. -/
theorem contains_foldl_add_iff (h : ∀ labels, Exposition.sample name labels ∉ lines) :
    (lines.foldl add scrape).contains name ↔
      scrape.contains name ∧ Keeps name scrape lines ∨
        ∃ before told after, lines = before ++ told :: after ∧ told.declared? = some name ∧
          Keeps name ((before.foldl add scrape).add told) after := by
  apply foldl_iff_of_step (·.contains name = true) (fun _ told => told.declared? = some name)
    (·.renamed? · ≠ some name) (Keeps name) (fun _ => trivial) (fun _ _ _ => Iff.rfl)
  intro scrape told hmem
  apply contains_add_iff_of_ne_sample
  rintro labels rfl
  exact h labels hmem

/-- A scrape has a family without a name if and only if a comment has two spaces behind its keyword
and no sample below renames the family. -/
theorem empty_mem_names_ofExposition_iff (text : Text) :
    "" ∈ (ofExposition text).names ↔
      ∃ above line below, splitAll '\n' text = above ++ line :: below ∧ IsNameless line ∧
        Keeps "" (((above ++ [line]).filterMap ofLine?).foldl add ∅)
          (below.filterMap ofLine?) := by
  have hsample : ∀ labels, Exposition.sample "" labels ∉ (splitAll '\n' text).filterMap ofLine? := by
    intro labels hmem
    obtain ⟨line, -, hline⟩ := List.mem_filterMap.mp hmem
    exact ofLine?_ne_sample_empty hline
  rw [Registry.mem_names_iff, ofExposition, contains_foldl_add_iff hsample]
  have hempty : ¬ Registry.contains (∅ : Scrape) "" := by decide
  rw [or_iff_right fun h => hempty h.1]
  constructor
  · rintro ⟨before, told, after, hread, hdeclared, hkeeps⟩
    obtain ⟨above, line, below, hlines, rfl, hline, rfl⟩ := filterMap_eq_append_cons_iff.mp hread
    refine ⟨above, line, below, hlines, isNameless_iff.mpr ⟨told, hline, hdeclared⟩, ?_⟩
    simpa [List.filterMap_append, hline] using hkeeps
  · rintro ⟨above, line, below, hlines, hnameless, hkeeps⟩
    obtain ⟨told, hline, hdeclared⟩ := isNameless_iff.mp hnameless
    refine ⟨_, told, _, filterMap_eq_append_cons_iff.mpr
      ⟨above, line, below, hlines, rfl, hline, rfl⟩, hdeclared, ?_⟩
    simpa [List.filterMap_append, hline] using hkeeps

/-- A counter without a name is there only until a sample renames it. -/
example : (ofExposition "# TYPE  counter\n_total 3".toList).names = ["_total"] := by
  decide +kernel

/-- A description with two spaces behind the keyword. -/
def doubleSpace : Text :=
  "# HELP  x Requests".toList

theorem not_empty_notMem_names : ¬ ∀ text : Text, "" ∉ (ofExposition text).names := by
  intro h
  exact h doubleSpace (by decide +kernel)

end Scrape

end ManifestAssist
