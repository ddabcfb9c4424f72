import ManifestAssist.Proofs.Metrics.Labels
import ManifestAssist.Proofs.Text.Lines
import ManifestAssist.Proofs.Text.Split
import ManifestAssist.Proofs.Text.Trim

/-! # Written samples

Samples as a scrape writes them, one on a line, and what is read of them. The value of a label may
hold any characters: those that would end it have a backslash in front. Without descriptions and
kinds, each series is a family of its own.
-/

namespace ManifestAssist

open Text

namespace Exposition

/-- A label with its value. -/
structure Label where
  name : Text
  value : Text
  name_ne_nil : name ≠ []
  plain : ∀ c ∈ name, ¬ isBlank c ∧ c ≠ '=' ∧ c ≠ ',' ∧ c ≠ '\x7d'

/-- A number of a series, perhaps with labels. Braces may also hold none. -/
structure Sample where
  series : Text
  labels? : Option (List Label)
  number : Text
  starts : ∃ c ∈ series.head?, c ≠ '#'
  plain : ∀ c ∈ series, ¬ isBlank c ∧ c ≠ '\x7b'
  number_ne_nil : number ≠ []
  number_plain : ∀ c ∈ number, ¬ isBlank c

/-- A character as it stands in a value. -/
def escaped (c : Char) : Text :=
  match c with
  | '\\' => ['\\', '\\']
  | '"' => ['\\', '"']
  | '\n' => ['\\', 'n']
  | c => [c]

def Label.text (label : Label) : Text :=
  label.name ++ '=' :: '"' :: label.value.flatMap escaped ++ ['"']

/-- What stands between a series and its number. -/
def bracesText : Option (List Label) → Text
  | none => []
  | some labels => '\x7b' :: [','].intercalate (labels.map Label.text) ++ ['\x7d']

namespace Sample

def text (sample : Sample) : Text :=
  sample.series ++ bracesText sample.labels? ++ ' ' :: sample.number

def name (sample : Sample) : String :=
  String.ofList sample.series

def labelNames (sample : Sample) : List String :=
  (sample.labels?.getD []).map fun label => String.ofList label.name

end Sample

/-- Samples one on a line, the last of which may be closed, too. -/
def written (samples : List Sample) (isClosed : Bool) : Text :=
  ['\n'].intercalate (samples.map Sample.text) ++ if isClosed then ['\n'] else []

section Labels

variable {label : Label} {rest : Text}

theorem behindValue?_escaped (c : Char) (rest : Text) :
    behindValue? (escaped c ++ rest) = behindValue? rest := by
  unfold escaped
  split
  · rfl
  · rfl
  · rfl
  · next hbackslash hquote _ =>
    rw [List.singleton_append, behindValue?]
    · exact fun h => absurd h hbackslash
    · exact fun _ _ h => absurd h hbackslash
    · exact hquote

theorem behindValue?_flatMap_escaped (value rest : Text) :
    behindValue? (value.flatMap escaped ++ '"' :: rest) = some rest := by
  induction value with
  | nil => rfl
  | cons c value ih => rw [List.flatMap_cons, List.append_assoc, behindValue?_escaped, ih]

theorem label?_text_append (label : Label) (rest : Text) :
    label? (label.text ++ rest) = some (String.ofList label.name, rest) := by
  have hequals : '=' ∉ label.name := fun h => (label.plain '=' h).2.1 rfl
  have htrim : trim label.name = label.name :=
    trimWhile_eq_self_of_forall fun c hc => (label.plain c hc).1
  have htext : label.text ++ rest =
      label.name ++ '=' :: ('"' :: (label.value.flatMap escaped ++ '"' :: rest)) := by
    simp [Label.text]
  have hquote (rest : Text) : dropFront? (trimStart ('"' :: rest)) ['"'] = some rest := by
    rw [trimStart, List.dropWhile_cons_of_neg (by decide), dropFront?_eq_some]
    rfl
  simp only [label?, htext, splitFirst_append_cons hequals, hquote, htrim,
    behindValue?_flatMap_escaped, Option.bind_eq_bind, Option.bind_some, Option.pure_def]

theorem exists_text_append_eq_cons (label : Label) (rest : Text) :
    ∃ c cs, label.text ++ rest = c :: cs ∧ ¬ isBlank c ∧ c ≠ ',' ∧ c ≠ '\x7d' := by
  obtain ⟨c, cs, hname⟩ := List.exists_cons_of_ne_nil label.name_ne_nil
  obtain ⟨hblank, -, hcomma, hbrace⟩ := label.plain c (by simp [hname])
  exact ⟨c, _, by rw [Label.text, hname]; rfl, hblank, hcomma, hbrace⟩

theorem labels?_text_append (label : Label) (rest : Text) :
    labels? (label.text ++ rest) = (labels? rest).map (String.ofList label.name :: ·) := by
  obtain ⟨c, cs, hcs, hblank, hcomma, hbrace⟩ := exists_text_append_eq_cons label rest
  have hspace : c ≠ ' ' := by
    rintro rfl
    exact hblank (by decide)
  have hskip : skipSeparators (label.text ++ rest) = label.text ++ rest := by
    rw [hcs, skipSeparators, List.dropWhile_cons_of_neg (by simp [hspace, hcomma])]
  have hmore : ((label.text ++ rest).isEmpty || (label.text ++ rest).head? == some '\x7d') =
      false := by
    simp [hcs, hbrace]
  rw [labels?, hskip, hmore]
  split
  · contradiction
  · split
    · next hlabel => simp [label?_text_append] at hlabel
    · next name rest' hlabel =>
      rw [label?_text_append, Option.some.injEq, Prod.mk.injEq] at hlabel
      obtain ⟨rfl, rfl⟩ := hlabel
      rfl

theorem labels?_comma (rest : Text) : labels? (',' :: rest) = labels? rest := by
  have hskip : skipSeparators (',' :: rest) = skipSeparators rest := rfl
  rw [labels?, hskip, ← labels?]

theorem labels?_intercalate (labels : List Label) (rest : Text) :
    labels? ([','].intercalate (labels.map Label.text) ++ '\x7d' :: rest) =
      some (labels.map fun label => String.ofList label.name) := by
  induction labels with
  | nil =>
    rw [labels?]
    rfl
  | cons label labels ih =>
    cases labels with
    | nil =>
      rw [List.map_nil] at ih
      rw [List.map_singleton, List.intercalate_singleton, labels?_text_append]
      exact congrArg (Option.map _) ih
    | cons next labels =>
      rw [List.map_cons, List.map_cons, List.intercalate_cons_cons, List.append_assoc,
        List.append_assoc, labels?_text_append, List.singleton_append, labels?_comma,
        ← List.map_cons, ih]
      rfl

theorem newline_notMem_escaped (c : Char) : '\n' ∉ escaped c := by
  unfold escaped
  split
  · decide
  · decide
  · decide
  · next hnewline => simpa using Ne.symm hnewline

theorem newline_notMem_labelText (label : Label) : '\n' ∉ label.text := by
  have hname : '\n' ∉ label.name := fun h => (label.plain _ h).1 (by decide)
  simp [Label.text, hname, newline_notMem_escaped]

theorem newline_notMem_bracesText (labels? : Option (List Label)) :
    '\n' ∉ bracesText labels? := by
  cases labels? with
  | none => exact List.not_mem_nil
  | some labels =>
    have hlabels : '\n' ∉ [','].intercalate (labels.map Label.text) := by
      induction labels with
      | nil => exact List.not_mem_nil
      | cons label labels ih =>
        cases labels with
        | nil => simpa using newline_notMem_labelText label
        | cons next labels =>
          rw [List.map_cons, List.map_cons, List.intercalate_cons_cons, ← List.map_cons,
            List.mem_append, List.mem_append, not_or, not_or]
          exact ⟨⟨newline_notMem_labelText label, by decide⟩, ih⟩
    simp [bracesText, hlabels]

end Labels

namespace Sample

variable (sample : Sample)

theorem exists_series_eq_cons :
    ∃ c cs, sample.series = c :: cs ∧ ¬ isBlank c ∧ c ≠ '#' := by
  obtain ⟨c, hc, hhash⟩ := sample.starts
  obtain ⟨cs, hcs⟩ := List.head?_eq_some_iff.mp hc
  exact ⟨c, cs, hcs, (sample.plain c (by simp [hcs])).1, hhash⟩

theorem trim_text : trim sample.text = sample.text := by
  apply trimWhile_eq_self
  · obtain ⟨c, cs, hcs, hblank, -⟩ := sample.exists_series_eq_cons
    simpa [text, hcs] using hblank
  · intro c hc
    rw [text, List.getLast?_append_cons, List.getLast?_cons_of_ne_nil sample.number_ne_nil] at hc
    exact sample.number_plain c (List.mem_of_getLast? hc)

theorem span_text :
    sample.text.span (fun c => !(c == '\x7b' || isBlank c)) =
      (sample.series, bracesText sample.labels? ++ ' ' :: sample.number) := by
  have hseries : ∀ c ∈ sample.series, !(c == '\x7b' || isBlank c) := by
    intro c hc
    simp [sample.plain c hc]
  have hrest : (bracesText sample.labels? ++ ' ' :: sample.number).takeWhile
      (fun c => !(c == '\x7b' || isBlank c)) = [] := by
    cases sample.labels? <;> rfl
  rw [List.span_eq_takeWhile_dropWhile, text, List.append_assoc,
    List.takeWhile_append_of_pos hseries, List.dropWhile_append_of_pos hseries, hrest,
    List.append_nil]
  cases sample.labels? <;> rfl

theorem ofSample?_text : ofSample? sample.text = some (.sample sample.name sample.labelNames) := by
  have hne : (!sample.series.isEmpty) = true := by
    obtain ⟨c, cs, hcs, -⟩ := sample.exists_series_eq_cons
    simp [hcs]
  simp only [ofSample?, sample.span_text, hne, guard_true, Option.bind_eq_bind, Option.pure_def,
    Option.bind_some, name, labelNames]
  cases sample.labels? with
  | none => rfl
  | some labels =>
    simp only [bracesText, List.cons_append, List.append_assoc, labels?_intercalate,
      Option.bind_some, Option.getD_some]

theorem ofLine?_text : ofLine? sample.text = some (.sample sample.name sample.labelNames) := by
  obtain ⟨c, cs, hcs, -, hhash⟩ := sample.exists_series_eq_cons
  rw [ofLine?, sample.trim_text, ← sample.ofSample?_text]
  split
  · next hnil => simp [text, hcs] at hnil
  · next hcomment =>
    rw [text, hcs, List.cons_append, List.cons_append, List.cons.injEq] at hcomment
    exact absurd hcomment.1 hhash
  · next htext => rw [htext]

theorem newline_notMem_text : '\n' ∉ sample.text := by
  have hblank : isBlank '\n' := by decide
  have hseries : '\n' ∉ sample.series := fun h => (sample.plain _ h).1 hblank
  have hnumber : '\n' ∉ sample.number := fun h => sample.number_plain _ h hblank
  have hbraces := newline_notMem_bracesText sample.labels?
  simp [text, hseries, hnumber, hbraces]

end Sample

/-- Each line that is written is read as the sample that it was written for. -/
theorem filterMap_ofLine?_written (samples : List Sample) (isClosed : Bool) :
    (splitAll '\n' (written samples isClosed)).filterMap ofLine? =
      samples.map fun sample => .sample sample.name sample.labelNames := by
  have hopen : (splitAll '\n' (['\n'].intercalate (samples.map Sample.text))).filterMap ofLine? =
      samples.map fun sample => .sample sample.name sample.labelNames := by
    by_cases hnil : samples = []
    · subst hnil
      rfl
    · have hlines : ∀ line ∈ samples.map Sample.text, '\n' ∉ line := by
        rintro _ hline
        obtain ⟨sample, -, rfl⟩ := List.mem_map.mp hline
        exact sample.newline_notMem_text
      rw [splitAll_intercalate (by simpa using hnil) hlines, List.filterMap_map]
      simp only [Function.comp_def, Sample.ofLine?_text, List.filterMap_eq_map']
  cases isClosed with
  | false =>
    rw [written, if_neg Bool.false_ne_true, List.append_nil, hopen]
  | true =>
    rw [written, if_pos rfl, splitAll_append_cons, List.filterMap_append, hopen]
    exact List.append_nil _

end Exposition

namespace Scrape

open Exposition (Sample written)

variable {scrape : Scrape} {name : String}

theorem resolve_of_untyped
    (h : ∀ name family, scrape.find? name = some family → family.kind = .untyped)
    (series : String) : scrape.resolve series = (series, scrape) := by
  have hdistribution : scrape.distribution? series = none := by
    apply List.find?_eq_none.mpr
    intro name _
    cases hfind : scrape.find? name with
    | none => simp
    | some family => simp [h name family hfind, MetricKind.isDistribution]
  have hcounter : scrape.counter? series = none := by
    simp only [counter?, Option.bind_eq_bind, Option.bind_eq_none_iff]
    intro name _ family hfind
    rw [if_neg (by simp [h name family hfind])]
  simp [resolve, hdistribution, hcounter]

/-- The labels that the samples of a series show, apart from those of parts of a distribution. -/
def shownLabels (samples : List Sample) (name : String) : List String :=
  ((samples.filter (·.name = name)).flatMap (·.labelNames)).filter fun label =>
    !(["le", "quantile"].contains label)

theorem shownLabels_concat (samples : List Sample) (sample : Sample) :
    shownLabels (samples ++ [sample]) name =
      shownLabels samples name ++
        if sample.name = name then sample.labelNames.filter Family.isOwnLabel else [] := by
  rw [shownLabels, List.filter_append, List.flatMap_append, List.filter_append]
  congr 1
  split
  · next hname =>
    rw [List.filter_cons_of_pos (by simpa using hname), List.filter_nil, List.flatMap_singleton]
    rfl
  · next hname => rw [List.filter_cons_of_neg (by simpa using hname)]; rfl

theorem shownLabels_of_notMem {samples : List Sample} (h : name ∉ samples.map Sample.name) :
    shownLabels samples name = [] := by
  have hnone : samples.filter (·.name = name) = [] := by
    apply List.filter_eq_nil_iff.mpr
    rintro sample hsample hname
    exact h (List.mem_map.mpr ⟨sample, hsample, by simpa using hname⟩)
  rw [shownLabels, hnone]
  rfl

theorem find?_foldl_add_samples (samples : List Sample) (name : String) :
    Registry.find? ((samples.map fun sample =>
        Exposition.sample sample.name sample.labelNames).foldl add ∅) name =
      if name ∈ samples.map Sample.name then
        some ⟨.untyped, none, (shownLabels samples name).eraseDups⟩
      else none := by
  -- From the right: a sample is added to the families of those ahead of it.
  induction samples using List.reverseRecOn generalizing name with
  | nil => rfl
  | append_singleton samples sample ih =>
    rw [List.map_append, List.foldl_append, List.map_singleton, List.foldl_cons, List.foldl_nil]
    generalize (samples.map fun sample =>
      Exposition.sample sample.name sample.labelNames).foldl add ∅ = scrape at ih ⊢
    have huntyped : ∀ name family, scrape.find? name = some family → family.kind = .untyped := by
      intro name family hfind
      rw [ih] at hfind
      split at hfind
      · obtain rfl := Option.some.inj hfind
        rfl
      · cases hfind
    rw [add, resolve_of_untyped huntyped]
    change Registry.find? (scrape.modify sample.name {} (·.addLabels sample.labelNames)) name = _
    rw [Registry.find?_modify, shownLabels_concat]
    by_cases hname : name = sample.name
    · subst hname
      have hfamily : (scrape.find? sample.name).getD {} =
          ⟨.untyped, none, (shownLabels samples sample.name).eraseDups⟩ := by
        rw [ih]
        split
        · rfl
        · next hunknown => rw [shownLabels_of_notMem hunknown]; rfl
      rw [if_pos rfl, if_pos rfl, if_pos (by simp), hfamily, Family.addLabels_mk]
    · have hmem : name ∈ (samples ++ [sample]).map Sample.name ↔
          name ∈ samples.map Sample.name := by
        simp [hname]
      simp only [hname, Ne.symm hname, if_false, List.append_nil, ih, hmem]

/-- The families of written samples are their series, of no known kind and without a description. A
family has the labels of its samples, each once, in the order in which they first appear. -/
theorem find?_ofExposition_written (samples : List Sample) (isClosed : Bool) (name : String) :
    (ofExposition (written samples isClosed)).find? name =
      if name ∈ samples.map Sample.name then
        some ⟨.untyped, none, (shownLabels samples name).eraseDups⟩
      else none := by
  rw [ofExposition, Exposition.filterMap_ofLine?_written]
  exact find?_foldl_add_samples samples name

/-- A value with all that could end it, ahead of the label that tells the parts of a histogram. -/
def awkwardValue : Sample where
  series := ['x']
  labels? := some [⟨['a'], "\\\",b=\"\x7d\n # \\".toList, by decide, by simp [isBlank]⟩,
    ⟨['l', 'e'], ['1'], by decide, by simp [isBlank]⟩]
  number := ['2']
  starts := ⟨'x', rfl, by decide⟩
  plain := by simp [isBlank]
  number_ne_nil := by decide
  number_plain := by simp [isBlank]

example : (ofExposition (written [awkwardValue, awkwardValue] true)).entries =
    [("x", ⟨.untyped, none, ["a"]⟩)] := by
  decide +kernel

end Scrape

end ManifestAssist
