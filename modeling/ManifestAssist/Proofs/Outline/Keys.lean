import ManifestAssist.Proofs.Outline.Margin

/-! # Keys and their two readings

A key stands behind a margin, as it is or in quotes. Written so, it is read back by all that the
outline reads of a line. A line is read in two ways for its key: what its label is, and whether it
declares a given one. Both leave out the margin and the white space behind the key, but only the
first one leaves out other white space ahead of the key. So the two readings are the same unless
such white space is there, and then they are never the same.
-/

namespace ManifestAssist

open Text

namespace Outline

/-- How a key is written. -/
inductive Quoting where
  | plain
  | single
  | double
  deriving DecidableEq, Repr

/-- A text between two quotes of one kind. -/
def quoted (quote : Char) (text : Text) : Text :=
  quote :: (text ++ [quote])

def Quoting.write (key : Text) : Quoting → Text
  | plain => key
  | single => quoted '\'' key
  | double => quoted '"' key

/-- Is a key the same with white space trimmed and quotes taken off, and can it not be mistaken for
a comment or a list item? -/
structure IsPlainKey (key : Text) : Prop where
  starts : ∀ c ∈ key.head?, ¬ isBlank c ∧ c ≠ '"' ∧ c ≠ '\'' ∧ c ≠ '#'
  ends : ∀ c ∈ key.getLast?, ¬ isBlank c
  notMarked : ∀ c rest, key = '-' :: c :: rest → c ≠ ' ' ∧ c ≠ '\r'

/-- List markers with as many spaces behind each as told. -/
def markers (gaps : List Nat) : Text :=
  gaps.flatMap fun gap => '-' :: List.replicate gap ' '

section Markers

variable {gaps : List Nat}

theorem isBullets_markers (h : ∀ gap ∈ gaps, 1 ≤ gap) : IsBullets (markers gaps) := by
  induction gaps with
  | nil => exact .nil
  | cons gap gaps ih =>
    obtain ⟨hgap, hgaps⟩ := List.forall_mem_cons.mp h
    obtain ⟨n, rfl⟩ := Nat.exists_eq_add_of_le' hgap
    exact .cons n (ih hgaps)

theorem markers_eq_nil_iff : markers gaps = [] ↔ gaps = [] := by
  cases gaps <;> simp [markers]

theorem bytes_markers (gaps : List Nat) : (markers gaps).bytes = (gaps.map (1 + ·)).sum := by
  have hsize : Char.utf8Size '-' = 1 := by decide
  induction gaps with
  | nil => rfl
  | cons gap gaps ih =>
    have hgap := bytes_replicate_space gap
    simp only [markers, bytes, List.flatMap_cons, width_append, width_cons, List.map_cons,
      List.sum_cons, hsize] at ih hgap ⊢
    omega

end Markers

section Written

variable {key : Text} {quoting : Quoting}

theorem getLast?_quoted (quote : Char) (text : Text) :
    (quoted quote text).getLast? = some quote := by
  rw [quoted, ← List.cons_append, List.getLast?_concat]

theorem betweenQuotes?_eq_some_iff {quote : Char} {text inner : Text} :
    betweenQuotes? quote text = some inner ↔ text = quoted quote inner := by
  simp only [betweenQuotes?, Option.bind_eq_bind, Option.bind_eq_some_iff, dropFront?_eq_some,
    dropBack?_eq_some]
  constructor
  · rintro ⟨rest, rfl, rfl⟩
    rfl
  · rintro rfl
    exact ⟨_, rfl, rfl⟩

theorem unquote_write (hne : key ≠ []) (hplain : quoting = .plain → IsPlainKey key) :
    unquote (quoting.write key) = key := by
  have hquoted (quote : Char) : betweenQuotes? quote (quoted quote key) = some key :=
    betweenQuotes?_eq_some_iff.mpr rfl
  cases quoting with
  | plain =>
    obtain ⟨c, cs, rfl⟩ := List.exists_cons_of_ne_nil hne
    obtain ⟨-, hdouble, hsingle, -⟩ := (hplain rfl).starts c rfl
    exact unquote_cons hdouble hsingle
  | single =>
    have hdouble : betweenQuotes? '"' (quoted '\'' key) = none := by
      simp [betweenQuotes?, dropFront?, quoted]
    rw [Quoting.write, unquote, hdouble, hquoted]
    rfl
  | double =>
    rw [Quoting.write, unquote, hquoted]
    rfl

theorem not_isBlank_ends_write (hplain : quoting = .plain → IsPlainKey key) :
    (∀ c ∈ (quoting.write key).head?, ¬ isBlank c) ∧
      ∀ c ∈ (quoting.write key).getLast?, ¬ isBlank c := by
  have hquoted {quote : Char} (hblank : ¬ isBlank quote) :
      (∀ c ∈ (quoted quote key).head?, ¬ isBlank c) ∧
        ∀ c ∈ (quoted quote key).getLast?, ¬ isBlank c := by
    constructor
    · rintro c ⟨⟩
      exact hblank
    · rw [getLast?_quoted]
      rintro c ⟨⟩
      exact hblank
  cases quoting with
  | plain => exact ⟨fun c hc => ((hplain rfl).starts c hc).1, (hplain rfl).ends⟩
  | single => exact hquoted (by decide)
  | double => exact hquoted (by decide)

theorem trim_write (hplain : quoting = .plain → IsPlainKey key) :
    trim (quoting.write key) = quoting.write key := by
  obtain ⟨hhead, hlast⟩ := not_isBlank_ends_write hplain
  exact trimWhile_eq_self hhead hlast

theorem trimEnd_write (hplain : quoting = .plain → IsPlainKey key) :
    trimEnd (quoting.write key) = quoting.write key :=
  dropEndWhile_eq_self (not_isBlank_ends_write hplain).2

theorem colon_notMem_write (hcolon : ':' ∉ key) (quoting : Quoting) : ':' ∉ quoting.write key := by
  cases quoting <;> simp [Quoting.write, quoted, hcolon]

theorem IsPlainKey.not_startsWithMarker (h : IsPlainKey key) (hne : key ≠ []) (rest : Text) :
    ¬ startsWithMarker (key ++ ':' :: rest) := by
  obtain ⟨c, cs, rfl⟩ := List.exists_cons_of_ne_nil hne
  by_cases hhyphen : c = '-'
  · subst hhyphen
    cases cs with
    | nil => simp [startsWithMarker]
    | cons d ds => simpa [startsWithMarker] using h.notMarked d ds rfl
  · exact not_startsWithMarker_cons hhyphen

theorem isEntry_write (hne : key ≠ []) (hplain : quoting = .plain → IsPlainKey key) (rest : Text) :
    IsEntry (quoting.write key ++ ':' :: rest) := by
  cases quoting with
  | plain =>
    obtain ⟨c, cs, rfl⟩ := List.exists_cons_of_ne_nil hne
    obtain ⟨hblank, -, -, hhash⟩ := (hplain rfl).starts c rfl
    exact ⟨⟨c, rfl, hblank, hhash⟩, (hplain rfl).not_startsWithMarker hne rest⟩
  | single => exact .of_cons (c := '\'') (by decide) (by decide) (by decide) _
  | double => exact .of_cons (c := '"') (by decide) (by decide) (by decide) _

/-- A key that is written behind a margin is read back, with its margin, in every way that a line is
read. -/
theorem keyLine_read_back (indent : Nat) {gaps : List Nat} (hgaps : ∀ gap ∈ gaps, 1 ≤ gap)
    (hne : key ≠ []) (hcolon : ':' ∉ key) (hplain : quoting = .plain → IsPlainKey key)
    (rest : Text) :
    let line := keyLine indent (markers gaps) (quoting.write key) rest
    indent? line = some indent ∧
      marker? line = (if gaps = [] then none else some indent) ∧
      contentColumn? line = some (indent + (gaps.map (1 + ·)).sum) ∧
      content line = quoting.write key ++ ':' :: rest ∧
      label? line = some (String.ofList key) ∧
      ∀ label, declares line label ↔ label = String.ofList key := by
  have hbullets := isBullets_markers hgaps
  have hentry := isEntry_write hne hplain rest
  have hwritten := colon_notMem_write hcolon quoting
  have hunquote := unquote_write hne hplain
  refine ⟨indent?_keyLine hbullets hentry, ?_, ?_, content_keyLine hbullets hentry, ?_, ?_⟩
  · rw [marker?_keyLine hbullets hentry]
    simp only [List.isEmpty_iff, markers_eq_nil_iff]
  · rw [contentColumn?_keyLine hbullets hentry, bytes_markers]
  · rw [label?_keyLine hbullets hentry hwritten, trim_write hplain, hunquote]
    simp [hne]
  · intro label
    rw [declares_keyLine hbullets hentry hwritten, trimEnd_write hplain, hunquote, beq_iff_eq,
      eq_comm]

/-- A key that needs no quotes, although it starts with a hyphen and has a quote inside. -/
def hyphenKey : Text := "-ä 'b".toList

theorem isPlainKey_hyphenKey : IsPlainKey hyphenKey where
  starts := by simp [hyphenKey, isBlank]
  ends := by simp [hyphenKey, isBlank]
  notMarked := by simp [hyphenKey]

theorem keyLine_read_back_hyphenKey :
    let line := keyLine 2 (markers [1, 3]) hyphenKey " - c: d".toList
    (∀ gap ∈ [1, 3], 1 ≤ gap) ∧ hyphenKey ≠ [] ∧ ':' ∉ hyphenKey ∧
      (Quoting.plain = .plain → IsPlainKey hyphenKey) ∧
      line = "  - -   -ä 'b: - c: d".toList ∧
      indent? line = some 2 ∧ marker? line = some 2 ∧ contentColumn? line = some 8 ∧
      content line = "-ä 'b: - c: d".toList ∧ label? line = some "-ä 'b" ∧
      ∀ label, declares line label ↔ label = "-ä 'b" := by
  have hgaps : ∀ gap ∈ [1, 3], 1 ≤ gap := by decide
  have hne : hyphenKey ≠ [] := by decide
  have hcolon : ':' ∉ hyphenKey := by decide
  have hplain (_ : Quoting.plain = .plain) : IsPlainKey hyphenKey := isPlainKey_hyphenKey
  exact ⟨hgaps, hne, hcolon, hplain, by decide,
    keyLine_read_back 2 hgaps hne hcolon hplain " - c: d".toList⟩

end Written

section Readings

variable {line key rest : Text} {label : String}

/-- Does white space that is not of the margin stand ahead of the key of a line? -/
def HasLooseKey (line : Text) : Prop :=
  ∃ key rest, content line = key ++ ':' :: rest ∧ ':' ∉ key ∧ (∃ c ∈ key.head?, isBlank c) ∧
    ∃ c ∈ key, ¬ isBlank c

theorem hasLooseKey_iff :
    HasLooseKey line ↔ ∃ key rest, splitFirst ':' (content line) = some (key, rest) ∧
      (∃ c ∈ key.head?, isBlank c) ∧ trim key ≠ [] := by
  simp only [HasLooseKey, splitFirst_eq_some_iff, ne_eq, trim_eq_nil_iff, not_forall, exists_prop,
    and_assoc, and_left_comm (a := content line = _)]

theorem declares_iff (hkey : splitFirst ':' (content line) = some (key, rest)) :
    declares line label ↔ label = String.ofList (unquote (trimEnd key)) := by
  rw [declares, hkey, beq_iff_eq, eq_comm]

theorem HasLooseKey.exists_declares (h : HasLooseKey line) :
    ∃ label, label ≠ "" ∧ declares line label := by
  obtain ⟨key, rest, hkey, ⟨c, hc, hblank⟩, htrim⟩ := hasLooseKey_iff.mp h
  obtain ⟨cs, rfl⟩ := List.head?_eq_some_iff.mp hc
  refine ⟨_, ?_, (declares_iff hkey).mpr rfl⟩
  rw [trimEnd_eq_append_trim htrim, List.takeWhile_cons_of_pos hblank, List.cons_append,
    unquote_of_blank hblank]
  simp

theorem HasLooseKey.label?_ne (h : HasLooseKey line) (hdeclares : declares line label) :
    label? line ≠ some label := by
  obtain ⟨key, rest, hcontent, -, ⟨c, hc, hblank⟩, -⟩ := h
  obtain ⟨cs, rfl⟩ := List.head?_eq_some_iff.mp hc
  intro hlabel
  exact (declares_iff_of_label?_eq_some hlabel).mp hdeclares c (by rw [hcontent]; rfl) hblank

/-- On a line without a loose key the two readings are the same. -/
theorem declares_iff_label?_of_not_hasLooseKey (h : ¬ HasLooseKey line) (hne : label ≠ "") :
    declares line label ↔ label? line = some label := by
  cases hkey : splitFirst ':' (content line) with
  | none => simp [declares, label?, hkey]
  | some parts =>
    obtain ⟨key, rest⟩ := parts
    have htrim : trimEnd key = trim key := by
      refine trimEnd_eq_trim fun hhead => ?_
      by_contra htrim
      exact h (hasLooseKey_iff.mpr ⟨key, rest, hkey, hhead, htrim⟩)
    rw [declares_iff hkey, htrim, label?_eq_some_iff]
    constructor
    · rintro rfl
      exact ⟨key, rest, hkey, fun hnil => hne (by rw [hnil]), rfl⟩
    · rintro ⟨key', rest', hkey', -, rfl⟩
      obtain ⟨rfl, -⟩ := Prod.mk.inj (Option.some.inj (hkey.symm.trans hkey'))
      rfl

/-- A line declares exactly its label unless its key is loose, and then it declares another one than
its label. -/
theorem forall_declares_iff_label?_iff (line : Text) :
    ((∀ label, label ≠ "" → (declares line label ↔ label? line = some label)) ↔
      ¬ HasLooseKey line) ∧
    (HasLooseKey line → ∀ label, declares line label → label? line ≠ some label) := by
  refine ⟨⟨fun hall h => ?_, fun h label => declares_iff_label?_of_not_hasLooseKey h⟩,
    fun h label => h.label?_ne⟩
  obtain ⟨label, hne, hdeclares⟩ := h.exists_declares
  exact h.label?_ne hdeclares ((hall label hne).mp hdeclares)

theorem not_forall_declares_iff_label? :
    ¬ ∀ (line : Text) (label : String), label ≠ "" →
      (declares line label ↔ label? line = some label) := by
  intro h
  have hlabel : label? "\tb:".toList = some "b" := by cbv
  have hdeclares : declares "\tb:".toList "b" = false := by cbv
  have hagree := (h "\tb:".toList "b" (by decide)).mpr hlabel
  rw [hdeclares] at hagree
  cases hagree

end Readings

end Outline

end ManifestAssist
