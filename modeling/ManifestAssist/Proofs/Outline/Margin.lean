import ManifestAssist.Proofs.Outline.Label

/-! # Margins

Ahead of an entry stand spaces and then list markers, each with spaces behind it. They alone tell
the columns of the line, whatever the entry is.
-/

namespace ManifestAssist

open Text

namespace Outline

/-- List markers, each with one space or more behind it. -/
inductive IsBullets : Text → Prop where
  | nil : IsBullets []
  | cons (n : Nat) {rest : Text} (h : IsBullets rest) :
      IsBullets ('-' :: (List.replicate (n + 1) ' ' ++ rest))

/-- Does an entry start with neither white space nor the sign of a comment nor a marker? -/
structure IsEntry (entry : Text) : Prop where
  starts : ∃ c ∈ entry.head?, ¬ isBlank c ∧ c ≠ '#'
  notMarker : ¬ startsWithMarker entry

theorem IsEntry.of_cons {c : Char} (hblank : ¬ isBlank c) (hhash : c ≠ '#') (hhyphen : c ≠ '-')
    (cs : Text) : IsEntry (c :: cs) :=
  ⟨⟨c, rfl, hblank, hhash⟩, not_startsWithMarker_cons hhyphen⟩

section Margin

variable {bullets entry : Text} {column indent : Nat} (h : IsBullets bullets)
  (hentry : IsEntry entry)

include h hentry

namespace IsBullets

theorem exists_append_eq_cons : ∃ c cs, bullets ++ entry = c :: cs ∧ ¬ isBlank c ∧ c ≠ '#' := by
  cases h with
  | nil =>
    obtain ⟨c, hc, hblank, hhash⟩ := hentry.starts
    obtain ⟨cs, rfl⟩ := List.head?_eq_some_iff.mp hc
    exact ⟨c, cs, rfl, hblank, hhash⟩
  | cons n h => exact ⟨'-', _, rfl, by decide, by decide⟩

theorem startsWithMarker_append : startsWithMarker (bullets ++ entry) = !bullets.isEmpty := by
  cases h with
  | nil => simpa using hentry.notMarker
  | cons n h => rfl

theorem dropMarkers_append : dropMarkers (bullets ++ entry) = entry := by
  induction h with
  | nil => rw [List.nil_append, dropMarkers, if_neg hentry.notMarker]
  | @cons n rest h ih =>
    obtain ⟨c, cs, hcons, hblank, -⟩ := h.exists_append_eq_cons hentry
    have hspaces : dropSpaces (List.replicate (n + 1) ' ' ++ (rest ++ entry)) = rest ++ entry := by
      rw [hcons, dropSpaces_replicate_append hblank]
    have hmarker : startsWithMarker ('-' :: (List.replicate (n + 1) ' ' ++ rest) ++ entry) := rfl
    rw [dropMarkers, if_pos hmarker, List.cons_append, List.tail_cons, List.append_assoc, hspaces, ih]

theorem columnBehindMarkers_append (column : Nat) :
    columnBehindMarkers column (bullets ++ entry) = column + bullets.bytes := by
  have hdrop := h.dropMarkers_append hentry
  have hblank : ¬ (dropMarkers (bullets ++ entry)).all isBlank := by
    obtain ⟨c, hc, hblank, -⟩ := hentry.starts
    rw [hdrop]
    exact fun hall => hblank (List.all_eq_true.mp hall c (List.mem_of_head? hc))
  obtain ⟨front, happend, hcolumn⟩ := exists_append_dropMarkers column hblank
  rw [hdrop] at happend
  rw [hcolumn, List.append_cancel_right happend]

end IsBullets

end Margin

/-- A line with a key behind a margin. -/
def keyLine (indent : Nat) (bullets key rest : Text) : Text :=
  List.replicate indent ' ' ++ bullets ++ (key ++ ':' :: rest)

theorem keyLine_append (indent : Nat) (bullets key rest back : Text) :
    keyLine indent bullets key rest ++ back = keyLine indent bullets key (rest ++ back) := by
  simp [keyLine]

section Key

variable {bullets key rest : Text} {indent : Nat} (h : IsBullets bullets)
  (hentry : IsEntry (key ++ ':' :: rest))

include h hentry

theorem dropSpaces_keyLine :
    dropSpaces (keyLine indent bullets key rest) = bullets ++ (key ++ ':' :: rest) := by
  obtain ⟨c, cs, hcons, hblank, -⟩ := h.exists_append_eq_cons hentry
  rw [keyLine, List.append_assoc, hcons, dropSpaces_replicate_append hblank]

theorem indent?_keyLine : indent? (keyLine indent bullets key rest) = some indent := by
  obtain ⟨c, cs, hcons, hblank, hhash⟩ := h.exists_append_eq_cons hentry
  rw [keyLine, List.append_assoc, hcons, indent?, dropSpaces_replicate_append hblank,
    trimEnd_cons hblank]
  simp [hhash, leadingSpaces_replicate_append hblank]

theorem marker?_keyLine :
    marker? (keyLine indent bullets key rest) = if bullets.isEmpty then none else some indent := by
  rw [marker?, indent?_keyLine h hentry, dropSpaces_keyLine h hentry,
    h.startsWithMarker_append hentry]
  cases bullets <;> rfl

theorem contentColumn?_keyLine :
    contentColumn? (keyLine indent bullets key rest) = some (indent + bullets.bytes) := by
  rw [contentColumn?, indent?_keyLine h hentry, dropSpaces_keyLine h hentry]
  simp only [Option.bind_eq_bind, Option.bind_some, h.columnBehindMarkers_append hentry]
  rfl

theorem content_keyLine : content (keyLine indent bullets key rest) = key ++ ':' :: rest := by
  rw [content, dropSpaces_keyLine h hentry, h.dropMarkers_append hentry]

variable (hcolon : ':' ∉ key)

include hcolon

theorem label?_keyLine :
    label? (keyLine indent bullets key rest) =
      if (unquote (trim key)).isEmpty then none else some (String.ofList (unquote (trim key))) := by
  rw [label?, content_keyLine h hentry, splitFirst_append_cons hcolon]
  rfl

theorem declares_keyLine (label : String) :
    declares (keyLine indent bullets key rest) label =
      (String.ofList (unquote (trimEnd key)) == label) := by
  rw [declares, content_keyLine h hentry, splitFirst_append_cons hcolon]

end Key

end Outline

end ManifestAssist
