import ManifestAssist.Proofs.Completion.Edits
import ManifestAssist.Proofs.Outline.Margin

/-! # Margins of slots

A slot is read behind the same spaces and list markers that the outline reads a line behind. Its key
may stand in any quotes, and its value ends what is typed.
-/

namespace ManifestAssist

open Text Outline

theorem Text.exists_append_trimWhile (p : Char → Bool) (text : Text) :
    ∃ a b, text = a ++ trimWhile p text ++ b ∧ (∀ c ∈ a, p c) ∧ ∀ c ∈ b, p c := by
  refine ⟨text.takeWhile p, takeEndWhile p (text.dropWhile p), ?_, ?_, ?_⟩
  · rw [List.append_assoc, trimWhile, dropEndWhile_append_takeEndWhile,
      List.takeWhile_append_dropWhile]
  · exact fun c hc => List.mem_takeWhile_imp hc
  · intro c hc
    exact List.mem_takeWhile_imp (List.mem_reverse.mp hc)

namespace Slot

variable {typed : Text} {slot : Slot}

theorem exists_append_dropBullets (text : Text) :
    ∃ bullets, IsBullets bullets ∧ text = bullets ++ dropBullets text := by
  fun_induction dropBullets text with
  | case1 rest ih =>
    obtain ⟨bullets, hbullets, happend⟩ := ih
    refine ⟨_, .cons (leadingSpaces rest) hbullets, ?_⟩
    rw [List.cons_append, List.append_assoc, ← happend, List.replicate_succ, List.cons_append,
      ← takeWhile_isSpace, dropSpaces, List.takeWhile_append_dropWhile]
  | case2 text => exact ⟨[], .nil, rfl⟩

theorem exists_margin (h : ofTyped? typed = some slot) :
    ∃ indent bullets front gap, IsBullets bullets ∧
      typed = keyLine indent bullets front (' ' :: (gap ++ slot.value)) ∧
      slot.keyColumn = indent + bullets.bytes ∧
      slot.key = String.ofList (trimWhile isQuote front) := by
  simp only [ofTyped?, Option.bind_eq_bind, Option.bind_eq_some_iff, Option.pure_def,
    Option.some.injEq] at h
  obtain ⟨⟨front, back⟩, hsplit, -, -, rfl⟩ := h
  obtain ⟨bullets, hbullets, happend⟩ := exists_append_dropBullets (dropSpaces typed)
  obtain ⟨gap, hgap⟩ : dropOpeningQuote (trimStart back) <:+ back :=
    (dropOpeningQuote_isSuffix _).trans (List.dropWhile_suffix _)
  have hentry : dropBullets (dropSpaces typed) = front ++ ':' :: ' ' :: back := by
    simpa using splitAtFirst_eq_some hsplit
  have htyped : typed = List.replicate (leadingSpaces typed) ' ' ++ bullets ++
      dropBullets (dropSpaces typed) := by
    rw [List.append_assoc, ← happend, ← takeWhile_isSpace, dropSpaces,
      List.takeWhile_append_dropWhile]
  have hwidth : typed.bytes =
      leadingSpaces typed + bullets.bytes + (dropBullets (dropSpaces typed)).bytes := by
    conv_lhs => rw [htyped]
    rw [bytes_append, bytes_append, ← takeWhile_isSpace, bytes_takeWhile_isSpace]
  refine ⟨leadingSpaces typed, bullets, front, gap, hbullets, ?_, ?_, rfl⟩
  · rwa [hgap, keyLine, ← hentry]
  · rw [hwidth, Nat.add_sub_cancel]

end Slot

end ManifestAssist
