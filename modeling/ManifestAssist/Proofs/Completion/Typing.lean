import ManifestAssist.Proofs.Completion.Edits
import ManifestAssist.Proofs.Text.Trim

/-! # Slots while a value is typed

Each part of a slot ends at the first place that tells so: the spaces and bullets at the first
character of the key, the key at the first colon with a space behind it, and the white space and the
quote ahead of the value at the first character of the value. As soon as the value has begun, all
these places are typed, and whatever is typed behind them only makes the value longer.
-/

namespace ManifestAssist

open Text

namespace Text

variable {text needle before after : Text}

theorem splitAtFirst_append (h : splitAtFirst needle text = some (before, after)) (more : Text) :
    splitAtFirst needle (text ++ more) = some (before, after ++ more) := by
  have htext : text ++ more = before ++ needle ++ (after ++ more) := by
    rw [splitAtFirst_eq_some h, List.append_assoc]
  have hpart : needle <:+: text ++ more := ⟨before, after ++ more, htext.symm⟩
  obtain ⟨before', after', hsplit⟩ := exists_splitAtFirst_eq_some hpart
  have hmore := splitAtFirst_eq_some hsplit
  have hle : before' <+: before := isPrefix_of_splitAtFirst hsplit htext
  -- An occurrence that is no later than one within the text is within the text, too.
  have hwithin : before' ++ needle <+: text := by
    refine List.prefix_of_prefix_length_le ⟨after', hmore.symm⟩ (List.prefix_append text more) ?_
    have hlength := hle.length_le
    rw [splitAtFirst_eq_some h]
    simp only [List.length_append]
    omega
  obtain ⟨rest, hrest⟩ := hwithin
  have hge : before <+: before' := isPrefix_of_splitAtFirst h hrest.symm
  obtain rfl : before' = before := hle.eq_of_length_le hge.length_le
  rw [hsplit, List.append_cancel_left (hmore.symm.trans htext)]

end Text

namespace Slot

variable {text typed line front back front' back' : Text} {slot : Slot} {column column' : Nat}

theorem dropBullets_append (h : 2 ≤ (dropBullets text).length) (more : Text) :
    dropBullets (text ++ more) = dropBullets text ++ more := by
  fun_induction dropBullets text with
  | case1 rest ih =>
    have hspaces : dropSpaces rest ≠ [] := by
      intro hnil
      rw [hnil] at h
      simp [dropBullets] at h
    rw [List.cons_append, List.cons_append, dropBullets, dropSpaces,
      dropWhile_append_of_ne_nil hspaces]
    exact ih h
  | case2 text hbullet =>
    -- Two characters tell that no bullet stands here, and more text behind them does not matter.
    rcases text with _ | ⟨c, _ | ⟨d, rest⟩⟩
    · simp at h
    · simp at h
    · rw [List.cons_append, List.cons_append, dropBullets]
      intro rest' heq
      simp only [List.cons.injEq] at heq
      exact hbullet rest (by rw [heq.1, heq.2.1])

theorem dropOpeningQuote_append (h : text ≠ []) (more : Text) :
    dropOpeningQuote (text ++ more) = dropOpeningQuote text ++ more := by
  obtain ⟨c, rest, rfl⟩ := List.exists_cons_of_ne_nil h
  rw [List.cons_append, dropOpeningQuote, dropOpeningQuote]
  split <;> rfl

/-- What is typed behind the start of a value belongs to it. -/
theorem ofTyped?_append (h : ofTyped? typed = some slot) (hvalue : slot.value ≠ []) (more : Text) :
    ofTyped? (typed ++ more) = some { slot with value := slot.value ++ more } := by
  simp only [ofTyped?, Option.bind_eq_bind, Option.bind_eq_some_iff, Option.pure_def,
    Option.some.injEq] at h
  obtain ⟨⟨front, back⟩, hsplit, _, hkey, rfl⟩ := h
  have hback : trimStart back ≠ [] := by
    intro hnil
    exact hvalue (by simp [hnil, dropOpeningQuote])
  have hentry : 2 ≤ (dropBullets (dropSpaces typed)).length := by
    rw [splitAtFirst_eq_some hsplit]
    simp only [List.length_append, List.length_cons]
    omega
  have hspaces : dropSpaces typed ≠ [] := by
    intro hnil
    simp [hnil, dropBullets] at hentry
  have hdropped : dropBullets (dropSpaces (typed ++ more)) =
      dropBullets (dropSpaces typed) ++ more := by
    rw [dropSpaces, dropWhile_append_of_ne_nil hspaces]
    exact dropBullets_append hentry more
  have htrimmed : dropOpeningQuote (trimStart (back ++ more)) =
      dropOpeningQuote (trimStart back) ++ more := by
    rw [trimStart, dropWhile_append_of_ne_nil hback]
    exact dropOpeningQuote_append hback more
  simp only [ofTyped?, hdropped, splitAtFirst_append hsplit more, htrimmed, hkey, bytes_append,
    Option.bind_eq_bind, Option.bind_some, Option.pure_def, Nat.add_sub_add_right]

/-- The cursor moves to the right on a line. Once it stands in or behind a value, the slot keeps its
key and where its key and its value start, and the value gets what the cursor has passed. -/
theorem ofTyped?_of_le (hle : column ≤ column')
    (hcut : line.cut? Char.utf8Size column = some (front, back))
    (hcut' : line.cut? Char.utf8Size column' = some (front', back'))
    (hslot : ofTyped? front = some slot) (hvalue : slot.value ≠ []) :
    ∃ typed, line.slice? column column' = some typed ∧
      ofTyped? front' = some { slot with value := slot.value ++ typed } := by
  obtain ⟨happend, rfl⟩ := cut?_eq_some hcut
  obtain ⟨rfl, rfl⟩ := cut?_eq_some hcut'
  obtain ⟨typed, rfl⟩ : front <+: front' :=
    isPrefix_of_width_le Char.utf8Size_pos ⟨back, happend⟩ (List.prefix_append ..) hle
  exact ⟨typed, slice?_bytes_append front typed back', ofTyped?_append hslot hvalue typed⟩

/-- A quoted value that goes on with a colon, a bullet and quotes. -/
def quotedPair : Text := "  - - 'päth':  \"a: - 'b\": c".toList

theorem ofTyped?_of_le_quotedPair :
    18 ≤ 25 ∧
      quotedPair.cut? Char.utf8Size 18 = some (quotedPair.take 17, quotedPair.drop 17) ∧
      quotedPair.cut? Char.utf8Size 25 = some (quotedPair.take 24, quotedPair.drop 24) ∧
      ofTyped? (quotedPair.take 17) = some ⟨"päth", 6, ['a'], 17⟩ ∧ ['a'] ≠ [] ∧
      ∃ typed, quotedPair.slice? 18 25 = some typed ∧
        ofTyped? (quotedPair.take 24) = some ⟨"päth", 6, ['a'] ++ typed, 17⟩ := by
  have hle : 18 ≤ 25 := by decide
  have hcut : quotedPair.cut? Char.utf8Size 18 = some (quotedPair.take 17, quotedPair.drop 17) := by
    decide +kernel
  have hcut' :
      quotedPair.cut? Char.utf8Size 25 = some (quotedPair.take 24, quotedPair.drop 24) := by
    decide +kernel
  have hslot : ofTyped? (quotedPair.take 17) = some ⟨"päth", 6, ['a'], 17⟩ := by cbv
  have hvalue : ['a'] ≠ [] := by decide
  exact ⟨hle, hcut, hcut', hslot, hvalue, ofTyped?_of_le hle hcut hcut' hslot hvalue⟩

end Slot

end ManifestAssist
