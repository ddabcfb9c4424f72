import Mathlib
import ManifestAssist.Proofs.Text.LineMap

/-! # Edits within a line

An edit of a part of one line leaves the other lines as they are. In the place of the line are the
lines of what the edit makes of it.
-/

namespace ManifestAssist

open Text

namespace Text

variable {text part : Text} {line : Line} {i : Nat}

theorem splitAll_joined_append {parts : List Text} (h : ∀ part ∈ parts, '\n' ∉ part)
    (rest : Text) : splitAll '\n' (joined parts ++ rest) = parts ++ splitAll '\n' rest := by
  induction parts with
  | nil => rfl
  | cons part parts ih =>
    obtain ⟨hpart, hparts⟩ := List.forall_mem_cons.mp h
    rw [joined_cons, List.append_assoc, List.cons_append, splitAll_append_cons,
      splitAll_of_not_mem hpart, ih hparts]
    rfl

theorem splitAll_eq_of_append_newline {parts : List Text} (h : ∀ part ∈ parts, '\n' ∉ part)
    (htext : text ++ ['\n'] = joined parts) : text.splitAll '\n' = parts := by
  have hparts := splitAll_joined_append h []
  rw [List.append_nil, ← htext, splitAll_append_cons] at hparts
  exact List.append_cancel_right hparts

theorem splitAll_eq_take_append (h : text.lines[i]? = some line) :
    text.splitAll '\n' =
      (text.splitAll '\n').take i ++ line.text :: (text.splitAll '\n').drop (i + 1) := by
  obtain ⟨hi, heq⟩ := List.getElem?_eq_some_iff.mp (splitAll_getElem? h)
  rw [← heq, ← List.drop_eq_getElem_cons hi, List.take_append_drop]

theorem exists_splitAll_replaced (h : text.lines[i]? = some line) :
    ∃ after, text = text.ahead i ++ line.text ++ after ∧ ∀ new,
      (text.ahead i ++ new ++ after).splitAll '\n' =
        (text.splitAll '\n').take i ++ new.splitAll '\n' ++ (text.splitAll '\n').drop (i + 1) := by
  obtain ⟨after, happend⟩ := exists_append_of_getElem? h
  refine ⟨after, happend, fun new => ?_⟩
  have hbehind : after ++ ['\n'] = '\n' :: joined ((text.splitAll '\n').drop (i + 1)) := by
    have hall := joined_splitAll text
    rw [splitAll_eq_take_append h, joined_append, joined_cons] at hall
    conv_rhs at hall => rw [happend]
    simp only [ahead, List.append_assoc, List.append_cancel_left_eq] at hall
    exact hall.symm
  refine splitAll_eq_of_append_newline ?_ ?_
  · intro part hpart
    rcases List.mem_append.mp hpart with hpart | hpart
    · rcases List.mem_append.mp hpart with hpart | hpart
      · exact not_mem_of_mem_splitAll (List.mem_of_mem_take hpart)
      · exact not_mem_of_mem_splitAll hpart
    · exact not_mem_of_mem_splitAll (List.mem_of_mem_drop hpart)
  · rw [joined_append, joined_append, joined_splitAll, List.append_assoc, hbehind]
    simp [ahead]

section Replaced

variable {edited : Text} {parts : List Text} (h : text.lines[i]? = some line)
  (hedited : edited.splitAll '\n' =
    (text.splitAll '\n').take i ++ parts ++ (text.splitAll '\n').drop (i + 1))

include h hedited

theorem getElem?_of_splitAll_replaced {j : Nat} (hj : j < parts.length) :
    (edited.splitAll '\n')[i + j]? = parts[j]? := by
  have hi := (List.getElem?_eq_some_iff.mp (splitAll_getElem? h)).1
  have hlength : ((text.splitAll '\n').take i).length = i := List.length_take_of_le hi.le
  rw [hedited, List.append_assoc, List.getElem?_append_right (by omega), hlength,
    Nat.add_sub_cancel_left, List.getElem?_append_left hj]

theorem take_of_splitAll_replaced :
    (edited.splitAll '\n').take i = (text.splitAll '\n').take i := by
  have hi := (List.getElem?_eq_some_iff.mp (splitAll_getElem? h)).1
  have hlength : ((text.splitAll '\n').take i).length = i := List.length_take_of_le hi.le
  rw [hedited, List.append_assoc, List.take_left' hlength]

end Replaced

theorem exists_line_of_splitAll (h : (text.splitAll '\n')[i]? = some part) :
    ∃ line, text.lines[i]? = some line ∧ line.text = part := by
  rwa [← map_text_lines, List.getElem?_map, Option.map_eq_some_iff] at h

end Text

/-- An edit of a part of a line applies, and its result has the same lines but for the edited one. -/
theorem Edit.exists_applied? {text front part back : Text} {line : Line} {i : Nat}
    (h : text.lines[i]? = some line) (hline : line.text = front ++ part ++ back) (new : Text) :
    ∃ edited,
      (Edit.mk ⟨line.start + front.bytes, line.start + (front ++ part).bytes⟩ new).applied? text =
        some edited ∧
      edited.splitAll '\n' = (text.splitAll '\n').take i ++ (front ++ new ++ back).splitAll '\n' ++
        (text.splitAll '\n').drop (i + 1) := by
  obtain ⟨after, happend, hreplaced⟩ := exists_splitAll_replaced h
  have htext : text.ahead i ++ front ++ part ++ (back ++ after) = text := by
    conv_rhs => rw [happend, hline]
    simp only [List.append_assoc]
  have hedit := Edit.applied?_append (text.ahead i ++ front) part (back ++ after) new
  rw [htext, List.append_assoc (text.ahead i) front part, bytes_append, bytes_append,
    bytes_ahead h] at hedit
  refine ⟨_, hedit, ?_⟩
  have hedited := hreplaced (front ++ new ++ back)
  simpa only [List.append_assoc] using hedited

end ManifestAssist
