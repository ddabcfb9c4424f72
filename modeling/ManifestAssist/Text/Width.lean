/-! # Texts and their widths

A text is its list of characters. Offsets and columns count either the bytes of its UTF-8 form or
the units of its UTF-16 form, so both are widths: sums of a weight over the characters. A cut at an
offset exists exactly where no character straddles it.
-/

namespace ManifestAssist

/-- A document, a line or a part of either. -/
abbrev Text := List Char

/-- The number of code units of a character in UTF-16. -/
def unitSize (c : Char) : Nat :=
  if c.val < 0x10000 then 1 else 2

namespace Text

/-- The sum of the weights of the characters. -/
def width (weight : Char → Nat) : Text → Nat
  | [] => 0
  | c :: cs => weight c + width weight cs

/-- The number of bytes of a text in UTF-8. -/
abbrev bytes (text : Text) : Nat :=
  text.width Char.utf8Size

/-- The number of code units of a text in UTF-16. -/
abbrev units (text : Text) : Nat :=
  text.width unitSize

section

variable {weight : Char → Nat}

@[simp] theorem width_nil : width weight [] = 0 := rfl

@[simp] theorem width_cons (c : Char) (cs : Text) :
    width weight (c :: cs) = weight c + width weight cs := rfl

@[simp] theorem width_append (a b : Text) :
    width weight (a ++ b) = width weight a + width weight b := by
  induction a with
  | nil => simp
  | cons c cs ih => simp [ih]; omega

end

/-- The two parts of a text at an offset, if the offset is a boundary between characters. -/
def cut? (weight : Char → Nat) : Nat → Text → Option (Text × Text)
  | 0, text => some ([], text)
  | _ + 1, [] => none
  | n + 1, c :: cs =>
    if weight c ≤ n + 1 then
      (cut? weight (n + 1 - weight c) cs).map fun (a, b) => (c :: a, b)
    else
      none

theorem cut?_eq_some {weight : Char → Nat} {n : Nat} {text a b : Text}
    (h : cut? weight n text = some (a, b)) : a ++ b = text ∧ width weight a = n := by
  induction text generalizing n a b with
  | nil => cases n <;> simp_all [cut?]
  | cons c cs ih =>
    cases n with
    | zero => simp_all [cut?]
    | succ n =>
      simp only [cut?] at h
      split at h
      · simp only [Option.map_eq_some_iff, Prod.mk.injEq, Prod.exists] at h
        obtain ⟨a', b', h', rfl, rfl⟩ := h
        obtain ⟨rfl, hw⟩ := ih h'
        exact ⟨rfl, by simp [hw]; omega⟩
      · simp at h

/-- Is the byte offset a boundary between characters? -/
def isBoundary (text : Text) (offset : Nat) : Bool :=
  (text.cut? Char.utf8Size offset).isSome

/-- The part of a text between two byte offsets that are boundaries. -/
def slice? (text : Text) (start stop : Nat) : Option Text :=
  if start ≤ stop then do
    let (before, _) ← text.cut? Char.utf8Size stop
    let (_, part) ← before.cut? Char.utf8Size start
    return part
  else
    none

/-- The longest front part whose width is at most `n`. -/
def takeWithin (weight : Char → Nat) : Nat → Text → Text
  | _, [] => []
  | n, c :: cs => if weight c ≤ n then c :: takeWithin weight (n - weight c) cs else []

/-- The shortest front part whose width is at least `n`, or the whole text. -/
def takeCovering (weight : Char → Nat) : Nat → Text → Text
  | 0, _ => []
  | _ + 1, [] => []
  | n + 1, c :: cs => c :: takeCovering weight (n + 1 - weight c) cs

end Text

end ManifestAssist
