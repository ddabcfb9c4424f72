import ManifestAssist.Text.Width

/-! # White space and trimming

The characters of the Unicode property White_Space, and what is left of a text without them at its
ends. The scanner of lines trims plain spaces only; names and values are trimmed of all white space.
-/

namespace ManifestAssist

/-- Has the character the property White_Space? -/
def isBlank (c : Char) : Bool :=
  (0x09 ≤ c.val && c.val ≤ 0x0D) || c.val == 0x20 || c.val == 0x85 || c.val == 0xA0 ||
    c.val == 0x1680 || (0x2000 ≤ c.val && c.val ≤ 0x200A) || c.val == 0x2028 ||
    c.val == 0x2029 || c.val == 0x202F || c.val == 0x205F || c.val == 0x3000

namespace Text

/-- Drops the characters at the end that satisfy `p`. -/
def dropEndWhile (p : Char → Bool) (text : Text) : Text :=
  (text.reverse.dropWhile p).reverse

/-- The longest end part whose characters satisfy `p`. -/
def takeEndWhile (p : Char → Bool) (text : Text) : Text :=
  (text.reverse.takeWhile p).reverse

/-- Drops the characters at both ends that satisfy `p`. -/
def trimWhile (p : Char → Bool) (text : Text) : Text :=
  dropEndWhile p (text.dropWhile p)

def trimStart (text : Text) : Text :=
  text.dropWhile isBlank

def trimEnd (text : Text) : Text :=
  text.dropEndWhile isBlank

def trim (text : Text) : Text :=
  text.trimWhile isBlank

def isSpace (c : Char) : Bool :=
  c == ' '

/-- The number of spaces in front. -/
def leadingSpaces (text : Text) : Nat :=
  (text.takeWhile isSpace).length

def dropSpaces (text : Text) : Text :=
  text.dropWhile isSpace

theorem dropEndWhile_append_takeEndWhile (p : Char → Bool) (text : Text) :
    dropEndWhile p text ++ takeEndWhile p text = text := by
  simp [dropEndWhile, takeEndWhile, ← List.reverse_append]

end Text

end ManifestAssist
