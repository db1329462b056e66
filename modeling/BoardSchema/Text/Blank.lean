/-!
Blank characters and the trimming of text. A text is trimmed by dropping blanks at its ends; what
stands between the first and the last character that is not blank is kept as it is.
-/
namespace BoardSchema.Text

/-- The ranges of code points that Unicode calls white space, both ends included. -/
def blankRanges : List (Nat × Nat) :=
  [(0x9, 0xD), (0x20, 0x20), (0x85, 0x85), (0xA0, 0xA0), (0x1680, 0x1680), (0x2000, 0x200A),
    (0x2028, 0x2029), (0x202F, 0x202F), (0x205F, 0x205F), (0x3000, 0x3000)]

/-- A character is blank if one of the ranges of white space holds it. -/
def isBlank (c : Char) : Bool :=
  blankRanges.any fun (low, high) => low ≤ c.toNat && c.toNat ≤ high

def trimStart (text : List Char) : List Char := text.dropWhile isBlank

def trimEnd (text : List Char) : List Char := (text.reverse.dropWhile isBlank).reverse

def trim (text : List Char) : List Char := trimEnd (trimStart text)

theorem isBlank_space : isBlank ' ' = true := by decide

theorem isBlank_of_isWhitespace {c : Char} (h : c.isWhitespace = true) : isBlank c = true := by
  simp only [Char.isWhitespace, Bool.or_eq_true, decide_eq_true_eq] at h
  rcases h with ((rfl | rfl) | rfl) | rfl <;> decide

theorem trimStart_nil : trimStart [] = [] := rfl

theorem trim_nil : trim [] = [] := rfl

/-- Dropping blanks leaves a text that does not start with one. -/
theorem isBlank_head_trimStart {text : List Char} {c : Char} {rest : List Char}
    (h : trimStart text = c :: rest) : isBlank c = false := by
  have hd := List.head?_dropWhile_not isBlank text
  rw [show text.dropWhile isBlank = c :: rest from h] at hd
  simpa using hd

end BoardSchema.Text
