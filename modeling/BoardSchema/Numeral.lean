import BoardSchema.Text.Blank
/-!
Numbers of 64 bits as text: decimal, or hexadecimal behind `0x`. Reading trims the text, admits one
plus sign before the digits, and refuses a value that does not fit.
-/
namespace BoardSchema.Numeral

/-- Numbers are below this bound. -/
def wordBound : Nat := 0x10000000000000000

/-- The value of a digit, letters counting on from ten in either case. -/
def digitValue (c : Char) : Option Nat :=
  if c.isDigit then some (c.toNat - '0'.toNat)
  else if 'a' ≤ c ∧ c ≤ 'z' then some (c.toNat - 'a'.toNat + 10)
  else if 'A' ≤ c ∧ c ≤ 'Z' then some (c.toNat - 'A'.toNat + 10)
  else none

def digit? (base : Nat) (c : Char) : Option Nat := (digitValue c).filter (· < base)

/-- The value of a run of digits that follows the value `read`. -/
def valueFrom? (base : Nat) (read : Nat) : List Char → Option Nat
  | [] => some read
  | c :: rest => (digit? base c).bind fun d => valueFrom? base (read * base + d) rest

/-- The digits behind at most one plus sign. -/
def unsigned : List Char → List Char
  | '+' :: digits => digits
  | digits => digits

/-- A number below `bound` written in `base`; there is at least one digit. -/
def read? (base bound : Nat) (text : List Char) : Option Nat :=
  let digits := unsigned text
  if digits.isEmpty then none else (valueFrom? base 0 digits).filter (· < bound)

/-- A trimmed number of 64 bits, hexadecimal behind `0x` or `0X`. -/
def parse (text : List Char) : Option Nat :=
  match Text.trim text with
  | '0' :: 'x' :: digits => read? 16 wordBound digits
  | '0' :: 'X' :: digits => read? 16 wordBound digits
  | digits => read? 10 wordBound digits

/-- Upper-case hexadecimal digits without leading zeros. -/
def hexDigits (n : Nat) : List Char := (Nat.toDigits 16 n).map Char.toUpper

/-- Hexadecimal text of at least `width` digits behind `0x`. -/
def hex (width n : Nat) : String :=
  let digits := hexDigits n
  "0x" ++ String.ofList (List.replicate (width - digits.length) '0' ++ digits)

theorem parse_lt {text : List Char} {n : Nat} (h : parse text = some n) : n < wordBound := by
  have hread {base : Nat} {digits : List Char} (h : read? base wordBound digits = some n) :
      n < wordBound := by
    simp only [read?] at h
    split at h
    · simp at h
    · simpa using (Option.filter_eq_some_iff.1 h).2
  unfold parse at h
  split at h <;> exact hread h

end BoardSchema.Numeral
