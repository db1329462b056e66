import BoardSchema.Json.Double
import BoardSchema.Json.Value
/-!
Numbers of a JSON text. An integer of 64 bits keeps its value; any other number keeps its literal,
unless it lies beyond all doubles.
-/
namespace BoardSchema.Json

/-- The parts of a number: its sign, its digits before and after the point, and its exponent. -/
structure Literal where
  negative : Bool
  whole : List Char
  fraction : Option (List Char)
  exponent : Option (Bool × List Char)
  deriving Repr

namespace Literal

def decimal (digits : List Char) : Nat := (Numeral.valueFrom? 10 0 digits).getD 0

/-- Digits are needed, and a zero in front stands alone. -/
def scanWhole? (text : List Char) : Option (List Char × List Char) :=
  let digits := text.takeWhile Char.isDigit
  let rest := text.dropWhile Char.isDigit
  match digits with
  | [] => none
  | '0' :: _ :: _ => none
  | digits => some (digits, rest)

/-- Digits behind a point or an exponent mark. -/
def scanDigits? (text : List Char) : Option (List Char × List Char) :=
  let digits := text.takeWhile Char.isDigit
  if digits.isEmpty then none else some (digits, text.dropWhile Char.isDigit)

def scanFraction? : List Char → Option (Option (List Char) × List Char)
  | '.' :: rest => (scanDigits? rest).map fun (digits, rest) => (some digits, rest)
  | text => some (none, text)

def scanExponent? (text : List Char) : Option (Option (Bool × List Char) × List Char) :=
  match text with
  | [] => some (none, [])
  | mark :: rest =>
    if mark = 'e' ∨ mark = 'E' then
      match rest with
      | '-' :: rest => (scanDigits? rest).map fun (digits, rest) => (some (true, digits), rest)
      | '+' :: rest => (scanDigits? rest).map fun (digits, rest) => (some (false, digits), rest)
      | rest => (scanDigits? rest).map fun (digits, rest) => (some (false, digits), rest)
    else some (none, text)

def scan? (text : List Char) : Option (Literal × List Char) := do
  let (negative, text) :=
    match text with
    | '-' :: rest => (true, rest)
    | text => (false, text)
  let (whole, text) ← scanWhole? text
  let (fraction, text) ← scanFraction? text
  let (exponent, text) ← scanExponent? text
  return (⟨negative, whole, fraction, exponent⟩, text)

/-- The value of an integer of 64 bits. Minus zero is none. -/
def integer? (literal : Literal) : Option Int :=
  if literal.fraction.isSome || literal.exponent.isSome then none
  else
    let n := decimal literal.whole
    if literal.negative then
      if 0 < n ∧ n ≤ 0x8000000000000000 then some (-(n : Int)) else none
    else if n < Numeral.wordBound then some (n : Int) else none

/-- The power of ten that the exponent states. -/
def statedScale (literal : Literal) : Int :=
  match literal.exponent with
  | none => 0
  | some (true, digits) => -(decimal digits : Int)
  | some (false, digits) => decimal digits

/-- The significand takes the digits before the point and then those behind it, each as far as they
fit. A digit before the point that is left out makes room for a power of ten; one behind it is lost. -/
def inRange (literal : Literal) : Bool :=
  let fraction := literal.fraction.getD []
  let (whole, leftOut) := takeDigits 0 literal.whole
  let (significand, lost) := takeDigits whole fraction
  let places := fraction.length - lost.length
  isDouble significand (literal.statedScale + leftOut.length - places)

def text (literal : Literal) : List Char :=
  (if literal.negative then ['-'] else []) ++ literal.whole ++
    (literal.fraction.elim [] fun digits => '.' :: digits) ++
    (literal.exponent.elim [] fun (negative, digits) =>
      'e' :: (if negative then ['-'] else []) ++ digits)

def value (literal : Literal) : Json :=
  match literal.integer? with
  | some n => .integer n
  | none => if literal.inRange then .real (String.ofList literal.text) else .unreadable

end Literal
end BoardSchema.Json
