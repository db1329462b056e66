import BoardSchema.Numeral
/-!
Whether a decimal number is in the range of doubles. The significand and the power of ten are rounded
to doubles first and then multiplied, so next to the largest double the outcome may differ from that
of rounding the number itself. All of it is arithmetic on natural numbers, since a power of ten below
one only makes the product smaller.
-/
namespace BoardSchema.Json

/-- The number of bits of a double's significand. -/
def precision : Nat := 53

/-- The nearest multiple of `2 ^ shift`, counted in such steps; of two the even one. -/
def nearestStep (n shift : Nat) : Nat :=
  let step := 1 <<< shift
  let below := n / step
  let rest := n % step
  if step < 2 * rest ∨ (2 * rest = step ∧ below % 2 = 1) then below + 1 else below

/-- The double nearest to a number in their range. -/
def nearestDouble (n : Nat) : Nat :=
  let shift := n.log2 + 1 - precision
  nearestStep n shift <<< shift

/-- Half a step above the largest double; from here on a product rounds to infinity. -/
def doubleBound : Nat := 1 <<< 1024 - 1 <<< 970

/-- The highest power of ten that is a double. -/
def maxScale : Int := 308

/-- The number `significand · 10 ^ scale` is in the range of doubles. -/
def isDouble (significand : Nat) (scale : Int) : Bool :=
  if significand = 0 ∨ scale < 0 then true
  else if maxScale < scale then false
  else nearestDouble significand * nearestDouble (Nat.pow 10 scale.toNat) < doubleBound

/-- Takes digits into a number as long as it has 64 bits. The digits that are left did not fit. -/
def takeDigits (value : Nat) : List Char → Nat × List Char
  | [] => (value, [])
  | c :: rest =>
    let next := value * 10 + (c.toNat - '0'.toNat)
    if next < Numeral.wordBound then takeDigits next rest else (value, c :: rest)

/-- A number that fits the precision is a double. -/
theorem nearestDouble_of_lt {n : Nat} (h : n < 1 <<< precision) : nearestDouble n = n := by
  have hs : n.log2 + 1 - precision = 0 := by
    by_cases hn : n = 0
    · subst hn; rfl
    · rw [Nat.one_shiftLeft] at h
      have hl := (Nat.log2_lt hn).2 h
      omega
  simp [nearestDouble, nearestStep, hs, Nat.mod_one]

end BoardSchema.Json
