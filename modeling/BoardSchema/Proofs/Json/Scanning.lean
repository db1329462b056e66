import BoardSchema.Json.Number
import BoardSchema.Json.Text
import BoardSchema.Proofs.Numeral
/-!
Texts and numbers of JSON are read as they were written, whatever follows them.
-/
namespace BoardSchema.Json

/-! ## Texts -/

theorem valueFrom?_control : ∀ n < 32, Numeral.valueFrom? 16 0
    ['0', '0', (n / 16).digitChar, (n % 16).digitChar] = some n := by decide

/-- A character is read back as the unit that it is. -/
theorem scanUnits?_escape (c : Char) (rest : List Char) :
    scanUnits? (escape c ++ rest) = (scanUnits? rest).map (Prod.map (c.toNat :: ·) id) := by
  unfold escape
  split
  case h_8 quote slash _ _ _ _ _ =>
    split
    · next low =>
      simp only [List.cons_append, List.nil_append, scanUnits?, valueFrom?_control c.toNat low]
    · next high =>
      rw [List.singleton_append, scanUnits?.eq_5 _ _ quote (fun _ _ _ _ _ same _ => slash same)
        (fun _ _ same _ => slash same)]
      simp [high, show c ≠ '\\' from slash]
  all_goals rfl

/-- A character is no half of a surrogate pair. -/
theorem not_surrogate (c : Char) : isLeading c.toNat = false ∧ isTrailing c.toNat = false := by
  have valid : c.toNat < 0xD800 ∨ 0xDFFF < c.toNat ∧ c.toNat < 0x110000 := c.valid
  simp only [isLeading, isTrailing, Bool.and_eq_false_iff, decide_eq_false_iff_not]
  omega

theorem joinUnits?_map_toNat (text : List Char) :
    joinUnits? (text.map Char.toNat) = some text := by
  induction text with
  | nil => rfl
  | cons c rest ih =>
    obtain ⟨leading, trailing⟩ := not_surrogate c
    cases rest with
    | nil => simp [joinUnits?, leading, trailing]
    | cons next rest =>
      rw [List.map_cons] at ih
      simp [joinUnits?, leading, trailing, ih]

theorem scanUnits?_flatMap_escape (text rest : List Char) :
    scanUnits? (text.flatMap escape ++ '"' :: rest) = some (text.map Char.toNat, rest) := by
  induction text with
  | nil => rfl
  | cons c text ih =>
    rw [List.flatMap_cons, List.append_assoc, scanUnits?_escape, ih]
    rfl

/-- A text is read back from between its quotes. -/
theorem scanText?_escape (text : String) (rest : List Char) :
    scanText? (text.toList.flatMap escape ++ '"' :: rest) = some (some text, rest) := by
  simp [scanText?, scanUnits?_flatMap_escape, joinUnits?_map_toNat]

/-! ## Numbers -/

namespace Literal

/-- Nothing that a number could go on with. -/
def Stops (rest : List Char) : Prop :=
  ∀ c ∈ rest.head?, c.isDigit = false ∧ c ≠ '.' ∧ c ≠ 'e' ∧ c ≠ 'E'

/-- A row of digits. -/
def Digits (text : List Char) : Prop := text ≠ [] ∧ ∀ c ∈ text, c.isDigit = true

/-- The parts of a number as they can be written: rows of digits, the first without a zero in front
of others. -/
structure WellFormed (literal : Literal) : Prop where
  whole : Digits literal.whole
  no_zero : 1 < literal.whole.length → literal.whole.head? ≠ some '0'
  fraction : ∀ digits ∈ literal.fraction, Digits digits
  exponent : ∀ exponent ∈ literal.exponent, Digits exponent.2

theorem Digits.unsigned {digits : List Char} (row : Digits digits) (rest : List Char) {sign : Char}
    (signs : sign.isDigit = false) (text : List Char) : digits ++ rest ≠ sign :: text := by
  obtain ⟨first, more, rfl⟩ := List.exists_cons_of_ne_nil row.1
  intro same
  have isDigit := row.2 first List.mem_cons_self
  rw [(List.cons.inj same).1, signs] at isDigit
  cases isDigit

theorem span_digits {digits rest : List Char} (all : ∀ c ∈ digits, c.isDigit = true)
    (stops : ∀ c ∈ rest.head?, c.isDigit = false) :
    (digits ++ rest).takeWhile Char.isDigit = digits ∧
      (digits ++ rest).dropWhile Char.isDigit = rest := by
  rw [List.takeWhile_append_of_pos all, List.dropWhile_append_of_pos all]
  cases rest with
  | nil => simp
  | cons c rest => simp [stops c rfl]

theorem scanWhole?_append {digits rest : List Char} (row : Digits digits)
    (no_zero : 1 < digits.length → digits.head? ≠ some '0')
    (stops : ∀ c ∈ rest.head?, c.isDigit = false) :
    scanWhole? (digits ++ rest) = some (digits, rest) := by
  obtain ⟨taken, left⟩ := span_digits row.2 stops
  simp only [scanWhole?, taken, left]
  split
  · next none => exact absurd rfl row.1
  · next next rest => simp at no_zero
  · rfl

theorem scanDigits?_append {digits rest : List Char} (row : Digits digits)
    (stops : ∀ c ∈ rest.head?, c.isDigit = false) :
    scanDigits? (digits ++ rest) = some (digits, rest) := by
  obtain ⟨taken, left⟩ := span_digits row.2 stops
  simp [scanDigits?, taken, left, row.1]

/-! ### Fractions -/

/-- How the digits behind the point are written. -/
def fractionText (fraction : Option (List Char)) : List Char :=
  fraction.elim [] fun digits => '.' :: digits

theorem head?_fractionText (fraction : Option (List Char)) {rest : List Char}
    (stops : ∀ c ∈ rest.head?, c.isDigit = false) :
    ∀ c ∈ (fractionText fraction ++ rest).head?, c.isDigit = false := by
  cases fraction with
  | none => exact stops
  | some digits =>
    rintro c ⟨⟩
    rfl

theorem scanFraction?_append {fraction : Option (List Char)} {rest : List Char}
    (row : ∀ digits ∈ fraction, Digits digits)
    (stops : ∀ c ∈ rest.head?, c.isDigit = false ∧ c ≠ '.') :
    scanFraction? (fractionText fraction ++ rest) = some (fraction, rest) := by
  cases fraction with
  | none =>
    rw [fractionText, Option.elim_none, List.nil_append]
    unfold scanFraction?
    split
    · exact absurd rfl (stops '.' rfl).2
    · rfl
  | some digits =>
    have scanned := scanDigits?_append (row digits rfl) fun c head => (stops c head).1
    simp [fractionText, scanFraction?, scanned]

/-! ### Exponents -/

/-- How an exponent is written. -/
def exponentText (exponent : Option (Bool × List Char)) : List Char :=
  exponent.elim [] fun (negative, digits) => 'e' :: (if negative then ['-'] else []) ++ digits

theorem head?_exponentText (exponent : Option (Bool × List Char)) {rest : List Char}
    (stops : Stops rest) :
    ∀ c ∈ (exponentText exponent ++ rest).head?, c.isDigit = false ∧ c ≠ '.' := by
  cases exponent with
  | none => exact fun c head => ⟨(stops c head).1, (stops c head).2.1⟩
  | some part =>
    rintro c ⟨⟩
    decide

theorem scanExponent?_append {exponent : Option (Bool × List Char)} {rest : List Char}
    (row : ∀ part ∈ exponent, Digits part.2) (stops : Stops rest) :
    scanExponent? (exponentText exponent ++ rest) = some (exponent, rest) := by
  cases exponent with
  | none =>
    cases rest with
    | nil => rfl
    | cons c rest =>
      have mark := (stops c rfl).2.2
      simp [exponentText, scanExponent?, mark.1, mark.2]
  | some part =>
    obtain ⟨negative, digits⟩ := part
    have scanned := scanDigits?_append (row _ rfl) fun c head => (stops c head).1
    cases negative with
    | true => simp [exponentText, scanExponent?, scanned]
    | false =>
      simp only [exponentText, Option.elim_some, Bool.false_eq_true, if_false, List.cons_append,
        List.nil_append, scanExponent?, true_or, if_true]
      split
      · next same => exact absurd same ((row _ rfl).unsigned rest rfl _)
      · next same => exact absurd same ((row _ rfl).unsigned rest rfl _)
      · rw [scanned]
        rfl

/-! ### Numbers as a whole -/

theorem text_eq (literal : Literal) : literal.text = (if literal.negative then ['-'] else []) ++
    (literal.whole ++ (fractionText literal.fraction ++ exponentText literal.exponent)) := by
  simp [text, fractionText, exponentText]

/-- A number is read back as its parts, if nothing follows that it could go on with. -/
theorem scan?_text {literal : Literal} (formed : literal.WellFormed) {rest : List Char}
    (stops : Stops rest) : scan? (literal.text ++ rest) = some (literal, rest) := by
  have exponent := scanExponent?_append formed.exponent stops
  have exponent_stops := head?_exponentText literal.exponent stops
  have fraction := scanFraction?_append formed.fraction exponent_stops
  have whole := scanWhole?_append formed.whole formed.no_zero
    (head?_fractionText literal.fraction fun c head => (exponent_stops c head).1)
  have unsigned := formed.whole.unsigned (fractionText literal.fraction ++
    (exponentText literal.exponent ++ rest)) (show '-'.isDigit = false from rfl)
  rw [text_eq]
  unfold scan?
  obtain ⟨negative, digits, point, power⟩ := literal
  cases negative with
  | true =>
    simp only [if_true, List.append_assoc, List.cons_append, List.nil_append, whole, fraction,
      exponent, Option.bind_eq_bind, Option.bind_some]
    rfl
  | false =>
    simp only [Bool.false_eq_true, if_false, List.nil_append, List.append_assoc, whole, fraction,
      exponent, Option.bind_eq_bind, Option.bind_some]
    rfl

/-- The number that an integer is written as. -/
def ofInt (n : Int) : Literal := ⟨n < 0, Nat.toDigits 10 n.natAbs, none, none⟩

theorem text_ofInt (n : Int) : (ofInt n).text = (toString n).toList := by
  cases n with
  | ofNat n => simp [ofInt, text, Int.toString_eq_repr, Int.repr]
  | negSucc n => simp [ofInt, text, Int.toString_eq_repr, Int.repr]

theorem wellFormed_ofInt (n : Int) : (ofInt n).WellFormed := by
  refine ⟨⟨Nat.toDigits_ne_nil, fun c => Nat.isDigit_of_mem_toDigits (by decide) (by decide)⟩,
    fun long => ?_, nofun, nofun⟩
  have digit : ∀ d < 10, 0 < d → d.digitChar ≠ '0' := by decide
  have positive : 0 < n.natAbs := by
    by_contra zero
    simp [ofInt, Nat.eq_zero_of_not_pos zero] at long
  obtain ⟨d, rest, d_pos, d_lt, digits⟩ :=
    Numeral.exists_toDigits_eq_cons (by decide : 1 < 10) positive
  simpa [ofInt, digits] using digit d d_lt d_pos

theorem decimal_toDigits (n : Nat) : decimal (Nat.toDigits 10 n) = n := by
  have spells := Numeral.spells_toDigits (by decide : 10 ≤ 16) (by decide) n
  rw [decimal, ((Numeral.valueFrom?_eq_some_iff (by decide)).2 spells).2, Option.getD_some]

/-- An integer of 64 bits, signed or unsigned, keeps its value. -/
theorem value_ofInt {n : Int} (low : -0x8000000000000000 ≤ n) (high : n < Numeral.wordBound) :
    (ofInt n).value = .integer n := by
  have kept : (ofInt n).integer? = some n := by
    simp only [integer?, ofInt, decimal_toDigits, Option.isSome_none, Bool.or_self,
      Bool.false_eq_true, if_false, decide_eq_true_eq]
    split
    · next negative =>
      rw [if_pos (by omega)]
      exact congrArg some (by omega)
    · next negative =>
      have fits : n.natAbs < Numeral.wordBound := by omega
      rw [if_pos fits]
      exact congrArg some (by omega)
  rw [value, kept]

end Literal

end BoardSchema.Json
