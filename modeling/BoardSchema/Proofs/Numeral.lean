import BoardSchema.Field.Basic
import BoardSchema.Proofs.Text.Trimming
import Mathlib.Data.List.Induction
/-!
Numbers and their texts. A number is read from a row of digits, in base sixteen behind `0x`, with
blanks around it and at most one plus sign in front of the digits, and from no other text. So what
is written for a number, in decimal or in hexadecimal digits, gives back the number.
-/
namespace BoardSchema.Numeral

theorem parse_trim (text : List Char) : parse (Text.trim text) = parse text := by
  rw [parse, parse, Text.trim_trim]

/-! ## Digits -/

/-- A digit of a base up to sixteen, letters in either case. -/
def IsDigit (base : Nat) (c : Char) (d : Nat) : Prop :=
  d < base ∧ (c = d.digitChar ∨ c = d.digitChar.toUpper)

/-- A row of digits, at least one, and its value. -/
inductive Spells (base : Nat) : List Char → Nat → Prop where
  | digit {c : Char} {d : Nat} (isDigit : IsDigit base c d) : Spells base [c] d
  | concat {text : List Char} {n : Nat} {c : Char} {d : Nat} (front : Spells base text n)
      (isDigit : IsDigit base c d) : Spells base (text ++ [c]) (n * base + d)

section

variable {base bound n : Nat} {text : List Char} {c : Char} {d : Nat}

theorem eq_digitChar_of_digitValue (fits : d < 16) (value : digitValue c = some d) :
    c = d.digitChar ∨ c = d.digitChar.toUpper := by
  have decimal : ∀ d < 10, Char.ofNat (48 + d) = d.digitChar := by decide
  have letter : ∀ d < 16, 10 ≤ d → Char.ofNat (87 + d) = d.digitChar ∧
      Char.ofNat (55 + d) = d.digitChar.toUpper := by decide
  have shown {code : Nat} (same : c.toNat = code) : c = Char.ofNat code := by
    rw [← same, Char.ofNat_toNat]
  unfold digitValue at value
  simp only [Char.isDigit, Bool.and_eq_true, decide_eq_true_eq, Char.le_def,
    UInt32.le_iff_toNat_le] at value
  split at value
  · next range =>
    have low : 48 ≤ c.toNat := range.1
    have high : c.toNat ≤ 57 := range.2
    have value : c.toNat - 48 = d := Option.some.inj value
    have same : c.toNat = 48 + d := by omega
    exact .inl ((shown same).trans (decimal d (by omega)))
  · split at value
    · next range =>
      have low : 97 ≤ c.toNat := range.1
      have value : c.toNat - 97 + 10 = d := Option.some.inj value
      have same : c.toNat = 87 + d := by omega
      exact .inl ((shown same).trans (letter d fits (by omega)).1)
    · split at value
      · next range =>
        have low : 65 ≤ c.toNat := range.1
        have value : c.toNat - 65 + 10 = d := Option.some.inj value
        have same : c.toNat = 55 + d := by omega
        exact .inr ((shown same).trans (letter d fits (by omega)).2)
      · cases value

theorem digit?_eq_some_iff (base_le : base ≤ 16) : digit? base c = some d ↔ IsDigit base c d := by
  have digit : ∀ d < 16, digitValue d.digitChar = some d ∧
      digitValue d.digitChar.toUpper = some d := by decide
  rw [digit?, Option.filter_eq_some_iff, decide_eq_true_eq]
  constructor
  · rintro ⟨value, fits⟩
    exact ⟨fits, eq_digitChar_of_digitValue (Nat.lt_of_lt_of_le fits base_le) value⟩
  · rintro ⟨fits, rfl | rfl⟩
    · exact ⟨(digit d (Nat.lt_of_lt_of_le fits base_le)).1, fits⟩
    · exact ⟨(digit d (Nat.lt_of_lt_of_le fits base_le)).2, fits⟩

theorem valueFrom?_append (base read : Nat) (left right : List Char) :
    valueFrom? base read (left ++ right) =
      (valueFrom? base read left).bind fun value => valueFrom? base value right := by
  induction left generalizing read with
  | nil => rfl
  | cons c rest ih =>
    simp only [List.cons_append, valueFrom?]
    cases digit? base c with
    | none => rfl
    | some d => exact ih _

theorem valueFrom?_concat (base_le : base ≤ 16) (read : Nat) :
    valueFrom? base read (text ++ [c]) = some n ↔ ∃ front d,
      valueFrom? base read text = some front ∧ IsDigit base c d ∧ front * base + d = n := by
  simp [valueFrom?_append, valueFrom?, Option.bind_eq_some_iff, digit?_eq_some_iff base_le]

theorem Spells.ne_nil (spells : Spells base text n) : text ≠ [] := by
  cases spells <;> simp

theorem Spells.exists_isDigit (spells : Spells base text n) (mem : c ∈ text) :
    ∃ d, IsDigit base c d := by
  induction spells with
  | digit isDigit =>
    cases List.mem_singleton.1 mem
    exact ⟨_, isDigit⟩
  | concat front isDigit ih =>
    rcases List.mem_append.1 mem with mem | mem
    · exact ih mem
    · cases List.mem_singleton.1 mem
      exact ⟨_, isDigit⟩

theorem Spells.not_mem (spells : Spells base text n) (base_le : base ≤ 16)
    (no_digit : digit? base c = none) : c ∉ text := fun mem => by
  obtain ⟨d, isDigit⟩ := spells.exists_isDigit mem
  rw [← digit?_eq_some_iff base_le, no_digit] at isDigit
  cases isDigit

/-- The digits of a row are read from the left to the right. -/
theorem valueFrom?_eq_some_iff (base_le : base ≤ 16) :
    text ≠ [] ∧ valueFrom? base 0 text = some n ↔ Spells base text n := by
  constructor
  · rintro ⟨ne_nil, value⟩
    -- From the end, since a row grows by its last digit.
    induction text using List.reverseRecOn generalizing n with
    | nil => exact absurd rfl ne_nil
    | append_singleton front c ih =>
      obtain ⟨m, d, front_value, isDigit, rfl⟩ := (valueFrom?_concat base_le 0).1 value
      cases front with
      | nil =>
        cases front_value
        simpa using Spells.digit isDigit
      | cons first front => exact .concat (ih (List.cons_ne_nil _ _) front_value) isDigit
  · intro spells
    refine ⟨spells.ne_nil, ?_⟩
    induction spells with
    | @digit c d isDigit => simp [valueFrom?, (digit?_eq_some_iff base_le).2 isDigit]
    | concat front isDigit ih =>
      exact (valueFrom?_concat base_le 0).2 ⟨_, _, ih, isDigit, rfl⟩

/-- A plus sign is passed over where digits follow it. -/
theorem read?_eq_some_iff (base_le : base ≤ 16) : read? base bound text = some n ↔
    n < bound ∧ (Spells base text n ∨ ∃ digits, text = '+' :: digits ∧ Spells base digits n) := by
  -- A sign is no digit, so a row that is read does not start with one.
  have signed (digits : List Char) : ¬Spells base ('+' :: digits) n := fun spells =>
    spells.not_mem base_le rfl List.mem_cons_self
  have read (digits : List Char) :
      (if digits.isEmpty then none else (valueFrom? base 0 digits).filter (· < bound)) = some n ↔
        n < bound ∧ Spells base digits n := by
    rw [← valueFrom?_eq_some_iff base_le]
    cases digits with
    | nil => simp
    | cons c rest => simp [Option.filter_eq_some_iff, and_comm]
  rw [read?]
  cases text with
  | nil => simpa [unsigned] using read []
  | cons c rest =>
    by_cases sign : c = '+'
    · subst sign
      simpa [unsigned, signed] using read rest
    · simpa [unsigned, sign] using read (c :: rest)

/-! ## Numbers -/

/-- The text of a number of 64 bits, where the sign, if there is one, stands in front of the
digits. -/
inductive Writes (sign : List Char) : List Char → Nat → Prop where
  | decimal {digits : List Char} {n : Nat} (spells : Spells 10 digits n) (fits : n < wordBound) :
      Writes sign (sign ++ digits) n
  | hex {x : Char} {digits : List Char} {n : Nat} (mark : x = 'x' ∨ x = 'X')
      (spells : Spells 16 digits n) (fits : n < wordBound) :
      Writes sign ('0' :: x :: (sign ++ digits)) n

theorem writes_hex_iff {x : Char} {digits : List Char} (mark : x = 'x' ∨ x = 'X') :
    Writes [] ('0' :: x :: digits) n ∨ Writes ['+'] ('0' :: x :: digits) n ↔
      read? 16 wordBound digits = some n := by
  have letter : digit? 10 x = none := by rcases mark with rfl | rfl <;> decide
  rw [read?_eq_some_iff (by decide)]
  constructor
  · generalize text_eq : '0' :: x :: digits = text
    rintro (writes | writes)
    · cases writes with
      | @decimal spelled _ spells fits =>
        -- The letter of the mark is no decimal digit.
        have mem : x ∈ [] ++ spelled := text_eq ▸ List.mem_cons_of_mem _ List.mem_cons_self
        exact absurd mem (spells.not_mem (by decide) letter)
      | hex _ spells fits =>
        cases text_eq
        exact ⟨fits, .inl spells⟩
    · cases writes with
      | decimal spells fits => cases text_eq
      | hex _ spells fits =>
        cases text_eq
        exact ⟨fits, .inr ⟨_, rfl, spells⟩⟩
  · rintro ⟨fits, spells | ⟨digits, rfl, spells⟩⟩
    · exact .inl (.hex mark spells fits)
    · exact .inr (.hex mark spells fits)

theorem writes_decimal_iff (unmarked : ∀ x digits, x = 'x' ∨ x = 'X' → text ≠ '0' :: x :: digits) :
    Writes [] text n ∨ Writes ['+'] text n ↔ read? 10 wordBound text = some n := by
  rw [read?_eq_some_iff (by decide)]
  constructor
  · rintro (writes | writes)
    · cases writes with
      | decimal spells fits => exact ⟨fits, .inl spells⟩
      | hex mark => exact absurd rfl (unmarked _ _ mark)
    · cases writes with
      | decimal spells fits => exact ⟨fits, .inr ⟨_, rfl, spells⟩⟩
      | hex mark => exact absurd rfl (unmarked _ _ mark)
  · rintro ⟨fits, spells | ⟨digits, rfl, spells⟩⟩
    · exact .inl (.decimal spells fits)
    · exact .inr (.decimal spells fits)

theorem parse_eq_some_iff : parse text = some n ↔
    Writes [] (Text.trim text) n ∨ Writes ['+'] (Text.trim text) n := by
  rw [parse]
  split
  · next shown => rw [shown, writes_hex_iff (.inl rfl)]
  · next shown => rw [shown, writes_hex_iff (.inr rfl)]
  · next no_lower no_upper =>
    refine (writes_decimal_iff ?_).symm
    rintro x digits (rfl | rfl)
    · exact no_lower digits
    · exact no_upper digits

end

/-! ## What is written -/

theorem spells_toDigits {base : Nat} (base_le : base ≤ 16) (base_ge : 1 < base) (n : Nat) :
    Spells base (Nat.toDigits base n) n := by
  induction n using Nat.strongRecOn with
  | ind n ih =>
    by_cases small : n < base
    · rw [Nat.toDigits_of_lt_base small]
      exact .digit ⟨small, .inl rfl⟩
    · have large : base ≤ n := Nat.le_of_not_lt small
      have last : IsDigit base (n % base).digitChar (n % base) :=
        ⟨Nat.mod_lt _ (Nat.lt_trans Nat.zero_lt_one base_ge), .inl rfl⟩
      have whole : n / base * base + n % base = n := Nat.div_add_mod' n base
      rw [Nat.toDigits_of_base_le base_ge large]
      simpa [whole] using Spells.concat (ih (n / base) (Nat.div_lt_self (by omega) base_ge)) last

theorem Spells.map_toUpper {n : Nat} {text : List Char} (spells : Spells 16 text n) :
    Spells 16 (text.map Char.toUpper) n := by
  have again : ∀ d < 16, d.digitChar.toUpper.toUpper = d.digitChar.toUpper := by decide
  have upper {c : Char} {d : Nat} (isDigit : IsDigit 16 c d) : IsDigit 16 c.toUpper d := by
    obtain ⟨fits, rfl | rfl⟩ := isDigit
    · exact ⟨fits, .inr rfl⟩
    · exact ⟨fits, .inr (again d fits)⟩
  induction spells with
  | digit isDigit => exact .digit (upper isDigit)
  | concat front isDigit ih =>
    rw [List.map_append]
    exact .concat ih (upper isDigit)

theorem spells_hexDigits (n : Nat) : Spells 16 (hexDigits n) n :=
  (spells_toDigits (by decide) (by decide) n).map_toUpper

theorem trim_of_solid {text : List Char} (solid : ∀ c ∈ text, Text.isBlank c = false) :
    Text.trim text = text :=
  Text.trim_eq_self_iff.2 ⟨fun c head => solid c (List.mem_of_mem_head? head),
    fun c last => solid c (List.mem_of_mem_getLast? last)⟩

theorem Spells.solid {base n : Nat} {text : List Char} (spells : Spells base text n)
    (base_le : base ≤ 16) : ∀ c ∈ text, Text.isBlank c = false := by
  have solid : ∀ d < 16, Text.isBlank d.digitChar = false ∧
      Text.isBlank d.digitChar.toUpper = false := by decide
  intro c mem
  obtain ⟨d, fits, rfl | rfl⟩ := spells.exists_isDigit mem
  · exact (solid d (Nat.lt_of_lt_of_le fits base_le)).1
  · exact (solid d (Nat.lt_of_lt_of_le fits base_le)).2

theorem Writes.solid {sign text : List Char} {n : Nat} (writes : Writes sign text n)
    (signed : sign = [] ∨ sign = ['+']) : ∀ c ∈ text, Text.isBlank c = false := by
  have front : ∀ c ∈ sign, Text.isBlank c = false := by
    rcases signed with rfl | rfl
    · exact List.forall_mem_nil _
    · exact List.forall_mem_singleton.2 (by decide)
  cases writes with
  | decimal spells => exact List.forall_mem_append.2 ⟨front, spells.solid (by decide)⟩
  | @hex x _ _ mark spells =>
    have solid : Text.isBlank x = false := by rcases mark with rfl | rfl <;> decide
    simp only [List.forall_mem_cons, List.forall_mem_append]
    exact ⟨by decide, solid, front, spells.solid (by decide)⟩

/-- A text of a number is read without blanks to be trimmed. -/
theorem Writes.parse_eq {sign text : List Char} {n : Nat} (writes : Writes sign text n)
    (signed : sign = [] ∨ sign = ['+']) : parse text = some n := by
  rw [parse_eq_some_iff, trim_of_solid (writes.solid signed)]
  rcases signed with rfl | rfl
  · exact .inl writes
  · exact .inr writes

theorem Writes.plus_mem {text : List Char} {n : Nat} (writes : Writes ['+'] text n) :
    '+' ∈ text := by
  cases writes <;> simp

theorem Writes.plus_not_mem {text : List Char} {n : Nat} (writes : Writes [] text n) :
    '+' ∉ text := by
  cases writes with
  | decimal spells => exact spells.not_mem (by decide) rfl
  | @hex x _ _ mark spells =>
    have other : '+' ≠ x := by rcases mark with rfl | rfl <;> decide
    simpa [other] using spells.not_mem (by decide) rfl

theorem writes_decimal {n : Nat} (fits : n < wordBound) : Writes [] (toString n).toList n := by
  have writes : Writes [] (Nat.toDigits 10 n) n :=
    .decimal (spells_toDigits (by decide) (by decide) n) fits
  simpa using writes

theorem parse_decimal {n : Nat} (fits : n < wordBound) : parse (toString n).toList = some n :=
  (writes_decimal fits).parse_eq (.inl rfl)

/-- The text of a number is `0x` with at least `width` upper-case digits behind it, and with no more
zeros in front of them than that takes. -/
structure IsHexText (width n : Nat) (digits : List Char) : Prop where
  spells : Spells 16 digits n
  upper : ∀ c ∈ digits, c.toUpper = c
  width_le : width ≤ digits.length
  no_zero : width < digits.length → digits.head? ≠ some '0'

theorem Spells.replicate_append {base n : Nat} {text : List Char} (spells : Spells base text n)
    (base_pos : 0 < base) (zeros : Nat) : Spells base (List.replicate zeros '0' ++ text) n := by
  have zero : IsDigit base '0' 0 := ⟨base_pos, .inl rfl⟩
  have cons {text : List Char} {n : Nat} (spells : Spells base text n) :
      Spells base ('0' :: text) n := by
    induction spells with
    | digit isDigit => simpa using Spells.concat (.digit zero) isDigit
    | concat front isDigit ih => exact .concat ih isDigit
  induction zeros with
  | zero => exact spells
  | succ zeros ih => exact cons ih

/-- The first digit of a number is no zero. -/
theorem exists_toDigits_eq_cons {base n : Nat} (base_ge : 1 < base) (positive : 0 < n) :
    ∃ d rest, 0 < d ∧ d < base ∧ Nat.toDigits base n = d.digitChar :: rest := by
  induction n using Nat.strongRecOn with
  | ind n ih =>
    by_cases small : n < base
    · exact ⟨n, [], positive, small, Nat.toDigits_of_lt_base small⟩
    · have large : base ≤ n := Nat.le_of_not_lt small
      obtain ⟨d, rest, d_pos, d_lt, front⟩ := ih (n / base) (Nat.div_lt_self positive base_ge)
        (Nat.div_pos large (Nat.zero_lt_of_lt base_ge))
      refine ⟨d, rest ++ [(n % base).digitChar], d_pos, d_lt, ?_⟩
      rw [Nat.toDigits_of_base_le base_ge large, front, List.cons_append]

theorem head?_hexDigits {n : Nat} (positive : 0 < n) : (hexDigits n).head? ≠ some '0' := by
  have digit : ∀ d < 16, 0 < d → d.digitChar.toUpper ≠ '0' := by decide
  obtain ⟨d, rest, d_pos, d_lt, digits⟩ := exists_toDigits_eq_cons (by decide : 1 < 16) positive
  simpa [hexDigits, digits] using digit d d_lt d_pos

theorem isHexText_hex {width : Nat} (width_pos : 0 < width) (n : Nat) :
    ∃ digits, hex width n = "0x" ++ String.ofList digits ∧ IsHexText width n digits := by
  have again : ∀ d < 16, d.digitChar.toUpper.toUpper = d.digitChar.toUpper := by decide
  refine ⟨_, rfl, (spells_hexDigits n).replicate_append (by decide) _, fun c mem => ?_, ?_, ?_⟩
  · rcases List.mem_append.1 mem with mem | mem
    · rw [List.eq_of_mem_replicate mem]
      rfl
    · obtain ⟨digit, found, rfl⟩ := List.mem_map.1 mem
      obtain ⟨d, fits, rfl | rfl⟩ :=
        (spells_toDigits (by decide : 16 ≤ 16) (by decide) n).exists_isDigit found
      · exact again d fits
      · rw [again d fits, again d fits]
  · simp
    omega
  · intro longer
    have digits : width < (hexDigits n).length := by
      simp at longer
      omega
    have positive : 0 < n := by
      by_contra zero
      obtain rfl : n = 0 := by omega
      have one : (hexDigits 0).length = 1 := by decide
      omega
    have none_added : width - (hexDigits n).length = 0 := by omega
    simpa [none_added] using head?_hexDigits positive

theorem writes_hex {width n : Nat} (width_pos : 0 < width) (fits : n < wordBound) :
    Writes [] (hex width n).toList n := by
  obtain ⟨digits, shown, isHexText⟩ := isHexText_hex width_pos n
  have writes : Writes [] ('0' :: 'x' :: digits) n := .hex (.inl rfl) isHexText.spells fits
  rw [shown]
  simpa using writes

theorem parse_hex {n : Nat} (fits : n < wordBound) : parse (hex 1 n).toList = some n :=
  (writes_hex (by decide) fits).parse_eq (.inl rfl)

/-- A text is a number if it is written as one, or if it would be without a plus sign in front of
its digits; every other text stays a symbol. What is written for a number is read as the number. -/
theorem parse_iff_writes (text : List Char) :
    (∀ n, parse text = some n ↔
      Writes [] (Text.trim text) n ∨ Writes ['+'] (Text.trim text) n) ∧
    (∀ n, parse text = some n → Length.parse text = .fixed n) ∧
    (parse text = none → Length.parse text = .symbolic (String.ofList (Text.trim text))) ∧
    ((∀ n, parse text = some n ↔ Writes [] (Text.trim text) n) ↔
      ∀ n, ¬Writes ['+'] (Text.trim text) n) ∧
    ∀ n < wordBound, parse (toString n).toList = some n ∧ parse (hex 1 n).toList = some n := by
  refine ⟨fun n => parse_eq_some_iff, fun n read => ?_, fun unread => ?_, ?_, fun n fits => ?_⟩
  · rw [Length.parse, read]
  · rw [Length.parse, unread]
  · constructor
    · intro plain n signed
      have unsigned := (plain n).1 (parse_eq_some_iff.2 (.inr signed))
      exact unsigned.plus_not_mem signed.plus_mem
    · intro no_sign n
      rw [parse_eq_some_iff]
      exact or_iff_left (no_sign n)
  · exact ⟨parse_decimal fits, parse_hex fits⟩

/-- The largest number is read from its decimal and from its hexadecimal text. -/
theorem largestNumber_writes : 18446744073709551615 < wordBound ∧
    parse "18446744073709551615".toList = some 18446744073709551615 ∧
    parse "0xFFFFFFFFFFFFFFFF".toList = some 18446744073709551615 := by
  have fits : 18446744073709551615 < wordBound := by decide
  obtain ⟨-, -, -, -, read⟩ := parse_iff_writes []
  have decimal : toString 18446744073709551615 = "18446744073709551615" := by decide
  have hexadecimal : hex 1 18446744073709551615 = "0xFFFFFFFFFFFFFFFF" := by decide
  have both := read 18446744073709551615 fits
  rw [decimal, hexadecimal] at both
  exact ⟨fits, both⟩

/-- A plus sign in front of decimal digits and one behind `0x` are passed over. -/
theorem plusSigns_read : parse "+5".toList = some 5 ∧ Length.parse "0x+5".toList = .fixed 5 ∧
    (∀ n, ¬Writes [] "+5".toList n) ∧ ∀ n, ¬Writes [] "0x+5".toList n := by
  refine ⟨by decide, by decide, fun n plain => ?_, fun n plain => ?_⟩
  · exact plain.plus_not_mem (by decide)
  · exact plain.plus_not_mem (by decide)

end BoardSchema.Numeral
