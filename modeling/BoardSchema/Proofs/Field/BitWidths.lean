import BoardSchema.Output.FieldText
import BoardSchema.Proofs.Field.Inputs
import BoardSchema.Proofs.Numeral
/-!
The widths of bit members. A width is a number, with or without the unit `b` behind it. The unit is
looked for first, so a hexadecimal number that ends in the digit `b` loses it where a number is left
in front of it; every other number is the width that it says.
-/
namespace BoardSchema

/-! ## Values of blocks -/

theorem Pragma.Place.staysOpen_append {place : Place} {left right : List Char} :
    place.StaysOpen (left ++ right) ↔
      place.StaysOpen left ∧ (place.after left).StaysOpen right := by
  induction left generalizing place with
  | nil =>
    rw [List.nil_append, after_nil, staysOpen_nil]
    exact ⟨fun stays => ⟨stays.depth_ne_zero, stays⟩, And.right⟩
  | cons c left ih =>
    rw [List.cons_append, staysOpen_cons, staysOpen_cons, ih, after_cons, and_assoc]

theorem Pragma.IsValue.append {left right : List Char} (isLeft : IsValue left)
    (isRight : IsValue right) : IsValue (left ++ right) where
  stays := Place.staysOpen_append.2 ⟨isLeft.stays, by rw [isLeft.ends]; exact isRight.stays⟩
  ends := by
    have whole : Place.start.after (left ++ right) = (Place.start.after left).after right :=
      List.foldl_append
    rw [whole, isLeft.ends, isRight.ends]

/-- No quote and no brace, so nothing that the end of a block depends on. -/
def IsPlain (c : Char) : Prop := c ≠ '"' ∧ c ≠ '\x7b' ∧ c ≠ '\x7d'

instance (c : Char) : Decidable (IsPlain c) := inferInstanceAs (Decidable (_ ∧ _ ∧ _))

theorem Pragma.isValue_of_plain {text : List Char} (plain : ∀ c ∈ text, IsPlain c) :
    IsValue text := by
  have stands {c : Char} (plain : IsPlain c) : Place.start.next c = Place.start := by
    simp [Place.next, Place.start, plain.1, plain.2.1, plain.2.2]
  induction text with
  | nil => exact ⟨Place.staysOpen_nil.2 (by decide), rfl⟩
  | cons c rest ih =>
    obtain ⟨here, plain⟩ := List.forall_mem_cons.1 plain
    obtain ⟨stays, ends⟩ := ih plain
    refine ⟨Place.staysOpen_cons.2 ⟨by decide, ?_⟩, ?_⟩
    · rwa [stands here]
    · rwa [Place.after_cons, stands here]

theorem isPlain_of_isBlank {c : Char} (blank : Text.isBlank c = true) : IsPlain c := by
  refine ⟨?_, ?_, ?_⟩ <;> rintro rfl <;> exact absurd blank (by decide)

theorem plain_of_trim {text : List Char} (plain : ∀ c ∈ Text.trim text, IsPlain c) :
    ∀ c ∈ text, IsPlain c := by
  obtain ⟨lead, trail, lead_blank, trail_blank, whole⟩ := Text.padded_trim text
  rw [whole, List.forall_mem_append, List.forall_mem_append]
  exact ⟨⟨fun c mem => isPlain_of_isBlank (lead_blank c mem), plain⟩,
    fun c mem => isPlain_of_isBlank (trail_blank c mem)⟩

/-! ## Numbers that end in the letter of the unit -/

theorem exists_of_concat_eq_append {text front digits : List Char} {c : Char}
    (ne_nil : digits ≠ []) (whole : text ++ [c] = front ++ digits) :
    ∃ rest, digits = rest ++ [c] ∧ text = front ++ rest := by
  obtain ⟨rest, last, rfl⟩ := (List.eq_nil_or_concat digits).resolve_left ne_nil
  rw [List.concat_eq_append, ← List.append_assoc] at whole
  obtain ⟨rfl, same⟩ := List.append_inj' whole rfl
  cases same
  exact ⟨rest, List.concat_eq_append, rfl⟩

namespace Numeral

variable {base n m : Nat} {text : List Char} {c : Char}

/-- The last digit of a row is all of it, or it stands behind a shorter row. -/
theorem Spells.last (spells : Spells base (text ++ [c]) n) :
    (text = [] ∧ IsDigit base c n) ∨
      ∃ m d, Spells base text m ∧ IsDigit base c d ∧ m * base + d = n := by
  generalize whole : text ++ [c] = row at spells
  cases spells with
  | digit isDigit =>
    obtain ⟨rfl, same⟩ := List.append_inj' (whole.trans (List.nil_append _).symm) rfl
    cases same
    exact .inl ⟨rfl, isDigit⟩
  | concat front isDigit =>
    obtain ⟨rfl, same⟩ := List.append_inj' whole rfl
    cases same
    exact .inr ⟨_, _, front, isDigit, rfl⟩

theorem eq_eleven_of_isDigit {d : Nat} (isDigit : IsDigit 16 'b' d) : d = 11 := by
  have only : ∀ d < 16, 'b' = d.digitChar ∨ 'b' = d.digitChar.toUpper → d = 11 := by decide
  exact only d isDigit.1 isDigit.2

/-- A hexadecimal row that ends in the letter `b` is that letter, or the letter stands behind a
shorter row. -/
theorem Spells.of_concat_b (spells : Spells 16 (text ++ ['b']) n) :
    (text = [] ∧ n = 11) ∨ ∃ m, Spells 16 text m ∧ m * 16 + 11 = n := by
  rcases spells.last with ⟨empty, isDigit⟩ | ⟨m, d, front, isDigit, value⟩
  · exact .inl ⟨empty, eq_eleven_of_isDigit isDigit⟩
  · rw [eq_eleven_of_isDigit isDigit] at value
    exact .inr ⟨m, front, value⟩

/-- A number that ends in the letter `b` is hexadecimal, and in front of the letter stands a number
too, or nothing but `0x`. -/
theorem Writes.of_concat_b {sign : List Char} (writes : Writes sign (text ++ ['b']) n) :
    (∃ m, Writes sign text m ∧ m * 16 + 11 = n) ∨
      ∃ x, (x = 'x' ∨ x = 'X') ∧ text = '0' :: x :: sign := by
  generalize whole : text ++ ['b'] = row at writes
  cases writes with
  | decimal spells fits =>
    -- The letter is no decimal digit.
    obtain ⟨rest, rfl, -⟩ := exists_of_concat_eq_append spells.ne_nil whole
    exact absurd (by simp) (spells.not_mem (by decide) (by decide : digit? 10 'b' = none))
  | @hex x digits _ mark spells fits =>
    have whole : text ++ ['b'] = ('0' :: x :: sign) ++ digits := by simpa using whole
    obtain ⟨rest, rfl, rfl⟩ := exists_of_concat_eq_append spells.ne_nil whole
    rcases spells.of_concat_b with ⟨rfl, -⟩ | ⟨m, front, rfl⟩
    · exact .inr ⟨x, mark, by simp⟩
    · exact .inl ⟨m, .hex mark front (by omega), rfl⟩

theorem parse_mark {x : Char} {sign : List Char} (mark : x = 'x' ∨ x = 'X')
    (signed : sign = [] ∨ sign = ['+']) : parse ('0' :: x :: sign) = none := by
  rcases mark with rfl | rfl <;> rcases signed with rfl | rfl <;> decide

/-- Where a number stands in front of a last letter `b`, and the whole is a number too, the letter
is a hexadecimal digit of the whole. -/
theorem parse_of_concat_b {whole : List Char} (ends : Text.trim whole = text ++ ['b'])
    (front : parse text = some m) (read : parse whole = some n) : m * 16 + 11 = n := by
  -- The number in front of the letter has the sign of the whole.
  have value {sign : List Char} (signed : sign = [] ∨ sign = ['+'])
      (writes : Writes sign (text ++ ['b']) n) : m * 16 + 11 = n := by
    rcases writes.of_concat_b with ⟨m', writes, value⟩ | ⟨x, mark, rfl⟩
    · cases front.symm.trans (writes.parse_eq signed)
      exact value
    · rw [parse_mark mark signed] at front
      cases front
  rw [parse_eq_some_iff, ends] at read
  rcases read with writes | writes
  · exact value (.inl rfl) writes
  · exact value (.inr rfl) writes

/-- Lower-case digits end in the letter `b` behind other digits. -/
theorem toDigits_ends_iff : (∃ front, front ≠ [] ∧ Nat.toDigits 16 n = front ++ ['b']) ↔
    16 ≤ n ∧ n % 16 = 11 := by
  have letter : ∀ d < 16, d.digitChar = 'b' ↔ d = 11 := by decide
  by_cases small : n < 16
  · have none_left : ¬16 ≤ n := Nat.not_le.2 small
    simp only [Nat.toDigits_of_lt_base small, none_left, false_and, iff_false]
    -- In front of a digit that is alone stands nothing.
    rintro ⟨front, ne_nil, whole⟩
    exact ne_nil (List.append_inj' (whole.symm.trans (List.nil_append _).symm) rfl).1
  · have large : 16 ≤ n := Nat.le_of_not_lt small
    have some_left : Nat.toDigits 16 (n / 16) ≠ [] :=
      (spells_toDigits (by decide) (by decide) (n / 16)).ne_nil
    rw [Nat.toDigits_of_base_le (by decide) large, ← letter (n % 16) (Nat.mod_lt n (by decide))]
    constructor
    · rintro ⟨front, -, whole⟩
      exact ⟨large, List.singleton_inj.1 (List.append_inj' whole rfl).2⟩
    · rintro ⟨-, last⟩
      exact ⟨_, some_left, by rw [last]⟩

theorem Spells.plain {base : Nat} {text : List Char} (spells : Spells base text n)
    (base_le : base ≤ 16) : ∀ c ∈ text, IsPlain c := by
  have plain : ∀ d < 16, IsPlain d.digitChar ∧ IsPlain d.digitChar.toUpper := by decide
  intro c mem
  obtain ⟨d, fits, rfl | rfl⟩ := spells.exists_isDigit mem
  · exact (plain d (Nat.lt_of_lt_of_le fits base_le)).1
  · exact (plain d (Nat.lt_of_lt_of_le fits base_le)).2

theorem Writes.plain {sign text : List Char} (writes : Writes sign text n)
    (signed : sign = [] ∨ sign = ['+']) : ∀ c ∈ text, IsPlain c := by
  have front : ∀ c ∈ sign, IsPlain c := by
    rcases signed with rfl | rfl
    · exact List.forall_mem_nil _
    · exact List.forall_mem_singleton.2 (by decide)
  cases writes with
  | decimal spells => exact List.forall_mem_append.2 ⟨front, spells.plain (by decide)⟩
  | @hex x _ _ mark spells =>
    have letter : IsPlain x := by rcases mark with rfl | rfl <;> decide
    simp only [List.forall_mem_cons, List.forall_mem_append]
    exact ⟨by decide, letter, front, spells.plain (by decide)⟩

theorem plain_of_parse {text : List Char} (read : parse text = some n) : ∀ c ∈ text, IsPlain c := by
  rcases parse_eq_some_iff.1 read with writes | writes
  · exact plain_of_trim (writes.plain (.inl rfl))
  · exact plain_of_trim (writes.plain (.inr rfl))

end Numeral

/-! ## Widths -/

/-- A width that is a number with the unit `b` behind it. -/
def HasUnit (width : List Char) : Prop :=
  ∃ number, Text.trim width = number ++ ['b'] ∧ (Numeral.parse number).isSome

/-- The length that a width stands for, where the unit goes before all else. -/
inductive IsWidth (width : List Char) : Length → Prop where
  | unit {number : List Char} {n : Nat} (ends : Text.trim width = number ++ ['b'])
      (read : Numeral.parse number = some n) : IsWidth width (.fixed n)
  | whole {n : Nat} (no_unit : ¬HasUnit width) (read : Numeral.parse width = some n) :
      IsWidth width (.fixed n)
  | symbol (no_unit : ¬HasUnit width) (unread : Numeral.parse width = none) :
      IsWidth width (.symbolic (String.ofList (Text.trim width)))

section

variable {width number : List Char} {n : Nat}

theorem Builder.withoutUnit_concat (read : Numeral.parse number = some n) :
    withoutUnit (number ++ ['b']) = number := by
  simp [withoutUnit, read]

theorem Builder.withoutUnit_of_not_hasUnit (no_unit : ¬HasUnit width) :
    withoutUnit (Text.trim width) = Text.trim width := by
  unfold withoutUnit
  split
  · next unit =>
    simp only [Bool.and_eq_true, decide_eq_true_eq] at unit
    obtain ⟨ends, read⟩ := unit
    obtain ⟨front, whole⟩ := List.getLast?_eq_some_iff.1 ends
    rw [whole, List.dropLast_concat] at read
    exact absurd ⟨front, whole, read⟩ no_unit
  · rfl

/-- A width that stands for a number can be written in a pragma. -/
theorem IsWidth.isValue (isWidth : IsWidth width (.fixed n)) : Pragma.IsValue width := by
  cases isWidth with
  | unit ends read =>
    refine Pragma.isValue_of_plain (plain_of_trim ?_)
    rw [ends, List.forall_mem_append]
    exact ⟨Numeral.plain_of_parse read, List.forall_mem_singleton.2 (by decide)⟩
  | whole no_unit read => exact Pragma.isValue_of_plain (Numeral.plain_of_parse read)

theorem isWidth_iff {length : Length} : IsWidth width length ↔
    length = .parse (Builder.withoutUnit (Text.trim width)) := by
  constructor
  · intro isWidth
    cases isWidth with
    | unit ends read =>
      rw [ends, Builder.withoutUnit_concat read, Length.parse, read]
    | whole no_unit read =>
      rw [Builder.withoutUnit_of_not_hasUnit no_unit, Length.parse, Numeral.parse_trim, read]
    | symbol no_unit unread =>
      rw [Builder.withoutUnit_of_not_hasUnit no_unit, Length.parse, Numeral.parse_trim, unread,
        Text.trim_trim]
  · rintro rfl
    by_cases unit : HasUnit width
    · obtain ⟨number, ends, read⟩ := unit
      obtain ⟨n, read⟩ := Option.isSome_iff_exists.1 read
      rw [ends, Builder.withoutUnit_concat read, Length.parse, read]
      exact .unit ends read
    · rw [Builder.withoutUnit_of_not_hasUnit unit, Length.parse, Numeral.parse_trim,
        Text.trim_trim]
      split
      · next n read => exact .whole unit read
      · next unread => exact .symbol unit unread

/-- A number is the width unless its text ends in the unit, behind a smaller number. -/
theorem isWidth_iff_not_hasUnit (read : Numeral.parse width = some n) :
    IsWidth width (.fixed n) ↔ ¬HasUnit width := by
  constructor
  · intro isWidth
    cases isWidth with
    | unit ends front =>
      -- The number would be sixteen times itself and eleven.
      have value := Numeral.parse_of_concat_b ends front read
      omega
    | whole no_unit => exact no_unit
  · exact fun no_unit => .whole no_unit read

theorem HasUnit.isWidth (unit : HasUnit width) (read : Numeral.parse width = some n) :
    n % 16 = 11 ∧ IsWidth width (.fixed (n / 16)) := by
  obtain ⟨number, ends, front⟩ := unit
  obtain ⟨m, front⟩ := Option.isSome_iff_exists.1 front
  have value := Numeral.parse_of_concat_b ends front read
  obtain rfl : m = n / 16 := by omega
  exact ⟨by omega, .unit ends front⟩

/-! ## The texts of numbers -/

namespace Numeral.Writes

variable {text : List Char}

theorem isWidth (writes : Writes [] text n) (no_unit : 'b' ∉ text) : IsWidth text (.fixed n) := by
  refine .whole ?_ (writes.parse_eq (.inl rfl))
  rintro ⟨number, ends, -⟩
  rw [trim_of_solid (writes.solid (.inl rfl))] at ends
  simp [ends] at no_unit

theorem isWidth_unit (writes : Writes [] text n) : IsWidth (text ++ ['b']) (.fixed n) := by
  refine .unit (trim_of_solid ?_) (writes.parse_eq (.inl rfl))
  exact List.forall_mem_append.2
    ⟨writes.solid (.inl rfl), List.forall_mem_singleton.2 (by decide)⟩

end Numeral.Writes

/-- A hexadecimal text ends in the unit if its last digit is the letter `b` behind other digits. -/
theorem hasUnit_mark_iff {x : Char} {digits : List Char} (mark : x = 'x' ∨ x = 'X')
    (spells : Numeral.Spells 16 digits n) (fits : n < Numeral.wordBound) :
    HasUnit ('0' :: x :: digits) ↔ ∃ front, front ≠ [] ∧ digits = front ++ ['b'] := by
  have writes : Numeral.Writes [] ('0' :: x :: digits) n := .hex mark spells fits
  rw [HasUnit, Numeral.trim_of_solid (writes.solid (.inl rfl))]
  constructor
  · rintro ⟨number, ends, read⟩
    have whole : number ++ ['b'] = ['0', x] ++ digits := ends.symm
    obtain ⟨front, rfl, rfl⟩ := exists_of_concat_eq_append spells.ne_nil whole
    refine ⟨front, ?_, rfl⟩
    -- With no other digit the letter stands behind `0x` alone, which is no number.
    rintro rfl
    rw [List.append_nil, Numeral.parse_mark mark (.inl rfl)] at read
    cases read
  · rintro ⟨front, ne_nil, rfl⟩
    rcases spells.of_concat_b with ⟨empty, -⟩ | ⟨m, shorter, rfl⟩
    · exact absurd empty ne_nil
    · have writes : Numeral.Writes [] ('0' :: x :: front) m := .hex mark shorter (by omega)
      exact ⟨'0' :: x :: front, rfl, by rw [writes.parse_eq (.inl rfl)]; rfl⟩

/-- The texts that are written for a number, and its decimal text with the unit. -/
theorem isWidth_texts (fits : n < Numeral.wordBound) :
    IsWidth (toString n).toList (.fixed n) ∧
      IsWidth ((toString n).toList ++ ['b']) (.fixed n) ∧
      IsWidth (Numeral.hex 1 n).toList (.fixed n) := by
  have decimal := Numeral.writes_decimal fits
  refine ⟨decimal.isWidth ?_, decimal.isWidth_unit, (Numeral.writes_hex (by decide) fits).isWidth ?_⟩
  · have spells := Numeral.spells_toDigits (by decide : 10 ≤ 16) (by decide) n
    simpa using spells.not_mem (by decide) (by decide : Numeral.digit? 10 'b' = none)
  · obtain ⟨digits, shown, isHexText⟩ := Numeral.isHexText_hex (by decide : 0 < 1) n
    have no_letter : 'b' ∉ digits := fun mem =>
      absurd (isHexText.upper _ mem) (by decide)
    simpa [shown] using no_letter

theorem isWidth_toDigits (fits : n < Numeral.wordBound) :
    IsWidth ('0' :: 'x' :: Nat.toDigits 16 n)
      (.fixed (if 16 ≤ n ∧ n % 16 = 11 then n / 16 else n)) := by
  have spells := Numeral.spells_toDigits (by decide : 16 ≤ 16) (by decide) n
  have writes : Numeral.Writes [] ('0' :: 'x' :: Nat.toDigits 16 n) n := .hex (.inl rfl) spells fits
  have read := writes.parse_eq (.inl rfl)
  have unit : HasUnit ('0' :: 'x' :: Nat.toDigits 16 n) ↔ 16 ≤ n ∧ n % 16 = 11 := by
    rw [hasUnit_mark_iff (.inl rfl) spells fits, Numeral.toDigits_ends_iff]
  split
  · next ends => exact ((unit.2 ends).isWidth read).2
  · next other => exact (isWidth_iff_not_hasUnit read).2 (mt unit.1 other)

end

/-! ## Members -/

/-- A name that a bit member can be given in a pragma. -/
structure MemberName where
  text : List Char
  named : Text.trim text ≠ []
  no_mark : ':' ∉ text
  isValue : Pragma.IsValue text

namespace MemberName

variable (name : MemberName) {width : List Char} {length : Length}

/-- The line with a pragma that declares a member of this width. -/
def line (number : Nat) (width : List Char) : SourceLine :=
  ⟨number, "# !BSF FIELD:\x7b" ++ String.ofList (name.text ++ ':' :: width) ++ "\x7d"⟩

/-- Wherever the line stands, it declares a member of this length, which takes what waits. -/
def Declares (width : List Char) (length : Length) : Prop :=
  ∀ (rules : Rules) (builder : Builder) (number : Nat), ∃ event,
    LineEvent.ofLine (name.line number width) = .ok event ∧
    builder.apply rules number event =
      { builder := { builder with pending := {} }
        result := .ok [.field { name := String.ofList (Text.trim name.text), role := .bitField
                                line := number, length, metadata := builder.pending }] }

theorem bitMember?_eq (width : List Char) :
    Builder.bitMember? (Text.trim (name.text ++ ':' :: width)) =
      some (String.ofList (Text.trim name.text),
        .parse (Builder.withoutUnit (Text.trim width))) := by
  have no_mark : ':' ∉ Text.trimStart name.text := fun mem =>
    name.no_mark ((List.dropWhile_suffix _).subset mem)
  rw [Text.trim_append_cons (by decide), Builder.bitMember?, Text.cutAt?_append no_mark]
  simp [Text.trim_trimStart, Text.trim_trimEnd, name.named]

theorem isValue_append (isValue : Pragma.IsValue width) :
    Pragma.IsValue (name.text ++ ':' :: width) := by
  have mark : Pragma.IsValue [':'] :=
    Pragma.isValue_of_plain (List.forall_mem_singleton.2 (by decide))
  exact name.isValue.append (mark.append isValue)

theorem ofLine_line (number : Nat) (isValue : Pragma.IsValue width) :
    LineEvent.ofLine (name.line number width) = .ok (.bsf
      { blocks := [⟨"FIELD", String.ofList (Text.trim (name.text ++ ':' :: width))⟩] }) := by
  have blank : ∀ c ∈ [' '], Text.isBlank c = true :=
    List.forall_mem_singleton.2 Text.isBlank_space
  have isKey : Pragma.IsKey "FIELD".toList := ⟨by decide, List.all_eq_true.1 (by decide)⟩
  let margin : Pragma.Margin := ⟨.bsf, [], [' '], Pragma.blanks_nil, blank⟩
  have same : name.line number width = margin.line number
      ([' '] ++ ("FIELD".toList ++ ':' :: '\x7b' :: (name.text ++ ':' :: width ++ ['\x7d']))) := by
    rw [line, Pragma.Margin.line, SourceLine.mk.injEq]
    refine ⟨rfl, String.toList_injective ?_⟩
    simp [margin, Pragma.Kind.mark]
  rw [same, Pragma.ofLine_margin,
    Pragma.scan_block number blank isKey (name.isValue_append isValue) [], Pragma.scan_nil]
  rfl

/-- One step of a builder over such a line. -/
theorem apply_member (rules : Rules) (builder : Builder) (number : Nat) (width : List Char) :
    builder.apply rules number (.bsf
      { blocks := [⟨"FIELD", String.ofList (Text.trim (name.text ++ ':' :: width))⟩] }) =
    { builder := { builder with pending := {} }
      result := .ok [.field { name := String.ofList (Text.trim name.text), role := .bitField
                              line := number
                              length := .parse (Builder.withoutUnit (Text.trim width))
                              metadata := builder.pending }] } := by
  simp [Builder.apply, Builder.applyPragma, Builder.applyBlocks, Builder.applyBsf,
    Builder.fieldKey?, name.bitMember?_eq, Except.map]

theorem declares_iff (isValue : Pragma.IsValue width) :
    name.Declares width length ↔ IsWidth width length := by
  rw [isWidth_iff]
  constructor
  · intro declares
    -- One place is enough, since the length is the same at all of them.
    obtain ⟨event, read, applied⟩ := declares {} {} 0
    cases (name.ofLine_line 0 isValue).symm.trans read
    rw [name.apply_member] at applied
    simpa using applied.symm
  · rintro rfl rules builder number
    exact ⟨_, name.ofLine_line number isValue, name.apply_member ..⟩

theorem declares_of_isWidth {n : Nat} (isWidth : IsWidth width (.fixed n)) :
    name.Declares width (.fixed n) :=
  (name.declares_iff isWidth.isValue).2 isWidth

/-- A width is read as the number that it says, with or without the unit, unless it is hexadecimal
and ends in the letter `b` behind another digit. The text that is shown for a length is read as the
length. -/
theorem declares_widths :
    (∀ width length, Pragma.IsValue width →
      (name.Declares width length ↔ IsWidth width length)) ∧
    (∀ width n, Numeral.parse width = some n →
      (name.Declares width (.fixed n) ↔ ¬HasUnit width) ∧
      (HasUnit width → n % 16 = 11 ∧ name.Declares width (.fixed (n / 16)))) ∧
    (∀ n < Numeral.wordBound,
      name.Declares (toString n).toList (.fixed n) ∧
      name.Declares ((toString n).toList ++ ['b']) (.fixed n) ∧
      name.Declares (Numeral.hex 1 n).toList (.fixed n) ∧
      name.Declares ('0' :: 'x' :: Nat.toDigits 16 n)
        (.fixed (if 16 ≤ n ∧ n % 16 = 11 then n / 16 else n)) ∧
      ∀ x digits, x = 'x' ∨ x = 'X' → Numeral.Spells 16 digits n →
        (name.Declares ('0' :: x :: digits) (.fixed n) ↔
          ¬∃ front, front ≠ [] ∧ digits = front ++ ['b'])) ∧
    ∀ (rules : Rules) (field : Field) (n : Nat), n < Numeral.wordBound → field.role = .bitField →
      field.length = .fixed n → ∃ text, field.lengthText? rules = pure (some (text, none)) ∧
        name.Declares text.toList (.fixed n) := by
  refine ⟨fun width length => name.declares_iff, fun width n read => ?_, fun n fits => ?_,
    fun rules field n fits role length => ?_⟩
  · rw [name.declares_iff (Pragma.isValue_of_plain (Numeral.plain_of_parse read)),
      isWidth_iff_not_hasUnit read]
    refine ⟨Iff.rfl, fun unit => ?_⟩
    obtain ⟨last, isWidth⟩ := unit.isWidth read
    exact ⟨last, name.declares_of_isWidth isWidth⟩
  · obtain ⟨decimal, unit, hexadecimal⟩ := isWidth_texts fits
    refine ⟨name.declares_of_isWidth decimal, name.declares_of_isWidth unit,
      name.declares_of_isWidth hexadecimal, name.declares_of_isWidth (isWidth_toDigits fits),
      fun x digits mark spells => ?_⟩
    have writes : Numeral.Writes [] ('0' :: x :: digits) n := .hex mark spells fits
    have isValue : Pragma.IsValue ('0' :: x :: digits) :=
      Pragma.isValue_of_plain (writes.plain (.inl rfl))
    rw [name.declares_iff isValue, isWidth_iff_not_hasUnit (writes.parse_eq (.inl rfl)),
      hasUnit_mark_iff mark spells fits]
  · have shown : field.lengthText? rules = pure (some (s!"{n}b", none)) := by
      rw [Field.lengthText?, role, length]
    have text : s!"{n}b".toList = (toString n).toList ++ ['b'] := String.toList_append ..
    refine ⟨s!"{n}b", shown, ?_⟩
    rw [text]
    exact name.declares_of_isWidth (isWidth_texts fits).2.1

/-- A name of letters. -/
def mask : MemberName where
  text := "Mask".toList
  named := by decide
  no_mark := by decide
  isValue := Pragma.isValue_of_plain (by simp [IsPlain])

/-- The widths of twenty-seven bits, of which the one in small letters is read as one bit. -/
theorem mask_declares_widths :
    mask.Declares "27".toList (.fixed 27) ∧ mask.Declares "27b".toList (.fixed 27) ∧
      mask.Declares "0x1B".toList (.fixed 27) ∧ mask.Declares "0x1b".toList (.fixed 1) := by
  obtain ⟨-, -, texts, -⟩ := mask.declares_widths
  obtain ⟨decimal, unit, hexadecimal, small, -⟩ := texts 27 (by decide)
  exact ⟨decimal, unit, hexadecimal, small⟩

/-- A hexadecimal number loses its last digit to the unit. -/
theorem hexMask_loses_digit :
    mask.line 1 "0x1b".toList = ⟨1, "# !BSF FIELD:\x7bMask:0x1b\x7d"⟩ ∧
      Numeral.parse "0x1b".toList = some 27 ∧ mask.Declares "0x1b".toList (.fixed 1) ∧
      ¬mask.Declares "0x1b".toList (.fixed 27) := by
  have read : Numeral.parse "0x1b".toList = some 27 := by decide
  have unit : HasUnit "0x1b".toList := ⟨"0x1".toList, by decide, by decide⟩
  refine ⟨by decide, read, mask.declares_of_isWidth (unit.isWidth read).2, ?_⟩
  rw [mask.declares_iff (Pragma.isValue_of_plain (by simp [IsPlain])), isWidth_iff_not_hasUnit read]
  exact not_not_intro unit

end MemberName

end BoardSchema
