import BoardSchema.Output.FieldText
import BoardSchema.Proofs.Numeral
/-!
The length and the value that a byte field is shown with. The fixups for its name change the length
one after the other, as long as it stays a number of 64 bits. A list whose elements are 2, 4 or 8
bytes wide at the length that is shown gets their unit, and no value gets a unit twice.
-/
namespace BoardSchema

/-! ## Fixups -/

/-- A length is corrected for a name by fixups, in order. A fixup of another name is passed over,
and so is one whose sum leaves the 64 bits. -/
inductive Corrects (name : String) : List Fixup → Nat → Nat → Prop where
  | nil {length : Nat} : Corrects name [] length length
  | adjust {fixup : Fixup} {fixups : List Fixup} {length sum result : Nat}
      (named : fixup.pattern.Matches name) (sum_eq : (sum : Int) = length + fixup.delta)
      (fits : sum < Numeral.wordBound) (rest : Corrects name fixups sum result) :
      Corrects name (fixup :: fixups) length result
  | skip {fixup : Fixup} {fixups : List Fixup} {length result : Nat}
      (leaves : fixup.pattern.Matches name →
        (length : Int) + fixup.delta < 0 ∨ Numeral.wordBound ≤ (length : Int) + fixup.delta)
      (rest : Corrects name fixups length result) :
      Corrects name (fixup :: fixups) length result

section

variable {name : String} {fixups : List Fixup} {length result : Nat}

theorem Fixup.adjust?_eq_some {fixup : Fixup} {sum : Nat}
    (adjusted : fixup.adjust? length = some sum) :
    (sum : Int) = length + fixup.delta ∧ sum < Numeral.wordBound := by
  simp only [adjust?] at adjusted
  split at adjusted
  · cases adjusted
    omega
  · cases adjusted

theorem Fixup.adjust?_eq_none {fixup : Fixup} (refused : fixup.adjust? length = none) :
    (length : Int) + fixup.delta < 0 ∨ Numeral.wordBound ≤ (length : Int) + fixup.delta := by
  simp only [adjust?] at refused
  split at refused
  · cases refused
  · omega

theorem exists_corrects (name : String) (fixups : List Fixup) (length : Nat) :
    ∃ result, (Fixup.adjustAll name fixups length).outcome = .ok result ∧
      Corrects name fixups length result := by
  induction fixups generalizing length with
  | nil => exact ⟨length, rfl, .nil⟩
  | cons fixup rest ih =>
    rw [Fixup.adjustAll]
    by_cases named : fixup.pattern.Matches name
    · rw [if_pos named]
      cases adjusted : fixup.adjust? length with
      | some sum =>
        obtain ⟨sum_eq, fits⟩ := Fixup.adjust?_eq_some adjusted
        obtain ⟨result, outcome, corrects⟩ := ih sum
        exact ⟨result, outcome, .adjust named sum_eq fits corrects⟩
      | none =>
        obtain ⟨result, outcome, corrects⟩ := ih length
        exact ⟨result, Logged.outcome_bind_eq_ok.2 ⟨(), rfl, outcome⟩,
          .skip (fun _ => Fixup.adjust?_eq_none adjusted) corrects⟩
    · rw [if_neg named]
      obtain ⟨result, outcome, corrects⟩ := ih length
      exact ⟨result, outcome, .skip (fun matched => absurd matched named) corrects⟩

theorem Corrects.unique {other : Nat} (corrects : Corrects name fixups length result)
    (again : Corrects name fixups length other) : result = other := by
  induction corrects generalizing other with
  | nil =>
    cases again
    rfl
  | adjust named sum_eq fits _ ih =>
    cases again with
    | adjust _ sum_eq' _ rest =>
      obtain rfl := Int.ofNat_inj.1 (sum_eq.trans sum_eq'.symm)
      exact ih rest
    | skip leaves =>
      have outside := leaves named
      omega
  | skip leaves _ ih =>
    cases again with
    | adjust named sum_eq fits =>
      have outside := leaves named
      omega
    | skip _ rest => exact ih rest

/-- A corrected length stays a number of 64 bits. -/
theorem Corrects.lt (corrects : Corrects name fixups length result)
    (fits : length < Numeral.wordBound) : result < Numeral.wordBound := by
  induction corrects with
  | nil => exact fits
  | adjust _ _ sum_fits _ ih => exact ih sum_fits
  | skip _ _ ih => exact ih fits

end

/-! ## Lists -/

/-- A list between braces, without quotes and colons, that commas cut into these elements. -/
structure IsList (text : List Char) (elements : List (List Char)) : Prop where
  text_eq : text = '{' :: ([','].intercalate elements ++ ['}'])
  ne_nil : elements ≠ []
  no_comma : ∀ element ∈ elements, ',' ∉ element
  plain : '"' ∉ text ∧ '\'' ∉ text ∧ ':' ∉ text

/-- The number of elements that are not blank. -/
def countSolid (elements : List (List Char)) : Nat :=
  elements.countP fun element => !(Text.trim element).isEmpty

/-- Units and the number of bytes that an element of each of them takes. -/
def unitWords : List (Nat × String) := [(2, "WORD"), (4, "DWORD"), (8, "QWORD")]

/-- The value is a list whose elements share so many bytes, each with that width. -/
def SharesBytes (value : String) (bytes width : Nat) : Prop :=
  ∃ elements, IsList (Text.trim value.toList) elements ∧ 0 < countSolid elements ∧
    bytes = countSolid elements * width

/-- How a value of so many bytes is shown: a list of elements that are as wide as a unit without
blanks around it and with that unit, every other value as it is. -/
inductive Annotates (value : String) (bytes : Nat) : String → Prop where
  | unit {width : Nat} {word : String} (known : (width, word) ∈ unitWords)
      (shares : SharesBytes value bytes width) :
      Annotates value bytes (String.ofList (Text.trim value.toList) ++ ":" ++ word)
  | same (no_unit : ∀ width word, (width, word) ∈ unitWords → ¬SharesBytes value bytes width) :
      Annotates value bytes value

section

variable {text : List Char} {elements : List (List Char)} {value shown : String} {bytes width : Nat}

theorem listBody?_eq_some_iff {body : List Char} : listBody? text = some body ↔
    text = '{' :: (body ++ ['}']) ∧ '"' ∉ text ∧ '\'' ∉ text ∧ ':' ∉ text := by
  have clear (body : List Char) : (body.any fun c => c = '"' || c = '\'' || c = ':') = false ↔
      '"' ∉ body ∧ '\'' ∉ body ∧ ':' ∉ body := by
    simp only [List.any_eq_false, Bool.or_eq_true, decide_eq_true_eq, not_or]
    constructor
    · intro apart
      exact ⟨fun mem => (apart _ mem).1.1 rfl, fun mem => (apart _ mem).1.2 rfl,
        fun mem => (apart _ mem).2 rfl⟩
    · rintro ⟨double, single, colon⟩ c mem
      refine ⟨⟨?_, ?_⟩, ?_⟩ <;> rintro rfl <;> contradiction
  unfold listBody?
  constructor
  · intro found
    split at found
    · split at found
      · next rest last =>
        obtain ⟨front, rfl⟩ := List.getLast?_eq_some_iff.1 last
        simp only [List.dropLast_concat] at found
        split at found
        · cases found
        · next plain =>
          cases found
          have plain := (clear _).1 (by simpa using plain)
          exact ⟨rfl, by simpa using plain⟩
      · cases found
    · cases found
  · rintro ⟨rfl, plain⟩
    have plain := (clear body).2 (by simpa using plain)
    simp [plain]

/-- The elements of a list are what stands between its commas. -/
theorem isList_iff : IsList text elements ↔
    ∃ body, listBody? text = some body ∧ elements = body.splitOn ',' := by
  constructor
  · rintro ⟨text_eq, ne_nil, no_comma, plain⟩
    exact ⟨_, listBody?_eq_some_iff.2 ⟨text_eq, plain⟩,
      (List.splitOn_intercalate ',' no_comma ne_nil).symm⟩
  · rintro ⟨body, found, rfl⟩
    obtain ⟨text_eq, plain⟩ := listBody?_eq_some_iff.1 found
    have whole : [','].intercalate (body.splitOn ',') = body := List.intercalate_splitOn ','
    exact ⟨by rw [whole, text_eq], List.splitOn_ne_nil _ _,
      fun _ => Text.not_mem_of_mem_splitOn, plain⟩

theorem sharesBytes_iff : SharesBytes value bytes width ↔
    ∃ body, listBody? (Text.trim value.toList) = some body ∧ 0 < elementCount body ∧
      bytes = elementCount body * width := by
  constructor
  · rintro ⟨elements, isList, positive, share⟩
    obtain ⟨body, found, rfl⟩ := isList_iff.1 isList
    exact ⟨body, found, positive, share⟩
  · rintro ⟨body, found, positive, share⟩
    exact ⟨body.splitOn ',', isList_iff.2 ⟨body, found, rfl⟩, positive, share⟩

theorem unitWord?_eq_some_iff {word : String} :
    unitWord? width = some word ↔ (width, word) ∈ unitWords := by
  unfold unitWord?
  split <;> simp_all [unitWords, eq_comm]

theorem elementUnit?_eq_some_iff {count : Nat} (positive : 0 < count) {word : String} :
    elementUnit? count bytes = some word ↔
      ∃ width, (width, word) ∈ unitWords ∧ bytes = count * width := by
  unfold elementUnit?
  split
  · next even =>
    rw [unitWord?_eq_some_iff]
    constructor
    · intro known
      exact ⟨_, known, (Nat.mul_div_cancel' (Nat.dvd_of_mod_eq_zero even)).symm⟩
    · rintro ⟨width, known, rfl⟩
      rwa [Nat.mul_div_cancel_left _ positive]
  · next uneven =>
    refine iff_of_false (by simp) ?_
    rintro ⟨width, -, rfl⟩
    exact uneven (Nat.mul_mod_right ..)

theorem exists_annotates (value : String) (bytes : Nat) :
    ∃ shown, (annotateList value bytes).outcome = .ok shown ∧ Annotates value bytes shown := by
  simp only [annotateList]
  split
  · next none_found =>
    refine ⟨value, rfl, .same fun width word _ shares => ?_⟩
    obtain ⟨body, found, -⟩ := sharesBytes_iff.1 shares
    rw [none_found] at found
    cases found
  · next body found =>
    have shared {width : Nat} (shares : SharesBytes value bytes width) :
        0 < elementCount body ∧ bytes = elementCount body * width := by
      obtain ⟨_, again, share⟩ := sharesBytes_iff.1 shares
      cases found.symm.trans again
      exact share
    split
    · next bare =>
      refine ⟨value, rfl, .same fun width word known shares => ?_⟩
      obtain ⟨positive, share⟩ := shared shares
      -- An element of one byte has no unit.
      have wide : ∀ unit ∈ unitWords, 2 ≤ unit.1 := by decide
      have wide := wide _ known
      simp only [Bool.or_eq_true, decide_eq_true_eq] at bare
      have more : elementCount body * 2 ≤ bytes := share ▸ Nat.mul_le_mul_left _ wide
      omega
    · next other =>
      simp only [Bool.or_eq_true, decide_eq_true_eq, not_or] at other
      have positive := Nat.pos_of_ne_zero other.1
      split
      · next word unit =>
        obtain ⟨width, known, share⟩ := (elementUnit?_eq_some_iff positive).1 unit
        exact ⟨_, rfl, .unit known (sharesBytes_iff.2 ⟨body, found, positive, share⟩)⟩
      · next no_unit =>
        refine ⟨value, rfl, .same fun width word known shares => ?_⟩
        have unit := (elementUnit?_eq_some_iff positive).2 ⟨width, known, (shared shares).2⟩
        rw [no_unit] at unit
        cases unit

theorem SharesBytes.width_eq {other : Nat} (shares : SharesBytes value bytes width)
    (again : SharesBytes value bytes other) : width = other := by
  obtain ⟨body, found, positive, rfl⟩ := sharesBytes_iff.1 shares
  obtain ⟨body', found', -, share⟩ := sharesBytes_iff.1 again
  cases found.symm.trans found'
  exact Nat.eq_of_mul_eq_mul_left positive share

theorem Annotates.unique {other : String} (annotates : Annotates value bytes shown)
    (again : Annotates value bytes other) : shown = other := by
  have one : ∀ unit ∈ unitWords, ∀ unit' ∈ unitWords, unit.1 = unit'.1 → unit = unit' := by decide
  cases annotates with
  | unit known shares =>
    cases again with
    | unit known' shares' =>
      cases one _ known _ known' (shares.width_eq shares')
      rfl
    | same no_unit => exact absurd shares (no_unit _ _ known)
  | same no_unit =>
    cases again with
    | unit known shares => exact absurd shares (no_unit _ _ known)
    | same => rfl

/-- With a unit behind it, a list is no list any more. -/
theorem not_sharesBytes_unit {word : String} (known : (width, word) ∈ unitWords)
    (other : Nat) : ¬SharesBytes (String.ofList text ++ ":" ++ word) bytes other := by
  have letters : ∀ unit ∈ unitWords, unit.2.toList.getLast? = some 'D' := by decide
  obtain ⟨front, word_eq⟩ := List.getLast?_eq_some_iff.1 (letters _ known)
  rintro ⟨elements, isList, -⟩
  have solid : Text.isBlank 'D' = false := by decide
  have shown : Text.trim (text ++ ':' :: (front ++ ['D'])) =
      Text.trimStart (text ++ ':' :: front) ++ ['D'] := by
    simpa [Text.trimEnd] using Text.trim_append_cons solid (text ++ ':' :: front) []
  have ends := congrArg List.getLast? isList.text_eq
  rw [← List.cons_append, List.getLast?_concat] at ends
  simp [word_eq, shown] at ends

/-- A value that is shown for a length is shown the same way again. -/
theorem Annotates.again (annotates : Annotates value bytes shown) :
    Annotates shown bytes shown := by
  cases annotates with
  | unit known => exact .same fun other _ _ => not_sharesBytes_unit known other
  | same no_unit => exact .same no_unit

end

/-! ## Byte fields -/

namespace Field

/-- The lines of a byte field that is shown with this length and this value. -/
def byteLines (rules : Rules) (field : Field) (bytes : Nat) (value : Option String) :
    List OutputLine :=
  ⟨0, "- " ++ field.name ++ " :"⟩ :: metadataLines rules field.metadata ++
    keyLines "length" (Numeral.hex 2 bytes) ++ value.toList.flatMap (keyLines "value")

variable {rules : Rules} {table : TemplateTable} {field : Field} {n : Nat}

/-- A value is shown as it is, or with the unit for its bytes if their number is known. -/
theorem exists_valueText (bytes : Option Nat) (value : Option String) :
    ∃ text, (valueLines bytes value).outcome = .ok (text.toList.flatMap (keyLines "value")) ∧
      Option.Rel (fun value text => ∀ n ∈ bytes, Annotates value n text) value text := by
  cases value with
  | none => exact ⟨none, rfl, .none⟩
  | some value =>
    cases bytes with
    | none => exact ⟨some value, by simp [valueLines], .some (by simp)⟩
    | some bytes =>
      obtain ⟨shown, outcome, annotates⟩ := exists_annotates value bytes
      have valueLines : (valueLines (some bytes) (some value)).outcome =
          .ok (keyLines "value" shown) :=
        Logged.outcome_bind_eq_ok.2 ⟨shown, outcome, rfl⟩
      exact ⟨some shown, by simp [valueLines], .some (by simpa using annotates)⟩

theorem lines_eq {length : Option (String × Option Nat)} {value : List OutputLine}
    (no_call : field.expand = none) (stays : field.role ≠ .structClose)
    (lengthText : (lengthText? rules field).outcome = .ok length)
    (valueText : (valueLines (length.bind (·.2)) field.value).outcome = .ok value) :
    (field.lines rules table).outcome =
      .ok (⟨0, "- " ++ field.name ++ " :"⟩ :: metadataLines rules field.metadata ++
        (length.toList.flatMap fun (text, _) => keyLines "length" text) ++ value) := by
  simp only [lines, no_call, if_neg stays]
  refine Logged.outcome_bind_eq_ok.2 ⟨_, lengthText, ?_⟩
  exact Logged.outcome_bind_eq_ok.2 ⟨_, valueText, rfl⟩

theorem exists_byteLines {bytes : Nat} (no_call : field.expand = none)
    (stays : field.role ≠ .structClose)
    (length : (lengthText? rules field).outcome = .ok (some (Numeral.hex 2 bytes, some bytes))) :
    ∃ text, (field.lines rules table).outcome = .ok (field.byteLines rules bytes text) ∧
      Option.Rel (Annotates · bytes ·) field.value text := by
  obtain ⟨text, outcome, annotates⟩ := exists_valueText (some bytes) field.value
  refine ⟨text, ?_, by simpa using annotates⟩
  simpa [byteLines] using lines_eq no_call stays length outcome

/-- Only fields that take room have a length. -/
theorem exists_lengthText? (rules : Rules) (field : Field) :
    ∃ shown, (lengthText? rules field).outcome = .ok shown ∧
      (shown.isSome ↔ field.role ∈ [.plain, .padding, .bitField]) := by
  unfold lengthText?
  split
  case h_2 bytes role _ =>
    obtain ⟨shown, outcome, -⟩ := exists_corrects field.name rules.fixups bytes
    exact ⟨_, Logged.outcome_bind_eq_ok.2 ⟨shown, outcome, rfl⟩, by simp [role]⟩
  case h_7 =>
    refine ⟨none, rfl, ?_⟩
    cases role : field.role <;> cases length : field.length <;> simp_all
  all_goals exact ⟨_, rfl, by simp [*]⟩

theorem lines_plain (rules : Rules) (table : TemplateTable) (no_call : field.expand = none)
    (role : field.role = .plain) (length : field.length = .fixed n) :
    ∃ shown text, (field.lines rules table).outcome = .ok (field.byteLines rules shown text) ∧
      Corrects field.name rules.fixups n shown ∧
      Option.Rel (Annotates · shown ·) field.value text := by
  obtain ⟨shown, outcome, corrects⟩ := exists_corrects field.name rules.fixups n
  have lengthText : (lengthText? rules field).outcome =
      .ok (some (Numeral.hex 2 shown, some shown)) := by
    simp only [lengthText?, role, length]
    exact Logged.outcome_bind_eq_ok.2 ⟨shown, outcome, rfl⟩
  obtain ⟨text, lines, annotates⟩ := exists_byteLines no_call (by simp [role]) lengthText
  exact ⟨shown, text, lines, corrects, annotates⟩

end Field
end BoardSchema
