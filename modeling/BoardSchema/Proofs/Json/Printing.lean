import BoardSchema.Json.Printer
import BoardSchema.Json.Reader
import BoardSchema.Proofs.Json.Scanning
import Mathlib.Tactic.IntervalCases
/-!
A value that is printed is read back as the same value, at any depth and whatever its texts hold.
-/
namespace BoardSchema.Json

/-- Values that keep what they are when they are printed: integers have 64 bits, and any other number
stands as it is written. -/
inductive Printable : Json → Prop
  | null : Printable .null
  | bool (value : Bool) : Printable (.bool value)
  | integer {n : Int} (low : -0x8000000000000000 ≤ n) (high : n < Numeral.wordBound) :
      Printable (.integer n)
  | real {literal : Literal} {text : String} (formed : literal.WellFormed)
      (value : literal.value = .real text) : Printable (.real text)
  | string (text : String) : Printable (.string text)
  | array {items : List Json} (each : ∀ item ∈ items, Printable item) : Printable (.array items)
  | object {members : List (String × Json)} (each : ∀ member ∈ members, Printable member.2) :
      Printable (.object members)

/-! ## Blanks -/

def Blank (gap : List Char) : Prop := ∀ c ∈ gap, isSpace c = true

theorem Blank.append {left right : List Char} (h : Blank left) (h' : Blank right) :
    Blank (left ++ right) := List.forall_mem_append.2 ⟨h, h'⟩

theorem blank_margin (indent : Nat) : Blank (margin indent).toList := by
  intro c mem
  rw [margin, String.toList_ofList] at mem
  rw [List.eq_of_mem_replicate mem]
  rfl

theorem skipSpace_append {gap : List Char} (blank : Blank gap) (text : List Char) :
    skipSpace (gap ++ text) = skipSpace text := List.dropWhile_append_of_pos blank

theorem skipSpace_cons {c : Char} (solid : isSpace c = false) (text : List Char) :
    skipSpace (c :: text) = c :: text := by simp [skipSpace, solid]

theorem skipSpace_skipSpace (text : List Char) : skipSpace (skipSpace text) = skipSpace text :=
  List.dropWhile_idempotent ..

/-! ## Values by their first characters -/

section

variable (fuel : Nat) (rest : List Char)

theorem scanValue?_null :
    scanValue? (fuel + 1) ("null".toList ++ rest) = some (.null, rest) := rfl

theorem scanValue?_bool (value : Bool) :
    scanValue? (fuel + 1) ((if value then "true" else "false").toList ++ rest) =
      some (.bool value, rest) := by
  cases value <;> rfl

theorem scanValue?_quote : scanValue? (fuel + 1) ('"' :: rest) =
    (scanText? rest).map (Prod.map (Option.elim · .unreadable .string) id) := rfl

theorem scanValue?_emptyArray :
    scanValue? (fuel + 1) ("[]".toList ++ rest) = some (.array [], rest) := rfl

theorem scanValue?_emptyObject :
    scanValue? (fuel + 1) ("\x7b\x7d".toList ++ rest) = some (.object [], rest) := rfl

/-- An array that is read has a first item. -/
theorem scanItems?_bracket : scanItems? fuel (']' :: rest) = none := by
  match fuel with
  | 0 | 1 | fuel + 2 => rfl

theorem scanMembers?_bracket : scanMembers? fuel ('}' :: rest) = none := by
  cases fuel <;> rfl

/-- Blanks in front of a value, of items and of members do not matter. -/
theorem scan_skipSpace (text : List Char) :
    scanValue? fuel (skipSpace text) = scanValue? fuel text ∧
      scanItems? fuel (skipSpace text) = scanItems? fuel text ∧
      scanMembers? fuel (skipSpace text) = scanMembers? fuel text := by
  have value (fuel : Nat) : scanValue? fuel (skipSpace text) = scanValue? fuel text := by
    cases fuel with
    | zero => rfl
    | succ fuel => rw [scanValue?, skipSpace_skipSpace, scanValue?]
  cases fuel with
  | zero => exact ⟨rfl, rfl, rfl⟩
  | succ fuel =>
    refine ⟨value (fuel + 1), ?_, ?_⟩
    · rw [scanItems?, value, scanItems?]
    · rw [scanMembers?, skipSpace_skipSpace, scanMembers?]

theorem scanValue?_append {gap : List Char} (blank : Blank gap) (text : List Char) :
    scanValue? fuel (gap ++ text) = scanValue? fuel text := by
  rw [← (scan_skipSpace fuel (gap ++ text)).1, skipSpace_append blank, (scan_skipSpace fuel text).1]

end

/-! ## Values -/

/-- A value is read back from its text behind any blanks, unless a number could go on behind it. -/
def Reads (json : Json) : Prop := ∀ indent fuel gap rest, Blank gap → Literal.Stops rest →
  2 * (prettyAt indent json).length < fuel →
    scanValue? fuel (gap ++ ((prettyAt indent json).toList ++ rest)) = some (json, rest)

/-- Blanks in front do not matter, and there is always a step for a value. -/
theorem Reads.of_succ {json : Json} (h : ∀ indent fuel rest, Literal.Stops rest →
      2 * (prettyAt indent json).length ≤ fuel →
        scanValue? (fuel + 1) ((prettyAt indent json).toList ++ rest) = some (json, rest)) :
    Reads json := by
  intro indent fuel gap rest blank stops enough
  obtain ⟨fuel, rfl⟩ := Nat.exists_eq_succ_of_ne_zero (Nat.ne_zero_of_lt enough)
  rw [scanValue?_append _ blank]
  exact h indent fuel rest stops (Nat.le_of_lt_succ enough)

theorem reads_null : Reads .null :=
  .of_succ fun _ fuel rest _ _ => scanValue?_null fuel rest

theorem reads_bool (value : Bool) : Reads (.bool value) :=
  .of_succ fun _ fuel rest _ _ => scanValue?_bool fuel rest value

theorem reads_string (text : String) : Reads (.string text) :=
  .of_succ fun indent fuel rest stops enough => by
    have shown : prettyAt indent (.string text) = quote text := rfl
    have quoted : (quote text).toList ++ rest =
        '"' :: (text.toList.flatMap escape ++ '"' :: rest) := by simp [quote]
    rw [shown, quoted, scanValue?_quote, scanText?_escape]
    rfl

/-- A value that starts like a number is one. -/
theorem scanValue?_number {c : Char} (number : c = '-' ∨ c.isDigit = true) (fuel : Nat)
    (text : List Char) : scanValue? (fuel + 1) (c :: text) =
      (Literal.scan? (c :: text)).map fun (literal, rest) => (literal.value, rest) := by
  rcases number with rfl | digit
  · rfl
  · obtain ⟨low, high⟩ : 48 ≤ c.toNat ∧ c.toNat ≤ 57 := Char.isDigit_iff_toNat.1 digit
    rw [← Char.ofNat_toNat c]
    generalize c.toNat = code at low high
    interval_cases code <;> rfl

theorem Literal.exists_text_eq_cons {literal : Literal} (formed : literal.WellFormed) :
    ∃ c text, literal.text = c :: text ∧ (c = '-' ∨ c.isDigit = true) := by
  rw [Literal.text_eq]
  cases literal.negative with
  | true => exact ⟨_, _, rfl, .inl rfl⟩
  | false =>
    obtain ⟨first, more, same⟩ := List.exists_cons_of_ne_nil formed.whole.1
    exact ⟨first, _, by rw [same]; rfl, .inr (formed.whole.2 first (same ▸ List.mem_cons_self))⟩

theorem reads_number {literal : Literal} (formed : literal.WellFormed)
    (shown : ∀ indent, (prettyAt indent literal.value).toList = literal.text) :
    Reads literal.value := .of_succ fun indent fuel rest stops enough => by
  obtain ⟨c, text, same, number⟩ := Literal.exists_text_eq_cons formed
  have scanned := Literal.scan?_text formed stops
  rw [same, List.cons_append] at scanned
  rw [shown, same, List.cons_append, scanValue?_number number, scanned]
  rfl

theorem reads_integer {n : Int} (low : -0x8000000000000000 ≤ n) (high : n < Numeral.wordBound) :
    Reads (.integer n) := by
  have value := Literal.value_ofInt low high
  rw [← value]
  refine reads_number (Literal.wellFormed_ofInt n) fun indent => ?_
  rw [value]
  exact (Literal.text_ofInt n).symm

theorem reads_real {literal : Literal} {text : String} (formed : literal.WellFormed)
    (value : literal.value = .real text) : Reads (.real text) := by
  have same : literal.text = text.toList := by
    unfold Literal.value at value
    split at value
    · cases value
    · split at value
      · cases value
        simp
      · cases value
  rw [← value]
  refine reads_number formed fun indent => ?_
  rw [value]
  exact same.symm

/-! ## Arrays and objects -/

theorem Literal.stops_cons {c : Char}
    (other : c.isDigit = false ∧ c ≠ '.' ∧ c ≠ 'e' ∧ c ≠ 'E') (rest : List Char) :
    Literal.Stops (c :: rest) := by
  rintro c ⟨⟩
  exact other

theorem blank_newline : Blank ['\n'] := List.forall_mem_singleton.2 rfl

/-- A bracket on a line of its own. -/
def bracketLine (indent : Nat) (bracket : Char) (rest : List Char) : List Char :=
  '\n' :: ((margin indent).toList ++ bracket :: rest)

theorem skipSpace_bracketLine (indent : Nat) {bracket : Char} (solid : isSpace bracket = false)
    (rest : List Char) : skipSpace (bracketLine indent bracket rest) = bracket :: rest := by
  have line : bracketLine indent bracket rest =
      ['\n'] ++ ((margin indent).toList ++ bracket :: rest) := rfl
  rw [line, skipSpace_append blank_newline, skipSpace_append (blank_margin indent),
    skipSpace_cons solid]

/-- The items of an array are read back up to its closing bracket. -/
theorem scanItems?_pretty {items : List Json} (nonempty : items ≠ [])
    (each : ∀ item ∈ items, Reads item) (indent outer fuel : Nat) {gap : List Char}
    (rest : List Char) (blank : Blank gap)
    (enough : 2 * (prettyItems indent items).length + 1 < fuel) :
    scanItems? fuel (gap ++ ((prettyItems indent items).toList ++ bracketLine outer ']' rest)) =
      some (items, rest) := by
  induction items generalizing fuel gap with
  | nil => exact absurd rfl nonempty
  | cons item items ih =>
    obtain ⟨fuel, rfl⟩ := Nat.exists_eq_succ_of_ne_zero (Nat.ne_zero_of_lt enough)
    have here := each item List.mem_cons_self indent fuel (gap ++ (margin indent).toList)
    cases items with
    | nil =>
      have shown : prettyItems indent [item] = margin indent ++ prettyAt indent item := rfl
      simp only [shown, String.length_append] at enough
      have read := here (bracketLine outer ']' rest) (blank.append (blank_margin indent))
        (Literal.stops_cons (by decide) _) (by omega)
      rw [List.append_assoc] at read
      simp only [shown, String.toList_append, List.append_assoc, scanItems?, read,
        skipSpace_bracketLine outer (show isSpace ']' = false from rfl)]
    | cons next more =>
      have shown : prettyItems indent (item :: next :: more) =
          margin indent ++ prettyAt indent item ++ ",\n" ++ prettyItems indent (next :: more) := rfl
      simp only [shown, String.length_append] at enough
      have short : ",\n".length = 2 := rfl
      have read := here (',' :: (['\n'] ++ ((prettyItems indent (next :: more)).toList ++
        bracketLine outer ']' rest))) (blank.append (blank_margin indent))
        (Literal.stops_cons (by decide) _) (by omega)
      have later := ih (List.cons_ne_nil _ _) (fun item mem => each item (List.mem_cons_of_mem _ mem))
        fuel blank_newline (by omega)
      rw [List.append_assoc] at read
      have line : ",\n".toList = [',', '\n'] := rfl
      simp only [shown, String.toList_append, List.append_assoc, line, List.cons_append,
        List.nil_append, scanItems?] at read later ⊢
      rw [read]
      simp only [skipSpace_cons (show isSpace ',' = false from rfl), later]
      rfl

/-- The keys of an object are texts, each with a value. -/
def keyed (member : String × Json) : Option String × Json := (some member.1, member.2)

theorem ofMembers_keyed (members : List (String × Json)) :
    ofMembers (members.map keyed) = .object members := by
  have all : (members.map keyed).mapM (fun member => member.1.map fun key => (key, member.2)) =
      some members := by
    induction members with
    | nil => rfl
    | cons member members ih => simp [keyed, ih]
  unfold ofMembers
  split
  · next found same => rw [Option.some.inj (same.symm.trans all)]
  · next same => cases same.symm.trans all

/-- A key and the colon behind it are read back, and the value is what follows. -/
theorem scanMembers?_key {gap : List Char} (blank : Blank gap) (fuel : Nat) (key : String)
    (text : List Char) :
    scanMembers? (fuel + 1) (gap ++ ((quote key).toList ++ (": ".toList ++ text))) =
      match scanValue? fuel text with
      | none => none
      | some (value, rest) =>
        match skipSpace rest with
        | '}' :: rest => some ([(some key, value)], rest)
        | ',' :: rest => (scanMembers? fuel rest).map (Prod.map ((some key, value) :: ·) id)
        | _ => none := by
  have quoted : (quote key).toList ++ (": ".toList ++ text) =
      '"' :: (key.toList.flatMap escape ++ '"' :: ':' :: ' ' :: text) := by simp [quote]
  rw [quoted, scanMembers?, skipSpace_append blank, skipSpace_cons rfl]
  simp only [scanText?_escape, skipSpace_cons (show isSpace ':' = false from rfl)]
  have space : Blank [' '] := List.forall_mem_singleton.2 rfl
  have value : scanValue? fuel (' ' :: text) = scanValue? fuel text :=
    scanValue?_append fuel space text
  exact value ▸ rfl

theorem scanMembers?_pretty {members : List (String × Json)} (nonempty : members ≠ [])
    (each : ∀ member ∈ members, Reads member.2) (indent outer fuel : Nat) {gap : List Char}
    (rest : List Char) (blank : Blank gap)
    (enough : 2 * (prettyMembers indent members).length + 1 < fuel) :
    scanMembers? fuel
        (gap ++ ((prettyMembers indent members).toList ++ bracketLine outer '}' rest)) =
      some (members.map keyed, rest) := by
  induction members generalizing fuel gap with
  | nil => exact absurd rfl nonempty
  | cons member members ih =>
    obtain ⟨key, value⟩ := member
    obtain ⟨fuel, rfl⟩ := Nat.exists_eq_succ_of_ne_zero (Nat.ne_zero_of_lt enough)
    have here : Reads value := each (key, value) List.mem_cons_self
    have key_read := scanMembers?_key (blank.append (blank_margin indent)) fuel key
    cases members with
    | nil =>
      have shown : prettyMembers indent [(key, value)] =
          margin indent ++ quote key ++ ": " ++ prettyAt indent value := rfl
      simp only [shown, String.length_append] at enough
      have read := here indent fuel [] (bracketLine outer '}' rest) (List.forall_mem_nil _)
        (Literal.stops_cons (by decide) _) (by omega)
      simp only [shown, String.toList_append, List.append_assoc] at key_read ⊢
      rw [key_read]
      simp only [List.nil_append] at read
      simp only [read, skipSpace_bracketLine outer (show isSpace '}' = false from rfl)]
      rfl
    | cons next more =>
      have shown : prettyMembers indent ((key, value) :: next :: more) = margin indent ++ quote key ++
          ": " ++ prettyAt indent value ++ ",\n" ++ prettyMembers indent (next :: more) := rfl
      simp only [shown, String.length_append] at enough
      have short : ",\n".length = 2 := rfl
      have line : ",\n".toList = [',', '\n'] := rfl
      have read := here indent fuel [] (',' :: (['\n'] ++ ((prettyMembers indent
        (next :: more)).toList ++ bracketLine outer '}' rest))) (List.forall_mem_nil _)
        (Literal.stops_cons (by decide) _) (by omega)
      have later := ih (List.cons_ne_nil _ _)
        (fun member mem => each member (List.mem_cons_of_mem _ mem)) fuel blank_newline (by omega)
      simp only [shown, String.toList_append, List.append_assoc, line, List.cons_append,
        List.nil_append] at key_read read later ⊢
      rw [key_read, read]
      simp only [skipSpace_cons (show isSpace ',' = false from rfl), later]
      rfl

/-- Behind an opening bracket stand the items of an array or the members of an object. -/
theorem scanValue?_opening {fuel : Nat} {text rest : List Char} :
    (∀ items, scanItems? fuel text = some (items, rest) →
      scanValue? (fuel + 1) ('[' :: text) = some (.array items, rest)) ∧
    ∀ members, scanMembers? fuel text = some (List.map keyed members, rest) →
      scanValue? (fuel + 1) ('{' :: text) = some (.object members, rest) := by
  have ⟨_, items_read, members_read⟩ := scan_skipSpace fuel text
  refine ⟨fun items read => ?_, fun members read => ?_⟩
  · rw [← items_read] at read
    rw [scanValue?, skipSpace_cons rfl]
    simp only
    split
    · next same =>
      rw [same, scanItems?_bracket] at read
      cases read
    · rw [read]
      rfl
  · rw [← members_read] at read
    rw [scanValue?, skipSpace_cons rfl]
    simp only
    split
    · next same =>
      rw [same, scanMembers?_bracket] at read
      cases read
    · rw [read, Option.map_some, ofMembers_keyed]

theorem reads_array {items : List Json} (each : ∀ item ∈ items, Reads item) :
    Reads (.array items) := .of_succ fun indent fuel rest stops enough => by
  cases items with
  | nil => exact scanValue?_emptyArray fuel rest
  | cons item items =>
    have shown : prettyAt indent (.array (item :: items)) =
        "[\n" ++ prettyItems (indent + 2) (item :: items) ++ "\n" ++ margin indent ++ "]" := rfl
    have opening : "[\n".length = 2 := rfl
    simp only [shown, String.length_append] at enough
    have read := scanItems?_pretty (List.cons_ne_nil item items) each (indent + 2) indent fuel rest
      blank_newline (by omega)
    have text : (prettyAt indent (.array (item :: items))).toList ++ rest = '[' :: (['\n'] ++
        ((prettyItems (indent + 2) (item :: items)).toList ++ bracketLine indent ']' rest)) := by
      simp [shown, bracketLine]
    rw [text, scanValue?_opening.1 _ read]

theorem reads_object {members : List (String × Json)} (each : ∀ member ∈ members, Reads member.2) :
    Reads (.object members) := .of_succ fun indent fuel rest stops enough => by
  cases members with
  | nil => exact scanValue?_emptyObject fuel rest
  | cons member members =>
    have shown : prettyAt indent (.object (member :: members)) = "\x7b\n" ++
        prettyMembers (indent + 2) (member :: members) ++ "\n" ++ margin indent ++ "\x7d" := rfl
    have opening : "\x7b\n".length = 2 := rfl
    simp only [shown, String.length_append] at enough
    have read := scanMembers?_pretty (List.cons_ne_nil member members) each (indent + 2) indent
      fuel rest blank_newline (by omega)
    have text : (prettyAt indent (.object (member :: members))).toList ++ rest = '{' :: (['\n'] ++
        ((prettyMembers (indent + 2) (member :: members)).toList ++
          bracketLine indent '}' rest)) := by
      simp [shown, bracketLine]
    rw [text, scanValue?_opening.2 _ read]

theorem Printable.reads {json : Json} (printable : Printable json) : Reads json := by
  induction printable with
  | null => exact reads_null
  | bool value => exact reads_bool value
  | integer low high => exact reads_integer low high
  | real formed value => exact reads_real formed value
  | string text => exact reads_string text
  | array _ ih => exact reads_array ih
  | object _ ih => exact reads_object ih

/-- What is printed is read back. -/
theorem parse?_pretty {json : Json} (printable : Printable json) : parse? json.pretty = some json := by
  have read := printable.reads 0 (2 * json.pretty.length + 2) [] [] (List.forall_mem_nil _) nofun
    (by simp [pretty])
  simp only [List.nil_append, List.append_nil] at read
  have whole : scanValue? (2 * json.pretty.length + 2) json.pretty.toList = some (json, []) := read
  rw [parse?, whole]
  rfl

end BoardSchema.Json
