import BoardSchema.Line.Pragma
import BoardSchema.Proofs.Text.Trimming
/-!
A pragma is read piece by piece. Every text is a row of blocks and stray tokens with blanks between
them, at the end of which one block may be left open, and reading it gives these blocks and an error
for each token that is none, in the order in which they stand. So a token that is no block costs
nothing but itself.
-/
namespace BoardSchema.Pragma

/-! ## Values -/

/-- Where a reader of a value stands: how many braces are open, and whether a quotation is. -/
structure Place where
  depth : Nat
  quoted : Bool
  deriving DecidableEq, Repr

namespace Place

/-- Behind the opening brace of a block. -/
def start : Place := ⟨1, false⟩

def next (place : Place) (c : Char) : Place :=
  if c = '"' then { place with quoted := !place.quoted }
  else if place.quoted then place
  else if c = '{' then { place with depth := place.depth + 1 }
  else if c = '}' then { place with depth := place.depth - 1 }
  else place

def after (place : Place) (text : List Char) : Place := text.foldl next place

@[simp] theorem after_nil (place : Place) : place.after [] = place := rfl

@[simp] theorem after_cons (place : Place) (c : Char) (text : List Char) :
    place.after (c :: text) = (place.next c).after text := rfl

/-- No start of the text closes all braces. -/
def StaysOpen (place : Place) (text : List Char) : Prop :=
  ∀ before, before <+: text → (place.after before).depth ≠ 0

theorem staysOpen_nil {place : Place} : place.StaysOpen [] ↔ place.depth ≠ 0 := by
  simp [StaysOpen]

theorem staysOpen_cons {place : Place} {c : Char} {text : List Char} :
    place.StaysOpen (c :: text) ↔ place.depth ≠ 0 ∧ (place.next c).StaysOpen text := by
  simp only [StaysOpen, List.prefix_cons_iff]
  constructor
  · intro stays
    exact ⟨stays [] (.inl rfl), fun before start => stays (c :: before) (.inr ⟨before, rfl, start⟩)⟩
  · rintro ⟨here, stays⟩ before (rfl | ⟨before, rfl, start⟩)
    · exact here
    · exact stays before start

theorem StaysOpen.depth_ne_zero {place : Place} {text : List Char} (stays : place.StaysOpen text) :
    place.depth ≠ 0 := stays [] List.nil_prefix

instance decidableStaysOpen : (place : Place) → (text : List Char) →
    Decidable (place.StaysOpen text)
  | _, [] => decidable_of_iff _ staysOpen_nil.symm
  | place, c :: text =>
    have := decidableStaysOpen (place.next c) text
    decidable_of_iff _ staysOpen_cons.symm

/-- Only a closing brace outside quotations closes the last open one, which is that of the block. -/
theorem eq_start_of_next {place : Place} {c : Char} (here : place.depth ≠ 0)
    (closed : (place.next c).depth = 0) : c = '}' ∧ place = start := by
  obtain ⟨depth, quoted⟩ := place
  unfold next at closed
  grind [start]

theorem staysOpen_or {place : Place} (here : place.depth ≠ 0) (body : List Char) :
    place.StaysOpen body ∨ ∃ value rest, body = value ++ '}' :: rest ∧
      place.StaysOpen value ∧ place.after value = start := by
  induction body generalizing place with
  | nil => exact .inl (staysOpen_nil.2 here)
  | cons c rest ih =>
    by_cases closed : (place.next c).depth = 0
    · obtain ⟨rfl, rfl⟩ := eq_start_of_next here closed
      exact .inr ⟨[], rest, rfl, staysOpen_nil.2 here, rfl⟩
    · obtain stays | ⟨value, rest, rfl, stays, ends⟩ := ih closed
      · exact .inl (staysOpen_cons.2 ⟨here, stays⟩)
      · exact .inr ⟨c :: value, rest, rfl, staysOpen_cons.2 ⟨here, stays⟩, ends⟩

end Place

theorem blockEnd?_cons {depth : Nat} {quoted : Bool} {c : Char} {rest : List Char} {place : Place}
    (step : Place.next ⟨depth + 1, quoted⟩ c = place) (opened : place.depth ≠ 0) :
    blockEnd? depth quoted (c :: rest) =
      (blockEnd? (place.depth - 1) place.quoted rest).map (Prod.map (c :: ·) id) := by
  subst step
  unfold Place.next at opened ⊢
  rw [blockEnd?]
  cases quoted <;> grind

theorem Place.eq_of_depth_ne_zero {place : Place} (opened : place.depth ≠ 0) :
    (⟨place.depth - 1 + 1, place.quoted⟩ : Place) = place := by
  rw [Nat.sub_add_cancel (Nat.one_le_iff_ne_zero.2 opened)]

theorem blockEnd?_of_staysOpen {depth : Nat} {quoted : Bool} {body : List Char}
    (stays : Place.StaysOpen ⟨depth + 1, quoted⟩ body) : blockEnd? depth quoted body = none := by
  induction body generalizing depth quoted with
  | nil => rfl
  | cons c rest ih =>
    obtain ⟨-, stays⟩ := Place.staysOpen_cons.1 stays
    rw [blockEnd?_cons rfl stays.depth_ne_zero, ih, Option.map_none]
    rwa [Place.eq_of_depth_ne_zero stays.depth_ne_zero]

theorem blockEnd?_append {depth : Nat} {quoted : Bool} {value : List Char} (rest : List Char)
    (stays : Place.StaysOpen ⟨depth + 1, quoted⟩ value)
    (ends : Place.after ⟨depth + 1, quoted⟩ value = Place.start) :
    blockEnd? depth quoted (value ++ '}' :: rest) = some (value, rest) := by
  induction value generalizing depth quoted with
  | nil =>
    obtain ⟨rfl, rfl⟩ : depth = 0 ∧ quoted = false := by simpa [Place.start] using ends
    simp [blockEnd?]
  | cons c value ih =>
    obtain ⟨-, stays⟩ := Place.staysOpen_cons.1 stays
    have same := Place.eq_of_depth_ne_zero stays.depth_ne_zero
    rw [List.cons_append, blockEnd?_cons rfl stays.depth_ne_zero, ih (by rwa [same])
      (by rw [same]; exact ends)]
    rfl

/-! ## Keys and stray tokens -/

structure IsKey (key : List Char) : Prop where
  ne_nil : key ≠ []
  keyChars : ∀ c ∈ key, isKeyChar c = true

/-- The text between the braces of a block. -/
structure IsValue (value : List Char) : Prop where
  stays : Place.start.StaysOpen value
  ends : Place.start.after value = Place.start

structure IsStray (token : List Char) : Prop where
  ne_nil : token ≠ []
  solid : ∀ c ∈ token, Text.isBlank c = false
  no_block : ∀ key body, IsKey key → token ≠ key ++ ':' :: '{' :: body

theorem isBlank_of_isKeyChar {c : Char} (h : isKeyChar c = true) : Text.isBlank c = false := by
  delta isKeyChar Char.isAlphanum Char.isAlpha Char.isUpper Char.isLower Char.isDigit at h
  simp only [Bool.or_eq_true, Bool.and_eq_true, decide_eq_true_eq, beq_iff_eq,
    UInt32.le_iff_toNat_le, Char.reduceVal, UInt32.reduceToNat, Char.toNat_val] at h
  simp only [Text.isBlank, Text.blankRanges, List.any_cons, List.any_nil, Char.toNat]
  rcases h with h | rfl
  · simp only [Char.toNat_val, Bool.or_false, Bool.or_eq_false_iff, Bool.and_eq_false_imp,
      decide_eq_true_eq, decide_eq_false_iff_not, Nat.not_le]
    omega
  · decide

theorem blockStart?_append {key : List Char} (isKey : IsKey key) (body : List Char) :
    blockStart? (key ++ ':' :: '{' :: body) = some (key, body) := by
  have stop : isKeyChar ':' = false := by decide
  simp [blockStart?, List.takeWhile_append_of_pos isKey.keyChars,
    List.dropWhile_append_of_pos isKey.keyChars, stop, isKey.ne_nil]

theorem eq_append_of_blockStart? {text key body : List Char}
    (found : blockStart? text = some (key, body)) :
    IsKey key ∧ text = key ++ ':' :: '{' :: body := by
  have whole := @List.takeWhile_append_dropWhile _ isKeyChar text
  unfold blockStart? at found
  split at found
  · next behind =>
    rw [behind] at whole
    dsimp only at found
    split at found
    · cases found
    · next ne_nil =>
      cases found
      exact ⟨⟨by simpa using ne_nil, List.all_eq_true.1 List.all_takeWhile⟩, whole.symm⟩
  · cases found

/-- A token is stray if no block starts where it does, with what follows it. -/
theorem IsStray.of_blockStart? {token : List Char} (ne_nil : token ≠ [])
    (solid : token.all (!Text.isBlank ·) = true) (rest : List Char)
    (found : blockStart? (token ++ rest) = none) : IsStray token where
  ne_nil := ne_nil
  solid := by simpa using solid
  no_block key body isKey same := by
    have starts := blockStart?_append isKey (body ++ rest)
    rw [same, List.append_assoc, List.cons_append, List.cons_append, starts] at found
    cases found

/-- A text starts with a blank or is empty. -/
def StopsHere (rest : List Char) : Prop := ∀ c, rest.head? = some c → Text.isBlank c = true

theorem IsStray.blockStart?_append {token rest : List Char} (stray : IsStray token)
    (stops : StopsHere rest) : blockStart? (token ++ rest) = none := by
  rcases found : blockStart? (token ++ rest) with _ | ⟨key, body⟩
  · rfl
  obtain ⟨isKey, whole⟩ := eq_append_of_blockStart? found
  have solid : ∀ c ∈ key ++ [':', '{'], Text.isBlank c = false := by
    simp only [List.mem_append, List.mem_cons, List.not_mem_nil, or_false]
    rintro c (mem | rfl | rfl)
    · exact isBlank_of_isKeyChar (isKey.keyChars c mem)
    · decide
    · decide
  have whole : token ++ rest = (key ++ [':', '{']) ++ body := by simpa using whole
  -- Either the token holds the start of the block, or the start holds the blank behind the token.
  obtain ⟨more, start, behind⟩ | ⟨more, start, -⟩ := List.append_eq_append_iff.1 whole
  · cases more with
    | nil => exact absurd (by simpa using start.symm) (stray.no_block key [] isKey)
    | cons c more =>
      have blank := stops c (by rw [behind]; rfl)
      rw [solid c (by rw [start]; simp)] at blank
      cases blank
  · exact absurd (by simpa using start) (stray.no_block key more isKey)

/-! ## Pieces of a text -/

/-- A block, or a token that is none. -/
inductive Item where
  | block (key value : List Char) (isKey : IsKey key) (isValue : IsValue value)
  | stray (token : List Char) (isStray : IsStray token)

namespace Item

def text : Item → List Char
  | .block key value _ _ => key ++ ':' :: '{' :: (value ++ ['}'])
  | .stray token _ => token

def block? : Item → Option Block
  | .block key value _ _ =>
    some ⟨String.ofList (key.map Char.toUpper), String.ofList (Text.trim value)⟩
  | .stray _ _ => none

def error? (line : Nat) : Item → Option CompileError
  | .block _ _ _ _ => none
  | .stray token _ => some (strayToken line token)

end Item

/-- An item and the blanks behind it. -/
structure Piece where
  item : Item
  gap : List Char
  blank : ∀ c ∈ gap, Text.isBlank c = true

def Piece.text (piece : Piece) : List Char := piece.item.text ++ piece.gap

/-- A block that is never closed. -/
structure OpenBlock where
  key : List Char
  body : List Char
  isKey : IsKey key
  stays : Place.start.StaysOpen body

namespace OpenBlock

def text (last : OpenBlock) : List Char := last.key ++ ':' :: '{' :: last.body

def error (line : Nat) (last : OpenBlock) : CompileError :=
  .malformedPragma line (String.ofList (last.key.map Char.toUpper)) "unterminated `\x7b` block"

end OpenBlock

/-- The text that the pieces make up, with a block that is left open behind them if there is one. -/
def textOf (pieces : List Piece) (last : Option OpenBlock) : List Char :=
  pieces.flatMap Piece.text ++ last.elim [] OpenBlock.text

/-- Behind a token that is no block stands a blank, unless the text ends there. -/
def Separated (last : Option OpenBlock) : List Piece → Prop
  | [] => True
  | piece :: rest =>
    (piece.item.block? = none → piece.gap = [] → rest = [] ∧ last = none) ∧ Separated last rest

/-- What there is to read in the pieces. -/
def reading (line : Nat) (pieces : List Piece) (last : Option OpenBlock) : Pragma where
  blocks := pieces.filterMap (·.item.block?)
  malformed := pieces.filterMap (·.item.error? line) ++ (last.map (OpenBlock.error line)).toList

theorem textOf_cons (piece : Piece) (rest : List Piece) (last : Option OpenBlock) :
    textOf (piece :: rest) last = piece.item.text ++ (piece.gap ++ textOf rest last) := by
  simp [textOf, Piece.text]

/-! ## Reading the pieces -/

section

variable {lead : List Char} (line : Nat) (blank : ∀ c ∈ lead, Text.isBlank c = true)
include blank

theorem scan_blanks : scan line lead = {} := by
  have none_left : Text.trimStart lead = [] := by
    simpa [Text.trimStart_nil] using Text.trimStart_append blank []
  rw [scan]
  split
  · rfl
  · next shown => rw [none_left] at shown; cases shown

end

section

variable {text rest : List Char} (line : Nat)

theorem scan_of_blockStart? {key body : List Char}
    (found : blockStart? (Text.trimStart text) = some (key, body)) :
    scan line text =
      match blockEnd? 0 false body with
      | some (value, rest) =>
        { scan line rest with
          blocks := ⟨String.ofList (key.map Char.toUpper), String.ofList (Text.trim value)⟩ ::
            (scan line rest).blocks }
      | none =>
        { malformed := [.malformedPragma line (String.ofList (key.map Char.toUpper))
          "unterminated `\x7b` block"] } := by
  rw [scan]
  split
  · next shown => rw [shown] at found; cases found
  · next shown =>
    rw [shown] at found
    split
    · next starts =>
      rw [found] at starts
      cases starts
      split <;> next ends => rw [ends]
    · next starts => rw [found] at starts; cases starts

theorem scan_of_blockStart?_none {c : Char} {more : List Char}
    (shown : Text.trimStart text = c :: more) (found : blockStart? (c :: more) = none) :
    scan line text =
      { scan line ((c :: more).dropWhile (!Text.isBlank ·)) with
        malformed := strayToken line ((c :: more).takeWhile (!Text.isBlank ·)) ::
          (scan line ((c :: more).dropWhile (!Text.isBlank ·))).malformed } := by
  rw [scan]
  split
  · next none_left => rw [none_left] at shown; cases shown
  · next same =>
    rw [shown] at same
    cases same
    split
    · next starts => rw [found] at starts; cases starts
    · rfl

end

/-- Blanks in front of a text are passed over. -/
theorem scan_blanks_append {lead : List Char} (line : Nat)
    (blank : ∀ c ∈ lead, Text.isBlank c = true) (text : List Char) :
    scan line (lead ++ text) = scan line text := by
  have same := Text.trimStart_append blank text
  rcases shown : Text.trimStart text with _ | ⟨c, more⟩
  · have whole := @List.takeWhile_append_dropWhile _ Text.isBlank text
    rw [show text.dropWhile Text.isBlank = [] from shown, List.append_nil] at whole
    have blank_text : ∀ c ∈ text, Text.isBlank c = true :=
      List.all_eq_true.1 (whole ▸ List.all_takeWhile)
    rw [scan_blanks line blank_text, scan_blanks line (List.forall_mem_append.2 ⟨blank, blank_text⟩)]
  · rw [shown] at same
    rcases found : blockStart? (c :: more) with _ | ⟨key, body⟩
    · rw [scan_of_blockStart?_none line same found, scan_of_blockStart?_none line shown found]
    · rw [scan_of_blockStart? line (same ▸ found), scan_of_blockStart? line (shown ▸ found)]

/-- What follows a key after blanks is where its block starts. -/
theorem blockStart?_trimStart {lead key : List Char}
    (blank : ∀ c ∈ lead, Text.isBlank c = true) (isKey : IsKey key) (body : List Char) :
    blockStart? (Text.trimStart (lead ++ (key ++ ':' :: '{' :: body))) = some (key, body) := by
  obtain ⟨c, more, rfl⟩ := List.exists_cons_of_ne_nil isKey.ne_nil
  have solid := isBlank_of_isKeyChar (isKey.keyChars c List.mem_cons_self)
  rw [List.cons_append, Text.trimStart_append_cons blank solid, ← List.cons_append,
    blockStart?_append isKey]

section

variable {lead : List Char} (line : Nat) (blank : ∀ c ∈ lead, Text.isBlank c = true)
include blank

theorem scan_block {key value : List Char} (isKey : IsKey key) (isValue : IsValue value)
    (rest : List Char) : scan line (lead ++ (key ++ ':' :: '{' :: (value ++ '}' :: rest))) =
      { scan line rest with
        blocks := ⟨String.ofList (key.map Char.toUpper), String.ofList (Text.trim value)⟩ ::
          (scan line rest).blocks } := by
  rw [scan_of_blockStart? line (blockStart?_trimStart blank isKey _),
    blockEnd?_append rest isValue.stays isValue.ends]

theorem scan_openBlock (last : OpenBlock) :
    scan line (lead ++ last.text) = { malformed := [last.error line] } := by
  rw [OpenBlock.text, scan_of_blockStart? line (blockStart?_trimStart blank last.isKey _),
    blockEnd?_of_staysOpen last.stays]
  rfl

theorem scan_stray {token rest : List Char} (stray : IsStray token) (stops : StopsHere rest) :
    scan line (lead ++ (token ++ rest)) =
      { scan line rest with
        malformed := strayToken line token :: (scan line rest).malformed } := by
  have first : (token ++ rest).takeWhile (!Text.isBlank ·) = token := by
    rw [List.takeWhile_append_of_pos (by simpa using stray.solid)]
    cases rest with
    | nil => simp
    | cons c rest => simp [stops c rfl]
  have behind : (token ++ rest).dropWhile (!Text.isBlank ·) = rest := by
    rw [List.dropWhile_append_of_pos (by simpa using stray.solid)]
    cases rest with
    | nil => rfl
    | cons c rest => simp [stops c rfl]
  have no_block := stray.blockStart?_append stops
  obtain ⟨c, more, rfl⟩ := List.exists_cons_of_ne_nil stray.ne_nil
  have shown := Text.trimStart_append_cons blank (stray.solid c List.mem_cons_self) (more ++ rest)
  rw [List.cons_append] at first behind no_block ⊢
  rw [scan_of_blockStart?_none line shown no_block, first, behind]

end

theorem blanks_nil : ∀ c ∈ ([] : List Char), Text.isBlank c = true := List.forall_mem_nil _

@[simp] theorem scan_nil (line : Nat) : scan line [] = {} :=
  scan_blanks line blanks_nil

@[simp] theorem scan_openBlock_text (line : Nat) (last : OpenBlock) :
    scan line last.text = { malformed := [last.error line] } := by
  rw [← List.nil_append last.text]
  exact scan_openBlock line blanks_nil last

/-- Behind a token that is no block stands a blank, or the text stops with it. -/
def Apart (tail : List Char) : List Piece → Prop
  | [] => True
  | piece :: rest =>
    (piece.item.block? = none → piece.gap = [] → rest = [] ∧ StopsHere tail) ∧ Apart tail rest

theorem stopsHere_append {gap text : List Char} (blank : ∀ c ∈ gap, Text.isBlank c = true)
    (stops : gap = [] → StopsHere text) : StopsHere (gap ++ text) := by
  cases gap with
  | nil => exact stops rfl
  | cons b gap =>
    rintro c ⟨⟩
    exact blank b List.mem_cons_self

/-- Pieces are read one after the other: the blanks behind an item stand in front of the next. -/
theorem scan_append {lead tail : List Char} {pieces : List Piece} (line : Nat)
    (blank : ∀ c ∈ lead, Text.isBlank c = true) (apart : Apart tail pieces) :
    scan line (lead ++ (pieces.flatMap Piece.text ++ tail)) =
      { blocks := pieces.filterMap (·.item.block?) ++ (scan line tail).blocks
        malformed := pieces.filterMap (·.item.error? line) ++ (scan line tail).malformed } := by
  induction pieces generalizing lead with
  | nil => simpa using scan_blanks_append line blank tail
  | cons piece rest ih =>
    obtain ⟨apart, later⟩ := apart
    obtain ⟨item, gap, gap_blank⟩ := piece
    have later := ih gap_blank later
    cases item with
    | block key value isKey isValue =>
      have step := scan_block line blank isKey isValue (gap ++ (rest.flatMap Piece.text ++ tail))
      rw [later] at step
      simpa [Piece.text, Item.text, Item.block?, Item.error?] using step
    | stray token isStray =>
      -- The token ends where the scanner looks for its end.
      have stops : StopsHere (gap ++ (rest.flatMap Piece.text ++ tail)) :=
        stopsHere_append gap_blank fun gap_nil => by
          obtain ⟨rfl, stops⟩ := apart rfl gap_nil
          simpa using stops
      have step := scan_stray line blank isStray stops
      rw [later] at step
      simpa [Piece.text, Item.text, Item.block?, Item.error?] using step

theorem Separated.apart {pieces : List Piece} {last : Option OpenBlock} {tail : List Char}
    (separated : Separated last pieces) (stops : last = none → StopsHere tail) :
    Apart tail pieces := by
  induction pieces with
  | nil => trivial
  | cons piece rest ih =>
    obtain ⟨apart, separated⟩ := separated
    refine ⟨fun stray gap_nil => ?_, ih separated⟩
    obtain ⟨rfl, none_left⟩ := apart stray gap_nil
    exact ⟨rfl, stops none_left⟩

theorem scan_textOf {lead : List Char} {pieces : List Piece} {last : Option OpenBlock}
    (line : Nat) (blank : ∀ c ∈ lead, Text.isBlank c = true) (separated : Separated last pieces) :
    scan line (lead ++ textOf pieces last) = reading line pieces last := by
  have apart : Apart (last.elim [] OpenBlock.text) pieces :=
    separated.apart fun none_left => by
      subst none_left
      rintro c ⟨⟩
  rw [textOf, scan_append line blank apart]
  cases last with
  | none => simp [reading]
  | some last => simp [reading]

/-! ## The pieces of every text -/

/-- A text that starts with a character of its own does not stop at a blank. -/
theorem not_stopsHere {front : List Char} (ne_nil : front ≠ [])
    (solid : ∀ c ∈ front, Text.isBlank c = false) (more : List Char) :
    ¬StopsHere (front ++ more) := by
  obtain ⟨c, front, rfl⟩ := List.exists_cons_of_ne_nil ne_nil
  intro stops
  have blank := stops c rfl
  rw [solid c List.mem_cons_self] at blank
  cases blank

theorem IsKey.not_stopsHere {key : List Char} (isKey : IsKey key) (more : List Char) :
    ¬StopsHere (key ++ more) :=
  Pragma.not_stopsHere isKey.ne_nil (fun c mem => isBlank_of_isKeyChar (isKey.keyChars c mem)) more

theorem IsStray.not_stopsHere {token : List Char} (isStray : IsStray token) (more : List Char) :
    ¬StopsHere (token ++ more) :=
  Pragma.not_stopsHere isStray.ne_nil isStray.solid more

/-- Pieces start with a character that is not blank, so where a text stops there are none. -/
theorem eq_nil_of_stopsHere {pieces : List Piece} {last : Option OpenBlock}
    (stops : StopsHere (textOf pieces last)) : pieces = [] ∧ last = none := by
  cases pieces with
  | nil =>
    cases last with
    | none => exact ⟨rfl, rfl⟩
    | some last => exact absurd stops (last.isKey.not_stopsHere _)
  | cons piece pieces =>
    obtain ⟨item, gap, _⟩ := piece
    rw [textOf_cons] at stops
    cases item with
    | block key value isKey _ =>
      simp only [Item.text, List.append_assoc] at stops
      exact absurd stops (isKey.not_stopsHere _)
    | stray token isStray => exact absurd stops (isStray.not_stopsHere _)

theorem stopsHere_dropWhile (text : List Char) :
    StopsHere (text.dropWhile (!Text.isBlank ·)) := by
  intro c first
  have stop := List.head?_dropWhile_not (!Text.isBlank ·) text
  rw [first] at stop
  simpa using stop

/-- No character of a text is left out or used twice: the text is that of some pieces, up to a
block that is left open. -/
theorem exists_textOf (text : List Char) : ∃ lead pieces last,
    (∀ c ∈ lead, Text.isBlank c = true) ∧ Separated last pieces ∧
      text = lead ++ textOf pieces last := by
  induction size : text.length using Nat.strongRecOn generalizing text with
  | ind n ih =>
    subst size
    obtain ⟨lead, blank, whole⟩ : ∃ lead, (∀ c ∈ lead, Text.isBlank c = true) ∧
        lead ++ Text.trimStart text = text :=
      ⟨_, List.all_eq_true.1 List.all_takeWhile, List.takeWhile_append_dropWhile⟩
    have shorter : (Text.trimStart text).length ≤ text.length :=
      (List.dropWhile_suffix _).length_le
    rcases shown : Text.trimStart text with _ | ⟨c, more⟩
    · exact ⟨_, [], none, blank, trivial, by rw [← whole, shown]; rfl⟩
    rw [shown] at whole shorter
    rcases found : blockStart? (c :: more) with _ | ⟨key, body⟩
    · -- A stray token; the blank that ends it starts the gap behind it.
      have cut := @List.takeWhile_append_dropWhile _ (!Text.isBlank ·) (c :: more)
      have isStray : IsStray ((c :: more).takeWhile (!Text.isBlank ·)) :=
        .of_blockStart? (by simp [Text.isBlank_head_trimStart shown]) List.all_takeWhile _
          (by rwa [cut])
      have fewer : ((c :: more).dropWhile (!Text.isBlank ·)).length < text.length := by
        have first := List.length_pos_iff.2 isStray.ne_nil
        have both := congrArg List.length cut
        rw [List.length_append] at both
        omega
      obtain ⟨gap, pieces, last, gap_blank, separated, behind⟩ := ih _ fewer _ rfl
      refine ⟨_, ⟨.stray _ isStray, gap, gap_blank⟩ :: pieces, last, blank, ⟨?_, separated⟩, ?_⟩
      · -- Without a blank in the gap the pieces would have to start with the one behind the token.
        rintro - (rfl : gap = [])
        have stops := stopsHere_dropWhile (c :: more)
        rw [behind] at stops
        exact eq_nil_of_stopsHere stops
      · rw [textOf_cons, ← behind, Item.text, cut, whole]
    · obtain ⟨isKey, starts⟩ := eq_append_of_blockStart? found
      rw [starts] at whole shorter
      obtain stays | ⟨value, rest, rfl, stays, ends⟩ :=
        @Place.staysOpen_or Place.start (by decide) body
      · exact ⟨_, [], some ⟨key, body, isKey, stays⟩, blank, trivial, whole.symm⟩
      · have fewer : rest.length < text.length := by
          simp only [List.length_append, List.length_cons] at shorter
          omega
        obtain ⟨gap, pieces, last, gap_blank, separated, rfl⟩ := ih _ fewer rest rfl
        refine ⟨_, ⟨.block key value isKey ⟨stays, ends⟩, gap, gap_blank⟩ :: pieces, last, blank,
          ⟨nofun, separated⟩, ?_⟩
        rw [textOf_cons, ← whole]
        simp [Item.text]

/-- Blocks and stray tokens that stand apart are read as they were written, whatever stands
between them and whether or not a block is left open at the end; and every text is made of such
pieces. -/
theorem scan_pieces (line : Nat) :
    (∀ lead pieces last, (∀ c ∈ lead, Text.isBlank c = true) → Separated last pieces →
      scan line (lead ++ textOf pieces last) = reading line pieces last) ∧
    ∀ text, ∃ lead pieces last, (∀ c ∈ lead, Text.isBlank c = true) ∧ Separated last pieces ∧
      text = lead ++ textOf pieces last ∧ scan line text = reading line pieces last := by
  refine ⟨fun lead pieces last => scan_textOf line, fun text => ?_⟩
  obtain ⟨lead, pieces, last, blank, separated, rfl⟩ := exists_textOf text
  exact ⟨lead, pieces, last, blank, separated, rfl, scan_textOf line blank separated⟩

/-- A block with braces inside and between quotation marks, a token that is none, and a block right
in front of one that is left open. -/
def mixedPieces : List Piece :=
  [⟨.block "Page".toList " \x7ba\x7d \"\x7d\" ".toList
      ⟨by decide, List.all_eq_true.1 (by decide)⟩ ⟨by decide, by decide⟩,
      " ".toList, List.all_eq_true.1 (by decide)⟩,
    ⟨.stray "a:b\x7d".toList (.of_blockStart? (by decide) (by decide) [] (by decide)), " ".toList,
      List.all_eq_true.1 (by decide)⟩,
    ⟨.block "next".toList "1".toList
      ⟨by decide, List.all_eq_true.1 (by decide)⟩ ⟨by decide, by decide⟩, [], nofun⟩]

def openTail : OpenBlock :=
  ⟨"Tail".toList, " \x7b \x7d ".toList, ⟨by decide, List.all_eq_true.1 (by decide)⟩, by decide⟩

theorem mixedPieces_scan :
    scan 3 " Page:\x7b \x7ba\x7d \"\x7d\" \x7d a:b\x7d next:\x7b1\x7dTail:\x7b \x7b \x7d ".toList =
      { blocks := [⟨"PAGE", "\x7ba\x7d \"\x7d\""⟩, ⟨"NEXT", "1"⟩]
        malformed := [
          .malformedPragma 3 "A" "expected `KEY:\x7b...\x7d`, found `a:b\x7d`",
          .malformedPragma 3 "TAIL" "unterminated `\x7b` block"] } :=
  (scan_pieces 3).1 " ".toList mixedPieces (some openTail) (List.all_eq_true.1 (by decide))
    ⟨nofun, nofun, nofun, trivial⟩

end BoardSchema.Pragma
