import BoardSchema.Line.Event
import BoardSchema.Proofs.Line.Pieces
import BoardSchema.Proofs.Numeral
import BoardSchema.Rules.Substitution
/-!
Declarations and the lines that they are written on. A line declares a field exactly if it has the
four columns of the declaration with blanks around each of them, where the name may stand behind a
text with a dot that is dropped, and if it is neither a comment nor the header of a section.
-/
namespace BoardSchema

/-! ## Columns -/

/-- A line with these texts in its columns, with blanks around each of them. -/
inductive Row : List (List Char) → List Char → Prop where
  | last {text column : List Char} (padded : Text.Padded text column) : Row [text] column
  | cons {text column line : List Char} {texts : List (List Char)}
      (padded : Text.Padded text column) (rest : Row texts line) :
      Row (text :: texts) (column ++ '|' :: line)

namespace Text

theorem isBlank_mark : isBlank '|' = false := by decide

theorem columns_zero (line : List Char) : columns '|' 0 line = [line] := rfl

theorem columns_append {column : List Char} (no_mark : '|' ∉ column) (more : Nat)
    (line : List Char) :
    columns '|' (more + 1) (column ++ '|' :: line) = column :: columns '|' more line := by
  rw [columns, cutAt?_append no_mark]

theorem columns_of_not_mem {line : List Char} (no_mark : '|' ∉ line) (more : Nat) :
    columns '|' more line = [line] := by
  cases more with
  | zero => exact columns_zero line
  | succ more => rw [columns, cutAt?_eq_none_iff.2 no_mark]

/-- The first mark cuts off a column, or there is none. -/
theorem exists_column_or (line : List Char) :
    '|' ∉ line ∨ ∃ column rest, '|' ∉ column ∧ line = column ++ '|' :: rest := by
  cases found : cutAt? '|' line with
  | none => exact .inl (cutAt?_eq_none_iff.1 found)
  | some parts =>
    exact .inr ⟨parts.1, parts.2, not_mem_of_cutAt? found, cutAt?_eq_some found⟩

theorem columns_trimEnd (more : Nat) (line : List Char) :
    (columns '|' more (trimEnd line)).map trim = (columns '|' more line).map trim := by
  induction more generalizing line with
  | zero => simp [columns_zero, trim_trimEnd]
  | succ more ih =>
    rcases exists_column_or line with no_mark | ⟨column, rest, no_mark, rfl⟩
    · obtain ⟨trail, -, whole⟩ := exists_trimEnd line
      have none_left : '|' ∉ trimEnd line := fun mem => no_mark (by rw [whole]; simp [mem])
      rw [columns_of_not_mem none_left, columns_of_not_mem no_mark, List.map_singleton,
        List.map_singleton, trim_trimEnd]
    · rw [trimEnd_append_cons isBlank_mark, columns_append no_mark, columns_append no_mark,
        List.map_cons, List.map_cons, ih]

/-- Blanks around a line are blanks around its first column and its last one. -/
theorem columns_trim (more : Nat) (line : List Char) :
    (columns '|' more (trim line)).map trim = (columns '|' more line).map trim := by
  cases more with
  | zero => simp [columns_zero, trim_trim]
  | succ more =>
    rcases exists_column_or line with no_mark | ⟨column, rest, no_mark, rfl⟩
    · have none_left : '|' ∉ trim line := fun mem => no_mark ((padded_trim line).subset mem)
      rw [columns_of_not_mem none_left, columns_of_not_mem no_mark, List.map_singleton,
        List.map_singleton, trim_trim]
    · have none_left : '|' ∉ trimStart column := fun mem =>
        no_mark ((List.dropWhile_suffix _).subset mem)
      rw [trim_append_cons isBlank_mark, columns_append none_left, columns_append no_mark,
        List.map_cons, List.map_cons, trim_trimStart, columns_trimEnd]

/-- A line has its own columns. -/
theorem row_columns (more : Nat) (line : List Char) :
    Row ((columns '|' more line).map trim) line := by
  induction more generalizing line with
  | zero => exact .last (padded_trim line)
  | succ more ih =>
    rcases exists_column_or line with no_mark | ⟨column, rest, no_mark, rfl⟩
    · rw [columns_of_not_mem no_mark]
      exact .last (padded_trim line)
    · rw [columns_append no_mark]
      exact .cons (padded_trim column) (ih rest)

/-- Marks can only be in the last column. -/
theorem not_mem_columns (more : Nat) (line : List Char) :
    ∀ column ∈ (columns '|' more line).dropLast, '|' ∉ column := by
  induction more generalizing line with
  | zero => simp [columns_zero]
  | succ more ih =>
    rcases exists_column_or line with no_mark | ⟨column, rest, no_mark, rfl⟩
    · simp [columns_of_not_mem no_mark]
    · rw [columns_append no_mark]
      intro other mem
      cases later : columns '|' more rest with
      | nil => simp [later] at mem
      | cons next after =>
        rw [later, List.dropLast_cons_cons, ← later] at mem
        rcases List.mem_cons.1 mem with rfl | mem
        · exact no_mark
        · exact ih rest other mem

end Text

/-- The columns of a line are read if no text but the last one holds a mark. -/
theorem Row.columns_eq {texts : List (List Char)} {line : List Char} (row : Row texts line)
    (no_mark : ∀ text ∈ texts.dropLast, '|' ∉ text) {more : Nat}
    (length : texts.length = more + 1) :
    (Text.columns '|' more line).map Text.trim = texts.map Text.trim := by
  induction row generalizing more with
  | last padded =>
    obtain rfl : more = 0 := by simpa using length.symm
    simp [Text.columns_zero, padded.trim_eq]
  | @cons text column line texts padded rest ih =>
    obtain ⟨next, after, rfl⟩ : ∃ next after, texts = next :: after := by
      cases rest <;> exact ⟨_, _, rfl⟩
    obtain ⟨more, rfl⟩ : ∃ less, more = less + 1 := ⟨after.length, by simpa using length.symm⟩
    rw [List.dropLast_cons_cons, List.forall_mem_cons] at no_mark
    have column_free : '|' ∉ column := fun mem =>
      no_mark.1 (padded.mem_of_solid Text.isBlank_mark mem)
    rw [Text.columns_append column_free, List.map_cons, List.map_cons, padded.trim_eq,
      ih no_mark.2 (by simpa using length)]

/-- A row starts with its first text and ends with its last one, blanks aside. -/
theorem Row.exists_middle {first last line : List Char} (texts : List (List Char))
    (row : Row (first :: (texts ++ [last])) line) :
    ∃ middle, middle ≠ [] ∧ Text.Padded (first ++ middle ++ last) line := by
  have exists_front {texts : List (List Char)} {line : List Char}
      (row : Row (texts ++ [last]) line) : ∃ front trail,
        (∀ c ∈ trail, Text.isBlank c = true) ∧ line = front ++ last ++ trail := by
    generalize whole : texts ++ [last] = all at row
    induction row generalizing texts with
    | last padded =>
      obtain ⟨lead, trail, -, blank, rfl⟩ := padded
      obtain ⟨-, same⟩ := List.append_inj' (whole.trans (List.nil_append _).symm) rfl
      cases same
      exact ⟨lead, trail, blank, rfl⟩
    | @cons _ column _ _ _ rest ih =>
      cases texts with
      | nil =>
        cases whole
        cases rest
      | cons other texts =>
        obtain ⟨-, whole⟩ := List.cons.inj whole
        obtain ⟨front, trail, blank, rfl⟩ := ih whole
        exact ⟨column ++ '|' :: front, trail, blank, by simp⟩
  generalize behind : texts ++ [last] = all at row
  cases row with
  | last => simp at behind
  | cons padded rest =>
    obtain ⟨lead, gap, lead_blank, -, rfl⟩ := padded
    obtain ⟨front, trail, trail_blank, rfl⟩ := exists_front (behind ▸ rest)
    exact ⟨gap ++ '|' :: front, by simp, lead, trail, lead_blank, trail_blank, by simp⟩

/-! ## What columns say -/

namespace Declaration

structure IsName (name : List Char) : Prop where
  ne_nil : name ≠ []
  nameChars : ∀ c ∈ name, isNameChar c = true

/-- What is dropped in front of a name: nothing, or a text and the first dot behind it. -/
inductive IsSpace : List Char → Prop where
  | none : IsSpace []
  | dotted {text : List Char} (no_dot : '.' ∉ text) (no_mark : '|' ∉ text)
      (solid : ∀ c ∈ text.head?, Text.isBlank c = false) : IsSpace (text ++ ['.'])

/-- The offset that a column stands for. -/
inductive IsOffset (text : List Char) : Offset → Prop where
  | auto (star : text = ['*']) : IsOffset text .auto
  | fixed {n : Nat} (read : Numeral.parse text = some n) : IsOffset text (.fixed n)

/-- The length that a column stands for: a number, or else the text itself. -/
inductive IsLength (text : List Char) : Length → Prop where
  | fixed {n : Nat} (read : Numeral.parse text = some n) : IsLength text (.fixed n)
  | symbolic (unread : Numeral.parse text = none) (ne_nil : text ≠ [])
      (trimmed : Text.trim text = text) : IsLength text (.symbolic (String.ofList text))

structure IsValue (value : List Char) : Prop where
  ne_nil : value ≠ []
  trimmed : Text.trim value = value

/-- The line holds the four columns of a declaration, with `space` in front of the name. -/
structure Stands (line space : List Char) (declaration : Declaration) : Prop where
  isSpace : IsSpace space
  isName : IsName declaration.name.toList
  isValue : IsValue declaration.value.toList
  row : ∃ offset length, IsOffset offset declaration.offset ∧ IsLength length declaration.length ∧
    '|' ∉ offset ∧ '|' ∉ length ∧
    Row [space ++ declaration.name.toList, offset, length, declaration.value.toList] line

section

variable {name space text : List Char} {c : Char}

theorem IsName.not_mem (isName : IsName name) (other : isNameChar c = false) : c ∉ name := by
  intro mem
  rw [isName.nameChars c mem] at other
  cases other

theorem isBlank_of_isNameChar (nameChar : isNameChar c = true) : Text.isBlank c = false := by
  simp only [isNameChar, Bool.or_eq_true, beq_iff_eq] at nameChar
  rcases nameChar with (((letter | rfl) | rfl) | rfl) | rfl
  · exact Pragma.isBlank_of_isKeyChar (by simp [Pragma.isKeyChar, letter])
  · decide
  · decide
  · decide
  · decide

theorem IsName.exists_cons (isName : IsName name) : ∃ c rest, name = c :: rest ∧
    isNameChar c = true := by
  obtain ⟨c, rest, rfl⟩ := List.exists_cons_of_ne_nil isName.ne_nil
  exact ⟨c, rest, rfl, isName.nameChars c List.mem_cons_self⟩

/-- The column of a name with what is dropped starts and ends with no blank. -/
theorem IsName.trim_append (isName : IsName name) (isSpace : IsSpace space) :
    Text.trim (space ++ name) = space ++ name := by
  refine Text.trim_eq_self_iff.2 ⟨fun c head => ?_, fun c last => ?_⟩
  · cases isSpace with
    | none =>
      exact isBlank_of_isNameChar (isName.nameChars c (List.mem_of_mem_head? head))
    | @dotted text _ _ solid =>
      cases text with
      | nil =>
        cases head
        decide
      | cons first rest =>
        cases head
        exact solid _ rfl
  · rw [List.getLast?_append_of_ne_nil _ isName.ne_nil] at last
    exact isBlank_of_isNameChar (isName.nameChars c (List.mem_of_getLast? last))

theorem IsName.nameOf_append (isName : IsName name) (isSpace : IsSpace space) :
    nameOf (space ++ name) = name := by
  cases isSpace with
  | none =>
    have no_dot : Text.cutAt? '.' name = none :=
      Text.cutAt?_eq_none_iff.2 (isName.not_mem (by decide))
    rw [List.nil_append, nameOf, no_dot]
  | dotted no_dot =>
    rw [List.append_assoc, List.singleton_append, nameOf, Text.cutAt?_append no_dot]

theorem exists_space (column : List Char) (trimmed : Text.trim column = column)
    (no_mark : '|' ∉ column) : ∃ space, IsSpace space ∧ column = space ++ nameOf column := by
  unfold nameOf
  split
  · next text name found =>
    have whole := Text.cutAt?_eq_some found
    refine ⟨text ++ ['.'], .dotted (Text.not_mem_of_cutAt? found) ?_ ?_, by simpa using whole⟩
    · exact fun mem => no_mark (by simp [whole, mem])
    · intro c head
      obtain ⟨rest, rfl⟩ := List.head?_eq_some_iff.1 head
      exact (Text.trim_eq_self_iff.1 trimmed).1 c (by simp [whole])
  · exact ⟨[], .none, rfl⟩

theorem IsOffset.offsetOf?_eq {offset : Offset} (isOffset : IsOffset text offset) :
    offsetOf? (Text.trim text) = some offset := by
  cases isOffset with
  | auto star =>
    subst star
    decide
  | fixed read =>
    have number : Text.trim text ≠ ['*'] := by
      intro star
      rw [← Numeral.parse_trim, star] at read
      cases read
    rw [offsetOf?, if_neg number, Numeral.parse_trim, read, Option.map_some]

theorem isOffset_of_offsetOf? {offset : Offset} (found : offsetOf? text = some offset) :
    IsOffset text offset := by
  unfold offsetOf? at found
  split at found
  · next star =>
    cases found
    exact .auto star
  · obtain ⟨n, read, rfl⟩ := Option.map_eq_some_iff.1 found
    exact .fixed read

theorem IsLength.parse_eq {length : Length} (isLength : IsLength text length) :
    Text.trim text ≠ [] ∧ Length.parse (Text.trim text) = length := by
  cases isLength with
  | fixed read =>
    refine ⟨fun empty => ?_, by rw [Length.parse, Numeral.parse_trim, read]⟩
    rw [← Numeral.parse_trim, empty] at read
    cases read
  | symbolic unread ne_nil trimmed =>
    rw [trimmed, Length.parse, unread, trimmed]
    exact ⟨ne_nil, rfl⟩

theorem isLength_parse (ne_nil : text ≠ []) (trimmed : Text.trim text = text) :
    IsLength text (.parse text) := by
  unfold Length.parse
  split
  · next read => exact .fixed read
  · next unread =>
    rw [trimmed]
    exact .symbolic unread ne_nil trimmed

end

/-! ## Reading -/

theorem parse_eq_ok_iff {number : Nat} {line : List Char} {declaration : Declaration} :
    parse number line = .ok declaration ↔ ∃ first offset length value,
      (Text.columns '|' 3 line).map Text.trim = [first, offset, length, value] ∧
      nameOf first = declaration.name.toList ∧ IsName declaration.name.toList ∧
      offsetOf? offset = some declaration.offset ∧
      length ≠ [] ∧ Length.parse length = declaration.length ∧
      value ≠ [] ∧ value = declaration.value.toList := by
  constructor
  · intro read
    simp only [parse] at read
    split at read
    · next first offset length value columns =>
      split at read
      · cases read
      · next named =>
        simp only [Bool.or_eq_true, List.isEmpty_iff, Bool.not_eq_true', not_or,
          Bool.not_eq_false, List.all_eq_true] at named
        split at read
        · cases read
        · next found =>
          split at read
          · cases read
          · next length_ne =>
            split at read
            · cases read
            · next value_ne =>
              cases read
              refine ⟨first, offset, length, value, columns, ?_, ?_, found, ?_, rfl, ?_, ?_⟩
              · simp
              · exact ⟨by simpa using named.1, by simpa using named.2⟩
              · simpa using length_ne
              · simpa using value_ne
              · simp
    · cases read
  · rintro ⟨first, offset, length, value, columns, name, isName, found, length_ne, length_eq,
      value_ne, rfl⟩
    simpa [parse, columns, name, isName.ne_nil, found, length_ne, length_eq, value_ne] using
      isName.nameChars

/-- The columns of a declaration are those of the line, blanks around it or not. -/
theorem parse_trim_eq_ok_iff (number : Nat) {line : List Char} {declaration : Declaration} :
    parse number (Text.trim line) = .ok declaration ↔ ∃ space, Stands line space declaration := by
  rw [parse_eq_ok_iff, Text.columns_trim]
  constructor
  · rintro ⟨first, offset, length, value, columns, name, isName, found, length_ne, length_eq,
      value_ne, rfl⟩
    have row := Text.row_columns 3 line
    have no_mark := Text.not_mem_columns 3 line
    have trimmed : ∀ text ∈ (Text.columns '|' 3 line).map Text.trim, Text.trim text = text := by
      intro text mem
      obtain ⟨column, -, rfl⟩ := List.mem_map.1 mem
      exact Text.trim_trim column
    have no_mark : ∀ text ∈ ((Text.columns '|' 3 line).map Text.trim).dropLast, '|' ∉ text := by
      rw [← List.map_dropLast]
      intro text mem inside
      obtain ⟨column, there, rfl⟩ := List.mem_map.1 mem
      exact no_mark column there ((Text.padded_trim column).subset inside)
    rw [columns] at row no_mark trimmed
    simp only [List.dropLast_cons_cons, List.dropLast_singleton, List.forall_mem_cons]
      at no_mark trimmed
    obtain ⟨first_free, offset_free, length_free, -⟩ := no_mark
    obtain ⟨first_trimmed, offset_trimmed, length_trimmed, value_trimmed, -⟩ := trimmed
    obtain ⟨space, isSpace, whole⟩ := exists_space first first_trimmed first_free
    rw [whole, name] at row
    refine ⟨space, isSpace, isName, ⟨value_ne, value_trimmed⟩, offset, length,
      isOffset_of_offsetOf? found, ?_, offset_free, length_free, row⟩
    rw [← length_eq]
    exact isLength_parse length_ne length_trimmed
  · rintro ⟨space, isSpace, isName, isValue, offset, length, isOffset, isLength, offset_free,
      length_free, row⟩
    have first_free : '|' ∉ space ++ declaration.name.toList := by
      rw [List.mem_append, not_or]
      refine ⟨?_, isName.not_mem (by decide)⟩
      cases isSpace with
      | none => simp
      | dotted _ no_mark => simpa using no_mark
    have columns := row.columns_eq (by simp [first_free, offset_free, length_free]) rfl
    exact ⟨_, _, _, _, columns, by rw [isName.trim_append isSpace, isName.nameOf_append isSpace],
      isName, isOffset.offsetOf?_eq, isLength.parse_eq.1, isLength.parse_eq.2,
      by rw [isValue.trimmed]; exact isValue.ne_nil, isValue.trimmed⟩

end Declaration

/-- A line declares a field if it is no comment, no header of a section, and holds columns. -/
theorem LineEvent.ofLine_eq_declaration_iff {line : SourceLine} {declaration : Declaration} :
    ofLine line = .ok (.declaration declaration) ↔ line.section? = none ∧
      (Text.trim line.text.toList).head? ≠ some '#' ∧
      ∃ space, declaration.Stands line.text.toList space := by
  rw [← Declaration.parse_trim_eq_ok_iff line.number]
  constructor
  · intro read
    unfold ofLine at read
    split at read
    · cases read
    · next no_section =>
      split at read
      · next comment trimmed =>
        unfold ofComment at read
        split at read
        · cases read
        · cases read
        · split at read <;> cases read
        · cases read
        · cases read
      · next no_comment =>
        split at read
        · refine ⟨no_section, ?_, ?_⟩
          · intro head
            obtain ⟨comment, trimmed⟩ := List.head?_eq_some_iff.1 head
            exact no_comment comment trimmed
          · cases parsed : Declaration.parse line.number (Text.trim line.text.toList) with
            | error error => simp [parsed, Except.map] at read
            | ok found =>
              rw [parsed] at read
              cases read
              rfl
        · cases read
  · rintro ⟨no_section, no_comment, parsed⟩
    have mark : '|' ∈ Text.trim line.text.toList := by
      by_contra no_mark
      obtain ⟨_, _, _, _, columns, -⟩ := Declaration.parse_eq_ok_iff.1 parsed
      simp [Text.columns_of_not_mem no_mark] at columns
    simp only [ofLine, no_section]
    split
    · next comment trimmed => simp [trimmed] at no_comment
    · rw [if_pos mark, parsed]
      rfl

/-! ## Comments, sections and declarations -/

/-- A line of at least two characters is no header of a section, unless brackets are its first
character and its last one. -/
theorem SourceLine.section?_eq_none_iff {line : SourceLine} {front : List Char} {last : Char}
    (trimmed : Text.trim line.text.toList = front ++ [last]) (ne_nil : front ≠ []) :
    line.section? = none ↔ (front.head? = some '[' → last ≠ ']') := by
  obtain ⟨first, rest, rfl⟩ := List.exists_cons_of_ne_nil ne_nil
  rw [section?, trimmed, List.cons_append]
  split
  · next _ _ whole =>
    cases whole
    simp
  · next other =>
    have head : first ≠ '[' := fun same => other _ (by rw [same])
    simp [head]

namespace Declaration

theorem Stands.exists_middle {line space : List Char} {declaration : Declaration}
    (stands : Stands line space declaration) : ∃ middle, middle ≠ [] ∧
      Text.trim line =
        space ++ declaration.name.toList ++ (middle ++ declaration.value.toList) := by
  obtain ⟨offset, length, -, -, -, -, row⟩ := stands.row
  obtain ⟨middle, ne_nil, padded⟩ := Row.exists_middle [offset, length] row
  rw [List.append_assoc] at padded
  refine ⟨middle, ne_nil, (Text.trim_eq_iff (Text.trim_eq_self_iff.2 ⟨?_, ?_⟩)).2 padded⟩
  · have first := (Text.trim_eq_self_iff.1 (stands.isName.trim_append stands.isSpace)).1
    have ne_nil : space ++ declaration.name.toList ≠ [] := by simp [stands.isName.ne_nil]
    rwa [List.head?_append_of_ne_nil _ ne_nil]
  · rw [← List.append_assoc, List.getLast?_append_of_ne_nil _ stands.isValue.ne_nil]
    exact (Text.trim_eq_self_iff.1 stands.isValue.trimmed).2

/-- Names start with none of the characters that tell other lines apart. -/
theorem IsName.head?_append_iff {name : List Char} (isName : IsName name) {c : Char}
    (other : isNameChar c = false) (space behind : List Char) :
    (space ++ name ++ behind).head? = some c ↔ space.head? = some c := by
  cases space with
  | nil =>
    obtain ⟨first, rest, rfl, nameChar⟩ := isName.exists_cons
    have differ : first ≠ c := by
      rintro rfl
      rw [nameChar] at other
      cases other
    simp [differ]
  | cons first rest => simp

/-- The text in front of a name does not make the line a comment or the header of a section. -/
def Harmless (space : List Char) (declaration : Declaration) : Prop :=
  space.head? ≠ some '#' ∧
    (space.head? = some '[' → declaration.value.toList.getLast? ≠ some ']')

theorem Stands.ofLine_iff {line : SourceLine} {space : List Char} {declaration : Declaration}
    (stands : Stands line.text.toList space declaration) :
    line.section? = none ∧ (Text.trim line.text.toList).head? ≠ some '#' ↔
      Harmless space declaration := by
  obtain ⟨middle, ne_nil, trimmed⟩ := stands.exists_middle
  obtain ⟨front, last, value⟩ :=
    (List.eq_nil_or_concat declaration.value.toList).resolve_left stands.isValue.ne_nil
  rw [List.concat_eq_append] at value
  have split : Text.trim line.text.toList =
      (space ++ declaration.name.toList ++ (middle ++ front)) ++ [last] := by
    rw [trimmed, value]
    simp
  have header := stands.isName.head?_append_iff (by decide : isNameChar '[' = false)
  have comment := stands.isName.head?_append_iff (by decide : isNameChar '#' = false)
  rw [SourceLine.section?_eq_none_iff split (by simp [ne_nil]), Harmless, and_comm, trimmed, value]
  simp only [ne_eq, header, comment, List.getLast?_concat, Option.some_inj]

/-- A word, such as a token space is named by. -/
structure IsIdentifier (text : List Char) : Prop where
  ne_nil : text ≠ []
  wordChars : ∀ c ∈ text, isWordChar c = true

/-- In front of a name stands nothing, or an identifier and a dot. -/
def IsTokenSpace (space : List Char) : Prop :=
  space = [] ∨ ∃ text, IsIdentifier text ∧ space = text ++ ['.']

theorem IsTokenSpace.harmless {space : List Char} (isSpace : IsTokenSpace space)
    (declaration : Declaration) : Harmless space declaration := by
  rcases isSpace with rfl | ⟨text, ⟨ne_nil, wordChars⟩, rfl⟩
  · exact ⟨by simp, by simp⟩
  · obtain ⟨first, rest, rfl⟩ := List.exists_cons_of_ne_nil ne_nil
    have word := wordChars first List.mem_cons_self
    constructor
    · rintro head
      cases head
      exact absurd word (by decide)
    · rintro head
      cases head
      exact absurd word (by decide)

/-- A line with the columns of a declaration, and an identifier with a dot in front of the name or
none, declares just that. A line declares something only if it has the columns of what it declares,
behind whatever is dropped in front of the name. -/
theorem ofLine_stands (line : SourceLine) (declaration : Declaration) :
    (∀ space, IsTokenSpace space → Stands line.text.toList space declaration →
      LineEvent.ofLine line = .ok (.declaration declaration)) ∧
    (LineEvent.ofLine line = .ok (.declaration declaration) ↔
      ∃ space, Stands line.text.toList space declaration ∧ Harmless space declaration) := by
  have read : LineEvent.ofLine line = .ok (.declaration declaration) ↔
      ∃ space, Stands line.text.toList space declaration ∧ Harmless space declaration := by
    rw [LineEvent.ofLine_eq_declaration_iff]
    constructor
    · rintro ⟨no_section, no_comment, space, stands⟩
      exact ⟨space, stands, stands.ofLine_iff.1 ⟨no_section, no_comment⟩⟩
    · rintro ⟨space, stands, harmless⟩
      obtain ⟨no_section, no_comment⟩ := stands.ofLine_iff.2 harmless
      exact ⟨no_section, no_comment, space, stands⟩
  exact ⟨fun space isSpace stands => read.2 ⟨space, stands, isSpace.harmless declaration⟩, read⟩

/-- A declaration whose value holds the mark between columns. -/
def listField : Declaration := ⟨"CfgVar", .fixed 16, .fixed 4, "{0x1 | 0x2}"⟩

theorem listField_ofLine :
    Stands " gCfgData.CfgVar | 0x10 |4| {0x1 | 0x2}".toList "gCfgData.".toList listField ∧
      IsTokenSpace "gCfgData.".toList ∧
      LineEvent.ofLine ⟨1, " gCfgData.CfgVar | 0x10 |4| {0x1 | 0x2}"⟩ =
        .ok (.declaration listField) := by
  have isSpace : IsTokenSpace "gCfgData.".toList :=
    .inr ⟨"gCfgData".toList, ⟨by decide, List.all_eq_true.1 (by decide)⟩, by decide⟩
  have stands : Stands " gCfgData.CfgVar | 0x10 |4| {0x1 | 0x2}".toList "gCfgData.".toList
      listField := by
    have padded (lead text trail : List Char) (lead_blank : lead.all Text.isBlank = true)
        (trail_blank : trail.all Text.isBlank = true) :
        Text.Padded text (lead ++ text ++ trail) :=
      ⟨lead, trail, List.all_eq_true.1 lead_blank, List.all_eq_true.1 trail_blank, rfl⟩
    have solid : ∀ c ∈ "gCfgData".toList.head?, Text.isBlank c = false := by
      intro c head
      obtain rfl : 'g' = c := by simpa using head
      decide
    have dotted : IsSpace ("gCfgData".toList ++ ['.']) := .dotted (by decide) (by decide) solid
    refine ⟨dotted, ⟨by decide, List.all_eq_true.1 (by decide)⟩, ⟨by decide, by decide⟩,
      "0x10".toList, "4".toList, .fixed (by decide), .fixed (by decide), by decide, by decide, ?_⟩
    exact .cons (padded [' '] "gCfgData.CfgVar".toList [' '] (by decide) (by decide))
      (.cons (padded [' '] "0x10".toList [' '] (by decide) (by decide))
        (.cons (padded [] "4".toList [] (by decide) (by decide))
          (.last (padded [' '] "{0x1 | 0x2}".toList [] (by decide) (by decide)))))
  exact ⟨stands, isSpace, (ofLine_stands _ listField).1 _ isSpace stands⟩

end Declaration
end BoardSchema
