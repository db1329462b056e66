import BoardSchema.Line.Event
import BoardSchema.Proofs.Line.Pieces
/-!
A pragma that is cut at one of its parts. What stands in front of the part and what stands behind it
is read without it as it was read with it, so a part that is deleted takes nothing with it. The text
of a pragma is what stands behind its mark, whatever blanks there are around the line.
-/
namespace BoardSchema.Pragma

/-- What a pragma is made of: blocks, tokens that are none, and at its end a block that is left
open. -/
inductive Part where
  | item (item : Item)
  | opened (last : OpenBlock)

namespace Part

def text : Part → List Char
  | .item found => found.text
  | .opened last => last.text

def block? : Part → Option Block
  | .item found => found.block?
  | .opened _ => none

def error? (line : Nat) : Part → Option CompileError
  | .item found => found.error? line
  | .opened last => some (last.error line)

theorem block?_of_error? {part : Part} {line : Nat} {error : CompileError}
    (wrong : part.error? line = some error) : part.block? = none := by
  cases part with
  | item found =>
    cases found with
    | block => cases wrong
    | stray => rfl
  | opened last => rfl

/-- A text that a part can stand in front of. -/
def EndsAt (behind : List Char) : Part → Prop
  | .item found => found.block? = none → StopsHere behind
  | .opened _ => behind = []

theorem endsAt_of_block {part : Part} {block : Block} (read : part.block? = some block)
    (behind : List Char) : part.EndsAt behind := by
  cases part with
  | item found => exact fun stray => absurd (read.symm.trans stray) (Option.some_ne_none block)
  | opened last => cases read

/-- A part is read as what it is, and then comes what stands behind it. -/
theorem scan_text_append {part : Part} {behind : List Char} (line : Nat)
    (ends : part.EndsAt behind) : scan line (part.text ++ behind) =
      { blocks := part.block?.toList ++ (scan line behind).blocks
        malformed := (part.error? line).toList ++ (scan line behind).malformed } := by
  cases part with
  | item found =>
    have apart : Apart behind [⟨found, [], blanks_nil⟩] :=
      ⟨fun stray _ => ⟨rfl, ends stray⟩, trivial⟩
    have step := scan_append line blanks_nil apart
    cases found <;> simpa [Piece.text, text, block?, error?, Item.block?, Item.error?] using step
  | opened last =>
    obtain rfl : behind = [] := ends
    simp [text, block?, error?]

end Part

/-- A text that is cut in front of one of its parts and behind it. -/
structure Cut where
  lead : List Char
  left : List Piece
  part : Part
  behind : List Char
  blank : ∀ c ∈ lead, Text.isBlank c = true
  apart : ∀ piece ∈ left, piece.item.block? = none → piece.gap ≠ []
  ends : part.EndsAt behind

namespace Cut

/-- The text with `middle` where the part stands. -/
def around (cut : Cut) (middle : List Char) : List Char :=
  cut.lead ++ (cut.left.flatMap Piece.text ++ (middle ++ cut.behind))

def text (cut : Cut) : List Char := cut.around cut.part.text

def shortened (cut : Cut) : List Char := cut.around []

theorem apart_of_gaps {pieces : List Piece}
    (gaps : ∀ piece ∈ pieces, piece.item.block? = none → piece.gap ≠ []) (tail : List Char) :
    Apart tail pieces := by
  induction pieces with
  | nil => trivial
  | cons piece rest ih =>
    obtain ⟨gap, gaps⟩ := List.forall_mem_cons.1 gaps
    exact ⟨fun stray gap_nil => absurd gap_nil (gap stray), ih gaps⟩

theorem scan_around (cut : Cut) (line : Nat) (middle : List Char) :
    scan line (cut.around middle) =
      { blocks := cut.left.filterMap (·.item.block?) ++ (scan line (middle ++ cut.behind)).blocks
        malformed := cut.left.filterMap (·.item.error? line) ++
          (scan line (middle ++ cut.behind)).malformed } :=
  scan_append line cut.blank (apart_of_gaps cut.apart _)

theorem scan_text (cut : Cut) (line : Nat) : scan line cut.text =
    { blocks := cut.left.filterMap (·.item.block?) ++
        (cut.part.block?.toList ++ (scan line cut.behind).blocks)
      malformed := cut.left.filterMap (·.item.error? line) ++
        ((cut.part.error? line).toList ++ (scan line cut.behind).malformed) } := by
  rw [text, scan_around, Part.scan_text_append line cut.ends]

/-- Without the part the same is read in front of it and behind it. -/
theorem scan_shortened (cut : Cut) (line : Nat) : scan line cut.shortened =
    { blocks := cut.left.filterMap (·.item.block?) ++ (scan line cut.behind).blocks
      malformed := cut.left.filterMap (·.item.error? line) ++
        (scan line cut.behind).malformed } := by
  rw [shortened, scan_around, List.nil_append]

/-- Where more follows, all tokens that are no blocks have blanks behind them. -/
theorem gaps_of_separated {left right : List Piece} {last : Option OpenBlock}
    (more : right = [] → last ≠ none) (separated : Separated last (left ++ right)) :
    (∀ piece ∈ left, piece.item.block? = none → piece.gap ≠ []) ∧ Separated last right := by
  induction left with
  | nil => exact ⟨by simp, separated⟩
  | cons first left ih =>
    obtain ⟨apart, separated⟩ := separated
    obtain ⟨gaps, separated⟩ := ih separated
    refine ⟨List.forall_mem_cons.2 ⟨fun stray gap_nil => ?_, gaps⟩, separated⟩
    obtain ⟨rest_nil, none_left⟩ := apart stray gap_nil
    exact more (List.append_eq_nil_iff.1 rest_nil).2 none_left

/-- A text can be cut at each of its pieces. -/
theorem exists_of_piece {lead : List Char} {left right : List Piece} {piece : Piece}
    {last : Option OpenBlock} (blank : ∀ c ∈ lead, Text.isBlank c = true)
    (separated : Separated last (left ++ piece :: right)) :
    ∃ cut : Cut, cut.text = lead ++ textOf (left ++ piece :: right) last ∧
      cut.part = .item piece.item ∧ cut.left = left := by
  obtain ⟨gaps, apart, -⟩ := gaps_of_separated (by simp) separated
  have ends : (Part.item piece.item).EndsAt (piece.gap ++ textOf right last) := by
    intro stray
    refine stopsHere_append piece.blank fun gap_nil => ?_
    obtain ⟨rfl, rfl⟩ := apart stray gap_nil
    rintro c ⟨⟩
  refine ⟨⟨lead, left, .item piece.item, piece.gap ++ textOf right last, blank, gaps, ends⟩, ?_,
    rfl, rfl⟩
  simp [text, around, textOf, Part.text, Piece.text]

/-- A text can be cut at each of its blocks. -/
theorem exists_of_block {line : Nat} {text : List Char} {blocks rest : List Block} {block : Block}
    (read : (scan line text).blocks = blocks ++ block :: rest) :
    ∃ cut : Cut, cut.text = text ∧ cut.part.block? = some block ∧
      cut.left.filterMap (·.item.block?) = blocks := by
  obtain ⟨lead, pieces, last, blank, separated, rfl⟩ := exists_textOf text
  rw [scan_textOf line blank separated] at read
  obtain ⟨left, right, rfl, hleft, hright⟩ := List.filterMap_eq_append_iff.1 read
  obtain ⟨skipped, piece, right, rfl, none_skipped, hpiece, -⟩ :=
    List.filterMap_eq_cons_iff.1 hright
  have assoc : left ++ (skipped ++ piece :: right) = (left ++ skipped) ++ piece :: right := by simp
  rw [assoc] at separated ⊢
  obtain ⟨cut, whole, part, front⟩ := exists_of_piece blank separated
  refine ⟨cut, whole, by rw [part]; exact hpiece, ?_⟩
  rw [front, List.filterMap_append, hleft, List.filterMap_eq_nil_iff.2 none_skipped,
    List.append_nil]

/-- A text can be cut at what is wrong with it. -/
theorem exists_of_malformed {line : Nat} {text : List Char} {error : CompileError}
    (read : error ∈ (scan line text).malformed) :
    ∃ cut : Cut, cut.text = text ∧ cut.part.error? line = some error := by
  obtain ⟨lead, pieces, last, blank, separated, rfl⟩ := exists_textOf text
  rw [scan_textOf line blank separated] at read
  rcases List.mem_append.1 read with mem | mem
  · obtain ⟨piece, mem, shown⟩ := List.mem_filterMap.1 mem
    obtain ⟨left, right, rfl⟩ := List.append_of_mem mem
    obtain ⟨cut, whole, part, -⟩ := exists_of_piece blank separated
    exact ⟨cut, whole, by rw [part]; exact shown⟩
  · cases last with
    | none => cases mem
    | some last =>
      obtain rfl : error = last.error line := by simpa using mem
      have separated : Separated (some last) (pieces ++ []) := by simpa using separated
      obtain ⟨gaps, -⟩ := gaps_of_separated (by simp) separated
      refine ⟨⟨lead, pieces, .opened last, [], blank, gaps, rfl⟩, ?_, rfl⟩
      simp [Cut.text, around, textOf, Part.text]

end Cut

/-! ## Blanks behind a pragma -/

theorem Place.next_of_isBlank (place : Place) {c : Char} (blank : Text.isBlank c = true) :
    place.next c = place := by
  have other (mark : Char) (solid : Text.isBlank mark = false) : c ≠ mark := by
    rintro rfl
    rw [solid] at blank
    cases blank
  simp [next, other '"' (by decide), other '\x7b' (by decide), other '\x7d' (by decide)]

theorem Place.StaysOpen.append_blanks {place : Place} {text trail : List Char}
    (stays : place.StaysOpen text) (blank : ∀ c ∈ trail, Text.isBlank c = true) :
    place.StaysOpen (text ++ trail) := by
  induction text generalizing place with
  | nil =>
    induction trail with
    | nil => exact stays
    | cons c trail ih =>
      obtain ⟨here, blank⟩ := List.forall_mem_cons.1 blank
      rw [List.nil_append, staysOpen_cons, next_of_isBlank place here]
      exact ⟨stays.depth_ne_zero, ih blank⟩
  | cons c text ih =>
    obtain ⟨here, stays⟩ := staysOpen_cons.1 stays
    exact staysOpen_cons.2 ⟨here, ih stays⟩

/-- Blanks behind the text of a pragma change nothing in it. -/
theorem scan_append_blanks {trail : List Char} (line : Nat)
    (blank : ∀ c ∈ trail, Text.isBlank c = true) (text : List Char) :
    scan line (text ++ trail) = scan line text := by
  obtain ⟨lead, pieces, last, lead_blank, separated, rfl⟩ := exists_textOf text
  have nothing := scan_blanks line blank
  rw [scan_textOf line lead_blank separated]
  cases last with
  | none =>
    have apart : Apart trail pieces :=
      separated.apart fun _ c first => blank c (List.mem_of_mem_head? first)
    simpa [textOf, reading, nothing] using scan_append line lead_blank apart
  | some last =>
    -- The blanks go into the value of the open block, of which its error shows nothing.
    let longer : OpenBlock :=
      ⟨last.key, last.body ++ trail, last.isKey, last.stays.append_blanks blank⟩
    have apart : Apart longer.text pieces := separated.apart (by simp)
    have whole : textOf pieces (some last) ++ trail = pieces.flatMap Piece.text ++ longer.text := by
      simp [textOf, OpenBlock.text, longer]
    rw [List.append_assoc, whole, scan_append line lead_blank apart, scan_openBlock_text]
    simp [reading, OpenBlock.error, longer]

/-! ## The line of a pragma -/

/-- What a pragma is about: the field that follows, or a structure. -/
inductive Kind where
  | bsf
  | hdr
  deriving DecidableEq

namespace Kind

def mark : Kind → List Char
  | bsf => ['!', 'B', 'S', 'F']
  | hdr => ['!', 'H', 'D', 'R']

def event : Kind → Pragma → LineEvent
  | bsf => .bsf
  | hdr => .hdr

end Kind

/-- A pragma's mark with the blanks in front of it. -/
structure Margin where
  kind : Kind
  indent : List Char
  gap : List Char
  indent_blank : ∀ c ∈ indent, Text.isBlank c = true
  gap_blank : ∀ c ∈ gap, Text.isBlank c = true

/-- The line with a pragma of this text. -/
def Margin.line (margin : Margin) (number : Nat) (text : List Char) : SourceLine :=
  ⟨number, String.ofList (margin.indent ++ '#' :: (margin.gap ++ (margin.kind.mark ++ text)))⟩

theorem scan_trimEnd (line : Nat) (text : List Char) :
    scan line (Text.trimEnd text) = scan line text := by
  obtain ⟨trail, blank, whole⟩ := Text.exists_trimEnd text
  have same := scan_append_blanks line blank (Text.trimEnd text)
  rw [← whole] at same
  exact same.symm

/-- The line of a pragma ends where its text does. -/
theorem trim_margin (margin : Margin) (number : Nat) (text : List Char) :
    Text.trim (margin.line number text).text.toList =
      '#' :: (margin.gap ++ (margin.kind.mark ++ Text.trimEnd text)) := by
  obtain ⟨kind, indent, gap, indent_blank, _⟩ := margin
  rw [Margin.line, String.toList_ofList, Text.trim,
    Text.trimStart_append_cons indent_blank (by decide)]
  cases kind with
  | bsf =>
    simpa [Kind.mark] using
      Text.trimEnd_append_cons (by decide : Text.isBlank 'F' = false) ('#' :: gap ++ ['!', 'B', 'S']) text
  | hdr =>
    simpa [Kind.mark] using
      Text.trimEnd_append_cons (by decide : Text.isBlank 'R' = false) ('#' :: gap ++ ['!', 'H', 'D']) text

/-- A line that starts with the mark of comments is one. -/
theorem ofLine_comment {line : SourceLine} {comment : List Char}
    (trimmed : Text.trim line.text.toList = '#' :: comment) :
    LineEvent.ofLine line = LineEvent.ofComment line comment := by
  simp [LineEvent.ofLine, SourceLine.section?, trimmed]

theorem ofLine_margin (margin : Margin) (number : Nat) (text : List Char) :
    LineEvent.ofLine (margin.line number text) =
      .ok (margin.kind.event (scan number text)) := by
  rw [ofLine_comment (trim_margin margin number text), ← scan_trimEnd]
  obtain ⟨kind, indent, gap, _, gap_blank⟩ := margin
  cases kind with
  | bsf =>
    rw [LineEvent.ofComment, Kind.mark, List.cons_append,
      Text.trimStart_append_cons gap_blank (by decide)]
    rfl
  | hdr =>
    rw [LineEvent.ofComment, Kind.mark, List.cons_append,
      Text.trimStart_append_cons gap_blank (by decide)]
    rfl

theorem exists_mark_of_ofComment {line : SourceLine} {comment : List Char} {kind : Kind}
    {pragma : Pragma} (read : LineEvent.ofComment line comment = .ok (kind.event pragma)) :
    ∃ text, Text.trimStart comment = kind.mark ++ text ∧ pragma = scan line.number text := by
  unfold LineEvent.ofComment at read
  split at read
  · next text shown => cases kind <;> cases read; exact ⟨text, shown, rfl⟩
  · next text shown => cases kind <;> cases read; exact ⟨text, shown, rfl⟩
  · split at read <;> cases kind <;> cases read
  · cases kind <;> cases read
  · cases kind <;> cases read

theorem exists_comment_of_ofLine {line : SourceLine} {kind : Kind} {pragma : Pragma}
    (read : LineEvent.ofLine line = .ok (kind.event pragma)) :
    ∃ comment, Text.trim line.text.toList = '#' :: comment ∧
      LineEvent.ofComment line comment = .ok (kind.event pragma) := by
  unfold LineEvent.ofLine at read
  split at read
  · cases kind <;> cases read
  · split at read
    · next comment trimmed => exact ⟨comment, trimmed, read⟩
    · split at read
      · cases parsed : Declaration.parse line.number (Text.trim line.text.toList) with
        | error error => simp [parsed, Except.map] at read
        | ok declaration => cases kind <;> simp [parsed, Except.map, Kind.event] at read
      · cases kind <;> cases read

/-- Every line with a pragma is the mark of the pragma with its text behind it. -/
theorem exists_margin {line : SourceLine} {kind : Kind} {pragma : Pragma}
    (read : LineEvent.ofLine line = .ok (kind.event pragma)) :
    ∃ (margin : Margin) (text : List Char), margin.kind = kind ∧
      margin.line line.number text = line ∧ pragma = scan line.number text := by
  obtain ⟨comment, trimmed, read⟩ := exists_comment_of_ofLine read
  obtain ⟨text, marked, rfl⟩ := exists_mark_of_ofComment read
  obtain ⟨indent, indent_blank, start⟩ := Text.exists_trimStart line.text.toList
  obtain ⟨trail, trail_blank, stop⟩ := Text.exists_trimEnd (Text.trimStart line.text.toList)
  obtain ⟨gap, gap_blank, behind⟩ := Text.exists_trimStart comment
  rw [← Text.trim, trimmed, behind, marked] at stop
  refine ⟨⟨kind, indent, gap, indent_blank, gap_blank⟩, text ++ trail, rfl, ?_,
    (scan_append_blanks _ trail_blank text).symm⟩
  have whole : indent ++ '#' :: (gap ++ (kind.mark ++ (text ++ trail))) = line.text.toList := by
    rw [start, stop]
    simp
  rw [Margin.line, whole, String.ofList_toList]

end BoardSchema.Pragma
