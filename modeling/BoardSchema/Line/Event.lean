import BoardSchema.Line.Pragma
import BoardSchema.Field.Basic
import BoardSchema.Source.Line
/-!
What a source line says. Classification looks at the line alone. A declaration of the wrong shape
fails; a pragma keeps its faulty blocks apart so that the rest of it counts.
-/
namespace BoardSchema

/-- The columns `Name | Offset | Length | Value` of a declaration. -/
structure Declaration where
  name : String
  offset : Offset
  length : Length
  value : String
  deriving DecidableEq, Repr

inductive LineEvent where
  | sectionHeader (name : String)
  | declaration (declaration : Declaration)
  | includeOpen (path : String)
  | includeClose
  /-- A pragma on the field that follows. -/
  | bsf (pragma : Pragma)
  /-- A pragma on a structure. -/
  | hdr (pragma : Pragma)
  | unrecognized
  deriving DecidableEq, Repr

namespace Declaration

def isNameChar (c : Char) : Bool :=
  c.isAlphanum || c == '_' || c == '$' || c == '(' || c == ')'

/-- The name in the first column, without the token space before the first dot. -/
def nameOf (column : List Char) : List Char :=
  match Text.cutAt? '.' column with
  | some (_, name) => name
  | none => column

def offsetOf? (column : List Char) : Option Offset :=
  if column = ['*'] then some .auto else (Numeral.parse column).map .fixed

/-- A declaration has four columns, and only the last may hold the mark between them. -/
def parse (line : Nat) (text : List Char) : Except CompileError Declaration :=
  let malformed (detail : String) : Except CompileError Declaration :=
    .error (.malformedField line detail)
  match (Text.columns '|' 3 text).map Text.trim with
  | [first, offset, length, value] =>
    let name := nameOf first
    let shown := String.ofList name
    if name.isEmpty || !name.all isNameChar then malformed s!"invalid field name `{shown}`"
    else
      match offsetOf? offset with
      | none =>
        let offsetText := String.ofList offset
        malformed s!"invalid offset `{offsetText}` for `{shown}`"
      | some offset =>
        if length.isEmpty then malformed s!"missing length for `{shown}`"
        else if value.isEmpty then malformed s!"missing value for `{shown}`"
        else .ok ⟨shown, offset, .parse length, String.ofList value⟩
  | columns =>
    malformed s!"expected `Name | Offset | Length | Value`, found {columns.length} column(s)"

end Declaration

namespace LineEvent

/-- The path of an include directive: what follows the word `include`, without blanks and quotes
around it. -/
def includePath? (text : List Char) : Option String :=
  match "include".toList.isPrefixOf? (Text.trimStart text) with
  | none => none
  | some rest =>
    let path := Text.trim rest
    if path.isEmpty then none else some (String.ofList (Text.trimMark '"' path))

/-- What a comment says, given the text behind its mark. -/
def ofComment (line : SourceLine) (text : List Char) : Except CompileError LineEvent :=
  match Text.trimStart text with
  | '!' :: 'B' :: 'S' :: 'F' :: rest => .ok (.bsf (Pragma.scan line.number rest))
  | '!' :: 'H' :: 'D' :: 'R' :: rest => .ok (.hdr (Pragma.scan line.number rest))
  | '!' :: '<' :: rest =>
    match includePath? rest with
    | some path => .ok (.includeOpen path)
    | none =>
      let shown := String.ofList (Text.trim line.text.toList)
      .error (.malformedPragma line.number "include"
        s!"expected `!< include <path>`, found `{shown}`")
  | '!' :: '>' :: _ => .ok .includeClose
  | _ => .ok .unrecognized

/-- Every line has exactly one reading, or an error. -/
def ofLine (line : SourceLine) : Except CompileError LineEvent :=
  match line.section? with
  | some name => .ok (.sectionHeader (String.ofList (Text.trim name)))
  | none =>
    match Text.trim line.text.toList with
    | '#' :: comment => ofComment line comment
    | text =>
      if '|' ∈ text then (Declaration.parse line.number text).map .declaration
      else .ok .unrecognized

end LineEvent
end BoardSchema
