import BoardSchema.Field.Basic
import BoardSchema.Notice
import BoardSchema.Output.Document
import BoardSchema.Template.Table
/-!
The lines that show a field: its name, its metadata, its length after the fixups, and its value. A
list that fills its field with elements wider than a byte gets the unit of its elements.
-/
namespace BoardSchema

/-- The width of the column of keys. -/
def keyWidth : Nat := 12

/-- The word for an element of 2, 4 or 8 bytes. -/
def unitWord? : Nat → Option String
  | 2 => some "WORD"
  | 4 => some "DWORD"
  | 8 => some "QWORD"
  | _ => none

/-- The text between the braces of a list of plain elements. -/
def listBody? (text : List Char) : Option (List Char) :=
  match text with
  | '{' :: rest =>
    if rest.getLast? = some '}' then
      let body := rest.dropLast
      if body.any fun c => c = '"' || c = '\'' || c = ':' then none else some body
    else none
  | _ => none

/-- The number of elements that are not blank. -/
def elementCount (body : List Char) : Nat :=
  (body.splitOn ',').countP fun element => !(Text.trim element).isEmpty

/-- The unit of `count` elements that share `length` bytes evenly. -/
def elementUnit? (count length : Nat) : Option String :=
  if length % count = 0 then unitWord? (length / count) else none

/-- Adds the unit of its elements to a list whose count of elements is not its length. -/
def annotateList (value : String) (length : Nat) : Logged String :=
  let trimmed := Text.trim value.toList
  match listBody? trimmed with
  | none => return value
  | some body =>
    let count := elementCount body
    if count = 0 || count = length then return value
    else
      let shown := String.ofList trimmed
      match elementUnit? count length with
      | some unit => return shown ++ ":" ++ unit
      | none => do
        Logged.note (.unknownWidth shown length)
        return value

/-- A length after one fixup, unless the sum leaves the 64 bits. -/
def Fixup.adjust? (fixup : Fixup) (length : Nat) : Option Nat :=
  let sum := (length : Int) + fixup.delta
  if 0 ≤ sum ∧ sum < Numeral.wordBound then some sum.toNat else none

/-- A length after the fixups for a name, in order. One that cannot be applied is passed over. -/
def Fixup.adjustAll (name : String) : List Fixup → Nat → Logged Nat
  | [], length => return length
  | fixup :: rest, length =>
    if fixup.pattern.Matches name then
      match fixup.adjust? length with
      | some adjusted => adjustAll name rest adjusted
      | none => do
        Logged.note (.fixupSkipped fixup.pattern.text name)
        adjustAll name rest length
    else adjustAll name rest length

namespace Field

/-- A byte field whose length the fixups go over. -/
def isCorrected (field : Field) : Bool :=
  field.role = .plain && field.expand.isNone && field.length.fixed?.isSome

/-- The length as shown and, for byte fields, the number of bytes. -/
def lengthText? (rules : Rules) (field : Field) : Logged (Option (String × Option Nat)) :=
  match field.role, field.length with
  | .bitField, .fixed bits => return some (s!"{bits}b", none)
  | .plain, .fixed bytes => do
    let bytes ← Fixup.adjustAll field.name rules.fixups bytes
    return some (Numeral.hex 2 bytes, some bytes)
  | .padding, .fixed bytes => return some (Numeral.hex 2 bytes, some bytes)
  | .bitField, .symbolic text => return some (text, none)
  | .plain, .symbolic text => return some (text, none)
  | .padding, .symbolic text => return some (text, none)
  | _, _ => return none

/-- A key and its value. A value of several lines becomes a block below the key. -/
def keyLines (key value : String) : List OutputLine :=
  let label := Text.padRight keyWidth key ++ " : "
  if '\n' ∈ value.toList then
    ⟨4, label ++ ">"⟩ :: (Text.lines value.toList).map fun line => ⟨6, String.ofList line⟩
  else [⟨4, label ++ value⟩]

/-- Choices and conditions go through the substitution table. -/
def metadataLines (rules : Rules) (metadata : Metadata) : List OutputLine :=
  metadata.entries.flatMap fun (key, text) =>
    keyLines key.label (if key = .choices ∨ key = .condition then rules.substitute text else text)

/-- The value of a field. A list in a byte field shows its unit. -/
def valueLines (bytes : Option Nat) : Option String → Logged (List OutputLine)
  | none => return []
  | some value =>
    match bytes with
    | none => return keyLines "value" value
    | some bytes => do
      let value ← annotateList value bytes
      return keyLines "value" value

/-- The lines of a field. A template call is one line, and its template has to be known; the end of
a structure is none. -/
def lines (rules : Rules) (table : TemplateTable) (field : Field) : Logged (List OutputLine) :=
  match field.expand with
  | some call =>
    if (table.get? call.template).isNone then
      Logged.fail (.unknownTemplateReference field.line call.template)
    else return [⟨0, "- !expand \x7b " ++ call.text ++ " \x7d"⟩]
  | none =>
    if field.role = .structClose then return []
    else do
      let length ← lengthText? rules field
      let value ← valueLines (length.bind (·.2)) field.value
      return ⟨0, "- " ++ field.name ++ " :"⟩ :: metadataLines rules field.metadata ++
        (length.toList.flatMap fun (text, _) => keyLines "length" text) ++ value

end Field
end BoardSchema
