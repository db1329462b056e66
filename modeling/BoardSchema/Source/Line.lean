import BoardSchema.Text.Lines
import BoardSchema.Text.Search
/-!
Numbered source lines, and the section headers among them.
-/
namespace BoardSchema

/-- A line of a description with its number, counted from one. -/
structure SourceLine where
  number : Nat
  text : String
  deriving DecidableEq, Repr, Inhabited

namespace SourceLine

/-- Lines numbered in order. -/
def numbered (texts : List String) : List SourceLine :=
  texts.mapIdx fun i text => ⟨i + 1, text⟩

/-- The lines of a text as they are, blanks at their ends included. -/
def ofText (text : String) : List SourceLine :=
  numbered ((Text.lines text.toList).map String.ofList)

/-- The name between the brackets of a `[Section]` header. -/
def section? (line : SourceLine) : Option (List Char) :=
  match Text.trim line.text.toList with
  | '[' :: rest => if rest.getLast? = some ']' then some rest.dropLast else none
  | _ => none

theorem length_numbered (texts : List String) : (numbered texts).length = texts.length := by
  simp [numbered]

end SourceLine
end BoardSchema
