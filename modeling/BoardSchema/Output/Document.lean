import BoardSchema.Files.Path
import BoardSchema.Rules.Basic
import BoardSchema.Text.Lines
/-!
The documents that a compilation writes. Documents are told apart by their file names; one that is
written to for the first time starts with the boilerplate.
-/
namespace BoardSchema

structure OutputDocument where
  file : String
  lines : List String
  deriving DecidableEq, Repr

/-- Every line ends with a line feed. -/
def OutputDocument.text (document : OutputDocument) : String :=
  "\n".intercalate document.lines ++ "\n"

/-- A line of text and how far it is indented. -/
structure OutputLine where
  indent : Nat
  text : String
  deriving DecidableEq, Repr

namespace OutputLine

def render (line : OutputLine) : String :=
  String.ofList (List.replicate line.indent ' ') ++ line.text

/-- The same line further to the right. -/
def shift (more : Nat) (line : OutputLine) : OutputLine :=
  { line with indent := more + line.indent }

end OutputLine

/-- The lines at the top of a document: the boilerplate and an empty line. -/
def Rules.heading (rules : Rules) : List String :=
  (Text.lines rules.boilerplate.toList).map String.ofList ++ [""]

/-- Documents in the order in which they were started. -/
abbrev Bundle := List OutputDocument

namespace Bundle

/-- Starts a document with the boilerplate, unless there is one of that name. -/
def start (rules : Rules) (file : String) (bundle : Bundle) : Bundle :=
  if bundle.any (·.file = file) then bundle else bundle ++ [⟨file, rules.heading⟩]

/-- Adds lines at the end of a document. -/
def write (file : String) (lines : List OutputLine) (bundle : Bundle) : Bundle :=
  bundle.map fun document =>
    if document.file = file then
      { document with lines := document.lines ++ lines.map OutputLine.render }
    else document

theorem map_file_write (file : String) (lines : List OutputLine) (bundle : Bundle) :
    (bundle.write file lines).map OutputDocument.file = bundle.map OutputDocument.file := by
  simp only [write, List.map_map]
  apply List.map_congr_left
  intro document _
  simp only [Function.comp_apply]
  split <;> rfl

end Bundle

/-- The document of an include target: the stem of its path, whatever directory it is in. -/
def satelliteName (path : String) : String :=
  let stem := ((Path.stem? path.toList).filter (· ≠ ['.', '.'])).getD "include".toList
  String.ofList stem ++ ".yaml"

end BoardSchema
