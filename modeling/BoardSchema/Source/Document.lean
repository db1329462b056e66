import BoardSchema.Source.Line
import BoardSchema.Error
/-!
A loaded description. Section headers split it into regions; a region is stitched together from all
sections of its kind, in document order. The defines region gives the bindings of variables.
-/
namespace BoardSchema

inductive Region where
  | defines
  /-- Template definitions. -/
  | template
  /-- The layout of the configuration. -/
  | config
  | other
  deriving DecidableEq, Repr

/-- The region that a section belongs to; the case of letters does not matter. -/
def Region.ofSection (name : List Char) : Region :=
  match (String.ofList (Text.trim name)).toLower with
  | "defines" => .defines
  | "pcdsdynamicvpd.tmp" => .template
  | "pcdsdynamicvpd.upd" => .config
  | _ => .other

/-- A name and the value it stands for. -/
structure Binding where
  name : String
  value : String
  deriving DecidableEq, Repr, Inhabited

namespace Binding

/-- The binding `NAME = VALUE` on a line, if it is one. -/
def ofLine? (line : SourceLine) : Option Binding :=
  let text := Text.trim line.text.toList
  if text.isEmpty || text.head? = some '#' then none
  else
    let text := ("DEFINE ".toList.isPrefixOf? text).getD text
    (Text.cutAt? '=' text).map fun (name, value) =>
      ⟨String.ofList (Text.trim name), String.ofList (Text.trim value)⟩

/-- Adds a binding at the end, or gives a known name its new value in place. -/
def define : List Binding → Binding → List Binding
  | [], new => [new]
  | old :: rest, new => if old.name = new.name then new :: rest else old :: define rest new

end Binding

/-- A description: where it was found and its lines. -/
structure Document where
  path : String
  lines : List SourceLine
  deriving DecidableEq, Repr

namespace Document

/-- Lines lose the blanks at their ends, and one of them has to be a section header. -/
def ofText (path text : String) : Except CompileError Document :=
  let texts := (Text.lines text.toList).map fun line => String.ofList (Text.trimEnd line)
  let lines := SourceLine.numbered texts
  if lines.any (·.section?.isSome) then .ok { path, lines }
  else .error (.unsupportedSourceFormat path "no `[Section]` header found")

/-- The lines of `region` when `current` is the region of the lines before. -/
def regionFrom (region : Region) : (current : Region) → List SourceLine → List SourceLine
  | _, [] => []
  | current, line :: rest =>
    match line.section? with
    | some name => regionFrom region (.ofSection name) rest
    | none =>
      if current = region then line :: regionFrom region current rest
      else regionFrom region current rest

/-- All lines of a region without the section headers; lines before the first header are other. -/
def region (document : Document) (region : Region) : List SourceLine :=
  regionFrom region .other document.lines

/-- The bindings in the order of their first definition, each with its last value. -/
def bindings (document : Document) : List Binding :=
  ((document.region .defines).filterMap Binding.ofLine?).foldl Binding.define []

end Document
end BoardSchema
