import BoardSchema.Line.Event
import BoardSchema.Notice
/-!
The templates of a description. A template is the run of lines between the two bounds
`DEFT:{NAME:START}` and `DEFT:{NAME:END}`; runs do not nest. A template that is defined again keeps
its place in the table and takes its last definition.
-/
namespace BoardSchema

structure Template where
  name : String
  /-- The innermost include file that was open where the template starts. -/
  file : String
  /-- The line on which it starts. -/
  line : Nat
  body : List SourceLine
  deriving DecidableEq, Repr

namespace Template

/-- The file of what no include bracket surrounds. -/
def topLevel : String := "."

inductive Bound where
  | start (name : String)
  | stop (name : String)
  deriving DecidableEq, Repr

/-- The bound that a block names: what stands before its last colon is the name. -/
def bound? (block : Block) : Option Bound :=
  if block.key = "DEFT" then
    (Text.cutAtLast? ':' block.value.toList).bind fun (name, word) =>
      let name := String.ofList (Text.trim name)
      match String.ofList ((Text.trim word).map Char.toUpper) with
      | "START" => some (.start name)
      | "END" => some (.stop name)
      | _ => none
  else none

/-- The first bound on a line. -/
def boundOf? : LineEvent → Option Bound
  | .bsf pragma => pragma.blocks.findSome? bound?
  | _ => none

end Template

/-- Templates with names that differ, in the order in which they were first completed. -/
abbrev TemplateTable := List Template

namespace TemplateTable

def get? (table : TemplateTable) (name : String) : Option Template :=
  table.find? (·.name = name)

def names (table : TemplateTable) : List String := table.map Template.name

/-- Puts a definition in the place of the one of its name, or at the end. -/
def insert : TemplateTable → Template → TemplateTable
  | [], new => [new]
  | old :: rest, new => if old.name = new.name then new :: rest else old :: insert rest new

/-- A table under way: what is complete, the include files that are open (innermost first), and the
template whose end has not come yet. -/
structure Collection where
  complete : TemplateTable := []
  includes : List String := []
  current : Option Template := none
  deriving Repr

namespace Collection

/-- Starts a template, unless one is open. Starting the open one again changes nothing. -/
def start (line : SourceLine) (name : String) (c : Collection) : Logged Collection :=
  match c.current with
  | none =>
    let file := c.includes.head?.getD Template.topLevel
    return { c with current := some { name, file, line := line.number, body := [] } }
  | some current =>
    if name = current.name then do
      Logged.note (.repeatedStart line.number name)
      return c
    else Logged.fail (.templateReopened line.number name current.name)

/-- Ends the template that is open, which has to have the name. -/
def stop (line : SourceLine) (name : String) (c : Collection) : Logged Collection :=
  match c.current with
  | none => Logged.fail (.unmatchedTemplateEnd line.number name)
  | some current =>
    if name = current.name then
      return { c with complete := c.complete.insert current, current := none }
    else Logged.fail (.unmatchedTemplateEnd line.number name)

/-- A line between bounds belongs to the template that is open. -/
def keep (line : SourceLine) (event : LineEvent) (c : Collection) : Logged Collection :=
  match c.current, event with
  | some current, _ =>
    return { c with current := some { current with body := current.body ++ [line] } }
  | none, .declaration _ => do
    Logged.note (.strayField line.number)
    return c
  | none, _ => return c

/-- Takes in a line. Include brackets are followed and belong to no template. -/
def add (c : Collection) (line : SourceLine) : Logged Collection := do
  let event ← Logged.ofExcept (LineEvent.ofLine line)
  match event with
  | .includeOpen path => return { c with includes := path :: c.includes }
  | .includeClose =>
    match c.includes with
    | [] => Logged.fail (.unbalancedInclude line.number)
    | _ :: outer => return { c with includes := outer }
  | event =>
    match Template.boundOf? event with
    | some (.start name) => c.start line name
    | some (.stop name) => c.stop line name
    | none => c.keep line event

def addAll (c : Collection) : List SourceLine → Logged Collection
  | [] => pure c
  | line :: rest => do
    let c ← c.add line
    addAll c rest

/-- A template that is still open at the end is an error. -/
def finish (c : Collection) : Except CompileError TemplateTable :=
  match c.current with
  | none => .ok c.complete
  | some current => .error (.unterminatedTemplate current.line current.name)

end Collection

/-- Collects the templates of a run of lines. -/
def collect (lines : List SourceLine) : Logged TemplateTable := do
  let c ← Collection.addAll {} lines
  Logged.ofExcept c.finish

end TemplateTable
end BoardSchema
