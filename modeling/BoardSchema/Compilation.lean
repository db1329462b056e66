import BoardSchema.Output.Rendering
import BoardSchema.Template.Expansion
/-!
Compiling a description: its templates are collected, the configuration is built and laid out with
the sizes of expansions, and everything is rendered. The schema is what was laid out before it was
rendered.
-/
namespace BoardSchema

structure TemplateSchema where
  name : String
  file : String
  fields : List Entry
  deriving DecidableEq, Repr

structure Schema where
  /-- The number of bytes of the configuration. -/
  size : Option Nat
  bindings : List Binding
  templates : List TemplateSchema
  configs : List Entry
  deriving DecidableEq, Repr

structure Compilation where
  /-- The document of the whole description first, then those of include targets. -/
  documents : List OutputDocument
  /-- The pragma blocks that were passed over. -/
  problems : List CompileError
  schema : Schema
  deriving DecidableEq, Repr

namespace Compilation

/-- The paths of the documents inside a directory. -/
def paths (compilation : Compilation) (dir : String) : List String :=
  compilation.documents.map fun document => Path.join dir document.file

/-- The document of a description is named after it. -/
def topFile (path : String) : String :=
  String.ofList ((Path.stem? path.toList).getD "CfgDataDef".toList) ++ ".yaml"

/-- The bodies of templates and the problems that were passed over in them. -/
def layoutBodies (rules : Rules) :
    TemplateTable → Logged (List (Template × List Entry) × List CompileError)
  | [] => return ([], [])
  | template :: rest => do
    let built ← template.layoutBody rules
    let (bodies, problems) ← layoutBodies rules rest
    return ((template, built.entries) :: bodies, built.problems ++ problems)

/-- Names for padding that no field of a stream has. -/
def paddingNames (rules : Rules) (entries : List Entry) : NamePool :=
  (entries.filterMap Entry.field?).foldl (fun pool field => pool.reserve field.name)
    { stem := rules.paddingPrefix }

def ofDocument (rules : Rules) (document : Document) : Logged Compilation := do
  let bindings := document.bindings
  let table ← TemplateTable.collect (document.region .template)
  let built ← Built.ofLines rules (document.region .config)
  let (bodies, bodyProblems) ← layoutBodies rules table
  let (layout, _) ← Layout.ofEntries rules (.strict (table.expandedSize rules))
    (paddingNames rules built.entries) built.entries
  let documents ← Rendering.schema rules table (topFile document.path) bindings bodies
    layout.entries
  Logged.note (.compiled document.path (layout.entries.filterMap Entry.field?).length table.length
    layout.size)
  return {
    documents
    problems := built.problems ++ bodyProblems
    schema := {
      size := layout.size
      bindings
      templates := bodies.map fun (template, fields) => ⟨template.name, template.file, fields⟩
      configs := layout.entries } }

/-- Compiles a text. Its name only gives the names of documents. -/
def ofText (rules : Rules) (name text : String) : Logged Compilation := do
  let document ← Logged.ofExcept (Document.ofText name text)
  ofDocument rules document

end Compilation
end BoardSchema
