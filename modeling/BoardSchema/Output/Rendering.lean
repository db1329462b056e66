import BoardSchema.Output.FieldText
import BoardSchema.Source.Document
/-!
Rendering streams into documents. Entries are indented by the structures around them. Where every
include target has a document of its own, an include bracket moves on to that document and leaves a
reference behind; otherwise included entries stay where they are.
-/
namespace BoardSchema

/-- The width of the column of names. -/
def nameWidth : Nat := 30

namespace Rendering

/-- Where lines go: a document, the indentation there, and the number of structures around. -/
structure Frame where
  file : String
  base : Nat
  depth : Nat := 0
  deriving DecidableEq, Repr

def Frame.indent (frame : Frame) : Nat := frame.base + 2 * frame.depth

/-- The frame behind a field. -/
def Frame.after (frame : Frame) (field : Field) : Frame :=
  match field.role with
  | .structOpen => { frame with depth := frame.depth + 1 }
  | .structClose => { frame with depth := frame.depth - 1 }
  | _ => frame

/-- Renders a stream; `outer` are the frames of the includes around it, innermost first. -/
def entries (rules : Rules) (table : TemplateTable) :
    Frame → (outer : List Frame) → Bundle → List Entry → Logged Bundle
  | _, _, bundle, [] => pure bundle
  | frame, outer, bundle, .field field :: rest => do
    let lines ← field.lines rules table
    let bundle := bundle.write frame.file (lines.map (OutputLine.shift frame.indent))
    entries rules table (frame.after field) outer bundle rest
  | frame, outer, bundle, .includeOpen path :: rest =>
    if rules.emitAll then
      let file := satelliteName path
      let bundle := (bundle.start rules file).write frame.file
        [⟨frame.indent, "- !include " ++ file⟩]
      entries rules table ⟨file, 0, 0⟩ (frame :: outer) bundle rest
    else entries rules table frame outer bundle rest
  | frame, outer, bundle, .includeClose :: rest =>
    match rules.emitAll, outer with
    | true, around :: outer => entries rules table around outer bundle rest
    | _, outer => entries rules table frame outer bundle rest

def bindingLines (rules : Rules) (bindings : List Binding) : List OutputLine :=
  bindings.map fun binding =>
    ⟨2, Text.padRight nameWidth binding.name ++ " : " ++ rules.substitute binding.value⟩

/-- Renders the bodies of templates. A body from an include file goes to the document of that file,
which `top` refers to once. -/
def bodies (rules : Rules) (table : TemplateTable) (top : String) :
    (referenced : List String) → Bundle → List (Template × List Entry) → Logged Bundle
  | _, bundle, [] => pure bundle
  | referenced, bundle, (template, body) :: rest =>
    if rules.emitAll && template.file ≠ Template.topLevel then do
      let file := satelliteName template.file
      let bundle := bundle.start rules file
      let (referenced, bundle) :=
        if referenced.contains file then (referenced, bundle)
        else (file :: referenced, bundle.write top [⟨2, "!include " ++ file⟩])
      let bundle := bundle.write file [⟨0, template.name ++ ": >"⟩]
      let bundle ← entries rules table ⟨file, 2, 0⟩ [] bundle body
      bodies rules table top referenced (bundle.write file [⟨0, ""⟩]) rest
    else do
      let bundle := bundle.write top [⟨2, template.name ++ ": >"⟩]
      let bundle ← entries rules table ⟨top, 4, 0⟩ [] bundle body
      bodies rules table top referenced (bundle.write top [⟨0, ""⟩]) rest

/-- The fixups that no byte field of the streams answers to. -/
def unusedFixups (rules : Rules) (fields : List Field) : List Fixup :=
  rules.fixups.filter fun fixup =>
    !fields.any fun field => field.isCorrected && fixup.pattern.Matches field.name

/-- The documents of a schema, the one of the whole description first. -/
def schema (rules : Rules) (table : TemplateTable) (top : String) (bindings : List Binding)
    (templates : List (Template × List Entry)) (configs : List Entry) : Logged Bundle := do
  let bundle : Bundle := [⟨top, rules.heading⟩]
  let bundle := bundle.write top (⟨0, "variable:"⟩ :: bindingLines rules bindings ++ [⟨0, ""⟩])
  let bundle := bundle.write top [⟨0, "template:"⟩]
  let bundle ← bodies rules table top [] bundle templates
  let bundle := bundle.write top [⟨0, ""⟩, ⟨0, "configs:"⟩]
  let bundle ← entries rules table ⟨top, 2, 0⟩ [] bundle configs
  let fields := (templates.flatMap (·.2) ++ configs).filterMap Entry.field?
  Logged.noteAll ((unusedFixups rules fields).map fun fixup => .fixupUnused fixup.pattern.text)
  return bundle

/-- The lines of a stream on its own. -/
def fragment (rules : Rules) (table : TemplateTable) (stream : List Entry) :
    Logged (List String) := do
  let bundle ← entries rules table ⟨"fragment", 0, 0⟩ [] [⟨"fragment", []⟩] stream
  return (bundle.head?.map OutputDocument.lines).getD []

end Rendering
end BoardSchema
