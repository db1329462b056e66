import BoardSchema.Compilation
import BoardSchema.Json.Printer
/-!
The schema as a JSON document.
-/
namespace BoardSchema

namespace Json

def natural (n : Nat) : Json := .integer n

/-- A value that may be missing. -/
def optional {α : Type} (toJson : α → Json) : Option α → Json
  | some a => toJson a
  | none => .null

end Json

def Offset.toJson : Offset → Json
  | .auto => .string "Auto"
  | .fixed offset => .object [("At", .natural offset)]

def Length.toJson : Length → Json
  | .fixed length => .object [("Fixed", .natural length)]
  | .symbolic text => .object [("Symbolic", .string text)]

def Role.label : Role → String
  | .plain => "Plain"
  | .bitField => "BitField"
  | .structOpen => "StructOpen"
  | .structClose => "StructClose"
  | .padding => "Padding"
  | .action => "Action"

def Metadata.toJson (metadata : Metadata) : Json :=
  .object (MetaKey.all.map fun key => (key.label, .optional .string (metadata.get key)))

def ExpandCall.toJson (call : ExpandCall) : Json :=
  .object [("template", .string call.template), ("args", .array (call.args.map .string))]

def Field.toJson (field : Field) : Json :=
  .object [
    ("cname", .string field.name),
    ("role", .string field.role.label),
    ("declared_offset", field.declaredOffset.toJson),
    ("offset", .optional .natural field.offset),
    ("length", field.length.toJson),
    ("value", .optional .string field.value),
    ("meta", field.metadata.toJson),
    ("expand", .optional ExpandCall.toJson field.expand),
    ("tag", .optional .natural field.tag),
    ("bit_offset", .optional .natural field.bitOffset),
    ("line", .natural field.line)]

def Entry.toJson : Entry → Json
  | .field declared => .object [("Field", declared.toJson)]
  | .includeOpen path => .object [("IncludeOpen", .string path)]
  | .includeClose => .string "IncludeClose"

def Binding.toJson (binding : Binding) : Json :=
  .object [("name", .string binding.name), ("value", .string binding.value)]

def TemplateSchema.toJson (template : TemplateSchema) : Json :=
  .object [
    ("name", .string template.name),
    ("file", .string template.file),
    ("fields", .array (template.fields.map Entry.toJson))]

def Schema.toJson (schema : Schema) : Json :=
  .object [
    ("size", .optional .natural schema.size),
    ("variables", .array (schema.bindings.map Binding.toJson)),
    ("templates", .array (schema.templates.map TemplateSchema.toJson)),
    ("configs", .array (schema.configs.map Entry.toJson))]

end BoardSchema
