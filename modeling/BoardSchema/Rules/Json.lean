import BoardSchema.Error
import BoardSchema.Json.Reader
import BoardSchema.Rules.Basic
/-!
Rule documents. A record is an object, or a list of its values in order; a key that is missing takes
its default and a key that nobody knows is passed over. `toJson` writes the document that reads back
as the same rules.
-/
namespace BoardSchema

namespace Json

/-- The first value under a key. -/
def member? (key : String) (members : List (String × Json)) : Option Json :=
  (members.find? (·.1 = key)).map (·.2)

/-- No key of a list comes up twice among the members. -/
def unrepeated (keys : List String) (members : List (String × Json)) : Bool :=
  keys.all fun key => members.countP (·.1 = key) ≤ 1

/-- The values of a record under its keys, each of which may be missing. -/
def record? (keys : List String) : Json → Option (List (Option Json))
  | object members =>
    if unrepeated keys members then some (keys.map fun key => member? key members) else none
  | array items =>
    if items.length ≤ keys.length then
      some (items.map some ++ List.replicate (keys.length - items.length) none)
    else none
  | _ => none

def text? : Json → Option String
  | string text => some text
  | _ => none

def bool? : Json → Option Bool
  | bool value => some value
  | _ => none

/-- All items of a list, each read in the same way. -/
def list? {α : Type} (item? : Json → Option α) : Json → Option (List α)
  | array items => items.mapM item?
  | _ => none

/-- A value, or its default where it is missing. -/
def orDefault {α : Type} (default : α) (read? : Json → Option α) : Option Json → Option α
  | none => some default
  | some value => read? value

end Json

namespace Substitution

def keys : List String := ["from", "to", "whole_word"]

def toJson (rule : Substitution) : Json :=
  .object [("from", .string rule.source), ("to", .string rule.replacement),
    ("whole_word", .bool rule.wholeWord)]

def ofJson? (json : Json) : Option Substitution :=
  match Json.record? keys json with
  | some [some source, some replacement, wholeWord] => do
    return ⟨← source.text?, ← replacement.text?, ← Json.orDefault false Json.bool? wholeWord⟩
  | _ => none

end Substitution

namespace HeaderRule

def keys : List String := ["struct_prefix", "template", "sentinel"]

def toJson (rule : HeaderRule) : Json :=
  .object [("struct_prefix", .string rule.structPrefix), ("template", .string rule.template),
    ("sentinel", .string rule.sentinel)]

def ofJson? (json : Json) : Option HeaderRule :=
  match Json.record? keys json with
  | some [some structPrefix, some template, some sentinel] => do
    return ⟨← structPrefix.text?, ← template.text?, ← sentinel.text?⟩
  | _ => none

end HeaderRule

namespace NamePattern

def keys : List String := ["kind", "text"]

def toJson : NamePattern → Json
  | exact name => .object [("kind", .string "Exact"), ("text", .string name)]
  | startsWith start => .object [("kind", .string "Prefix"), ("text", .string start)]

/-- The pattern of a kind. -/
def ofKind? (kind : String) (text : Json) : Option NamePattern :=
  match kind with
  | "Exact" => text.text?.map exact
  | "Prefix" => text.text?.map startsWith
  | _ => none

/-- The kind under its key: its name, or an object with nothing under its name. -/
def kind? : Json → Option String
  | .string kind => some kind
  | .object [(kind, .null)] => some kind
  | _ => none

/-- In a list the kind is always a name. -/
def ofJson? (json : Json) : Option NamePattern :=
  match json, Json.record? keys json with
  | .array _, some [some kind, some text] => do ofKind? (← kind.text?) text
  | _, some [some kind, some text] => do ofKind? (← kind? kind) text
  | _, _ => none

end NamePattern

namespace Fixup

/-- How deep the values of a fixup may nest. -/
def depthLimit : Nat := 124

def toJson (fixup : Fixup) : Json :=
  .object [("pattern", fixup.pattern.toJson), ("action", .string "AdjustLength"),
    ("delta", .integer fixup.delta)]

/-- The only action, by name or by number. -/
def isAdjustLength : Json → Bool
  | .string name => name = "AdjustLength"
  | .integer number => number = 0
  | _ => false

/-- A signed number of 64 bits. -/
def delta? : Json → Option Int
  | .integer delta => if -0x8000000000000000 ≤ delta ∧ delta < 0x8000000000000000 then some delta else none
  | _ => none

/-- A fixup is always an object, and all its values have to stand for something. -/
def ofJson? : Json → Option Fixup
  | .object members => do
    let others := members.filter (·.1 ≠ "pattern")
    if Json.unrepeated ["pattern", "action", "delta"] members &&
        Json.membersFit depthLimit others then
      let pattern ← NamePattern.ofJson? (← Json.member? "pattern" members)
      let delta ← delta? (← Json.member? "delta" members)
      if isAdjustLength (← Json.member? "action" members) then return ⟨pattern, delta⟩
      else none
    else none
  | _ => none

end Fixup

namespace Rules

def keys : List String :=
  ["emit_all", "substitutions", "header_rules", "fixups", "padding_prefix", "bit_group_tag",
    "boilerplate"]

/-- The values of the keys in their order. -/
def values (rules : Rules) : List Json :=
  [.bool rules.emitAll, .array (rules.substitutions.map Substitution.toJson),
    .array (rules.headerRules.map HeaderRule.toJson), .array (rules.fixups.map Fixup.toJson),
    .string rules.paddingPrefix, .string rules.bitGroupTag, .string rules.boilerplate]

def toJson (rules : Rules) : Json := .object (keys.zip rules.values)

def ofJson? (json : Json) : Option Rules :=
  let default : Rules := {}
  match Json.record? keys json with
  | some [emitAll, substitutions, headerRules, fixups, paddingPrefix, bitGroupTag, boilerplate] => do
    return {
      emitAll := ← Json.orDefault default.emitAll Json.bool? emitAll
      substitutions := ← Json.orDefault default.substitutions (Json.list? Substitution.ofJson?)
        substitutions
      headerRules := ← Json.orDefault default.headerRules (Json.list? HeaderRule.ofJson?) headerRules
      fixups := ← Json.orDefault default.fixups (Json.list? Fixup.ofJson?) fixups
      paddingPrefix := ← Json.orDefault default.paddingPrefix Json.text? paddingPrefix
      bitGroupTag := ← Json.orDefault default.bitGroupTag Json.text? bitGroupTag
      boilerplate := ← Json.orDefault default.boilerplate Json.text? boilerplate }
  | _ => none

/-- Reads a rule document. -/
def ofText (text : String) : Except CompileError Rules :=
  match (Json.parse? text).bind ofJson? with
  | some rules => .ok rules
  | none => .error .invalidRules

end Rules
end BoardSchema
