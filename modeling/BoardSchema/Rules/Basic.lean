import BoardSchema.Rules.Substitution
/-!
The rules of a compilation, with the defaults that hold where nothing else is said.
-/
namespace BoardSchema

/-- Structures that carry the header of the structure around them. -/
structure HeaderRule where
  /-- Names of header structures start with this. -/
  structPrefix : String
  /-- The template that is expanded for the header. -/
  template : String
  /-- The argument that stands for the tag of the structure around it. -/
  sentinel : String
  deriving DecidableEq, Repr

inductive NamePattern where
  | exact (name : String)
  | startsWith (start : String)
  deriving DecidableEq, Repr

namespace NamePattern

def Matches (pattern : NamePattern) (name : String) : Prop :=
  match pattern with
  | exact full => name = full
  | startsWith start => start.toList <+: name.toList

instance (pattern : NamePattern) (name : String) : Decidable (pattern.Matches name) := by
  cases pattern <;> unfold Matches <;> infer_instance

/-- How a pattern is shown. -/
def text : NamePattern → String
  | exact full => full
  | startsWith start => start ++ "*"

end NamePattern

/-- A correction of the rendered length of the fields that a pattern matches. -/
structure Fixup where
  pattern : NamePattern
  delta : Int
  deriving DecidableEq, Repr

structure Rules where
  /-- Write one document per include target. -/
  emitAll : Bool := false
  substitutions : List Substitution := [
    ⟨"gCfgData.", "", false⟩,
    ⟨"TRUE", "1", true⟩,
    ⟨"FALSE", "0", true⟩]
  headerRules : List HeaderRule := [⟨"CFGHDR", "CFGHDR_TMPL", "TAG"⟩]
  fixups : List Fixup := []
  /-- How names of padding start. -/
  paddingPrefix : String := "UnusedUpdSpace"
  /-- The name of the field that keeps the attributes of a bit container. -/
  bitGroupTag : String := "$STRUCT"
  /-- The text at the top of every document. -/
  boilerplate : String :=
    "## @file\n#\n#  CFGDATA option file.\n#\n#  SPDX-License-Identifier: BSD-2-Clause-Patent\n#\n##"
  deriving DecidableEq, Repr

namespace Rules

def substitute (rules : Rules) (text : String) : String :=
  Substitution.applyAll rules.substitutions text

/-- The first rule for a template. -/
def headerForTemplate? (rules : Rules) (template : String) : Option HeaderRule :=
  rules.headerRules.find? (·.template = template)

/-- The first rule whose prefix a structure's name starts with. -/
def headerForStruct? (rules : Rules) (name : String) : Option HeaderRule :=
  rules.headerRules.find? (·.structPrefix.toList.isPrefixOf name.toList)

end Rules
end BoardSchema
