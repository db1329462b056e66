import BoardSchema.Proofs.Compilation
import BoardSchema.Proofs.Field.Builder
import BoardSchema.Proofs.Layout.Lenient
import BoardSchema.Proofs.Template.Expansion
import Mathlib.Logic.Relation
/-!
The size that a template shows for a call. The body of a template is shown with lengths and calls
left open. With the arguments of a call filled in, its lengths add up to the size of the expansion,
less the padding that could not be shown, provided that the arguments only go to places that the
body leaves open.
-/
namespace BoardSchema

def ExpandCall.fill (args : List String) (call : ExpandCall) : ExpandCall :=
  ⟨Template.substituteArgs call.template args,
    call.args.map fun arg => Template.substituteArgs arg args⟩

def Length.fill (args : List String) : Length → Length
  | .fixed n => .fixed n
  | .symbolic text => .parse (Template.substituteArgs text args).toList

/-- Puts arguments into the call of a field, or into its length if there is no call. -/
def Field.fill (args : List String) (field : Field) : Field :=
  match field.expand with
  | some call => { field with expand := some (call.fill args) }
  | none => { field with length := field.length.fill args }

/-- What decides the place and the bytes of a field. -/
def Field.demand (field : Field) : Offset × Length × Option ExpandCall :=
  (field.declaredOffset, field.length, field.expand)

namespace TemplateTable

/-- The byte fields that lines are built into. -/
def placesOf (rules : Rules) (lines : List SourceLine) : Option (List Field) :=
  (Built.ofLines rules lines).outcome.toOption.map fun built => byteFields built.entries

/-- The calls in the lines of a template with the arguments of a call put in. -/
def callsOf (table : TemplateTable) (rules : Rules) (call : ExpandCall) : List ExpandCall :=
  match table.get? call.template with
  | none => []
  | some template =>
    ((placesOf rules (template.instantiate call.args)).getD []).filterMap Field.expand

/-- The arguments of a call only go to lengths and calls that its template leaves open. -/
def Fills (table : TemplateTable) (rules : Rules) (call : ExpandCall) : Prop :=
  ∀ template ∈ table.get? call.template,
    (placesOf rules (template.instantiate call.args)).map (·.map Field.demand) =
      (placesOf rules template.body).map (·.map fun field => (field.fill call.args).demand)

instance (table : TemplateTable) (rules : Rules) (call : ExpandCall) :
    Decidable (table.Fills rules call) :=
  inferInstanceAs (Decidable (∀ template ∈ table.get? call.template, _ = _))

/-- A call is reached from another one through calls in the lines that are put in. -/
def Reaches (table : TemplateTable) (rules : Rules) : ExpandCall → ExpandCall → Prop :=
  Relation.ReflTransGen fun call inner => inner ∈ table.callsOf rules call

end TemplateTable

/-! ## Sums -/

namespace Field

variable {shown given : Field} {args : List String}

end Field

namespace Layout

variable {sizing : Sizing} {start cursor : Option Nat} {cells : List Cell}

end Layout

namespace TemplateTable

variable {table : TemplateTable} {rules : Rules} {templates : List TemplateSchema}

/-- Each template of a table is shown by the lenient layout of its lines. -/
def ShownBy (table : TemplateTable) (rules : Rules) (templates : List TemplateSchema) : Prop :=
  ∀ name template, table.get? name = some template → ∃ schema shown names layout,
    templates.find? (·.name = name) = some schema ∧
    (Built.ofLines rules template.body).outcome = .ok shown ∧
    (Layout.ofEntries rules .lenient { stem := rules.paddingPrefix } shown.entries).outcome =
      .ok (layout, names) ∧ layout.entries = schema.fields

theorem placesOf_eq {lines : List SourceLine} {built : Built}
    (h : (Built.ofLines rules lines).outcome = .ok built) :
    placesOf rules lines = some (byteFields built.entries) := by
  rw [placesOf, h]
  rfl

/-- The fields of an instance are those of the template with the arguments put in. -/
theorem Fills.demands {call : ExpandCall} {template : Template} {shown given : Built}
    {cells cells' : List Layout.Cell} (fills : table.Fills rules call)
    (found : table.get? call.template = some template)
    (hshown : (Built.ofLines rules template.body).outcome = .ok shown)
    (hgiven : (Built.ofLines rules (template.instantiate call.args)).outcome = .ok given)
    (declared : byteFields shown.entries = cells.map (·.source))
    (declared' : byteFields given.entries = cells'.map (·.source)) :
    List.Forall₂ (fun cell cell' : Layout.Cell =>
      cell'.source.demand = (cell.source.fill call.args).demand) cells cells' := by
  have same := fills template found
  rw [placesOf_eq hshown, placesOf_eq hgiven, declared, declared'] at same
  have maps : (cells'.map (·.source)).map Field.demand =
      (cells.map (·.source)).map fun field => (field.fill call.args).demand := Option.some.inj same
  rw [List.map_map, List.map_map] at maps
  have pointwise : List.Forall₂ (· = ·)
      (cells.map ((fun field => (field.fill call.args).demand) ∘ fun cell => cell.source))
      (cells'.map (Field.demand ∘ fun cell => cell.source)) := by
    rw [List.forall₂_eq_eq_eq, maps]
  rw [List.forall₂_map_left_iff, List.forall₂_map_right_iff] at pointwise
  exact pointwise.imp fun _ _ h => h.symm

end TemplateTable

/-! ## Compilations -/

namespace Compilation

variable {rules : Rules} {table : TemplateTable}

end Compilation
end BoardSchema
