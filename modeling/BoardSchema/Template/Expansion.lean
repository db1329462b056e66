import BoardSchema.Field.Builder
import BoardSchema.Layout.Basic
import BoardSchema.Template.Table
/-!
Expanding templates. A call puts its arguments into the lines of the template, which are then built
and laid out strictly; calls inside are expanded in turn. The templates whose expansion is under way
are known at every call, so a template that comes up inside itself is an error and expansion ends:
each nested call has one template less to go to.
-/
namespace BoardSchema

namespace Template

/-- The placeholder of the argument at an index, counted from zero. -/
def placeholder (index : Nat) : String := s!"$({index + 1})"

/-- Puts arguments into a text, the last argument first. A placeholder without an argument stays. -/
def substituteArgs (text : String) (args : List String) : String :=
  String.ofList (args.zipIdx.foldr
    (fun (arg, index) text => Text.replaceAll (placeholder index).toList arg.toList text) text.toList)

/-- The lines of a template with arguments put in. -/
def instantiate (template : Template) (args : List String) : List SourceLine :=
  template.body.map fun line => { line with text := substituteArgs line.text args }

end Template

namespace TemplateTable

variable (table : TemplateTable) (rules : Rules)

theorem name_of_get? {table : TemplateTable} {name : String} {template : Template}
    (h : table.get? name = some template) : name ∈ table.names := by
  have hm := List.mem_of_find?_eq_some h
  have hn : template.name = name := by simpa using List.find?_some h
  exact hn ▸ List.mem_map_of_mem hm

/-- The templates that a nested call can still go to. -/
def idle (names active : List String) : List String := names.filter fun name => name ∉ active

theorem length_idle_lt {names active : List String} {name : String} (hn : name ∈ names)
    (ha : name ∉ active) : (idle names (name :: active)).length < (idle names active).length := by
  have hs : idle names (name :: active) = (idle names active).filter fun other => other ≠ name := by
    simp [idle, List.filter_filter, List.mem_cons, not_or]
  rw [hs]
  apply List.length_filter_lt_length_iff_exists.2
  exact ⟨name, by simp [idle, hn, ha], by simp⟩

/-- The size of an expansion, which the call on this line needs. -/
def sizeOf (call : ExpandCall) (line : Nat) (layout : Layout) : Except CompileError Nat :=
  match layout.size with
  | some bytes => .ok bytes
  | none => .error (.unresolvedLength line call.template call.text)

/-- Expands a call inside the expansion of the `active` templates. -/
def expandIn (active : List String) (call : ExpandCall) (line : Nat) : Logged Layout :=
  match _hTemplate : table.get? call.template with
  | none => Logged.fail (.unknownTemplateReference line call.template)
  | some template =>
    if _hActive : call.template ∈ active then
      Logged.fail (.recursiveTemplate line call.template)
    else do
      let built ← Built.ofLines rules (template.instantiate call.args)
      let size (inner : ExpandCall) (line : Nat) : Logged Nat := do
        let layout ← expandIn (call.template :: active) inner line
        Logged.ofExcept (sizeOf inner line layout)
      let (layout, _) ← Layout.ofEntries rules (.strict size) { stem := rules.paddingPrefix }
        built.entries
      return layout
termination_by (idle table.names active).length
decreasing_by exact length_idle_lt (name_of_get? _hTemplate) _hActive

/-- Expands a call. -/
def expand (call : ExpandCall) (line : Nat) : Logged Layout := expandIn table rules [] call line

/-- The number of bytes that a call takes. -/
def expandedSize (call : ExpandCall) (line : Nat) : Logged Nat := do
  let layout ← expand table rules call line
  Logged.ofExcept (sizeOf call line layout)

end TemplateTable

/-- Lays a stream out without asking for sizes, as the body of a template is shown. -/
def Layout.ofBody (rules : Rules) (entries : List Entry) : Logged (List Entry) := do
  let (layout, _) ← Layout.ofEntries rules .lenient { stem := rules.paddingPrefix } entries
  return layout.entries

/-- The body of a template as it is written, with the problems that were passed over. -/
def Template.layoutBody (rules : Rules) (template : Template) : Logged Built := do
  let built ← Built.ofLines rules template.body
  let entries ← Layout.ofBody rules built.entries
  return { built with entries }

end BoardSchema
