import BoardSchema.Proofs.Output.Lengths
import BoardSchema.Proofs.Output.Satellites
import BoardSchema.Proofs.Template.Leaves
import BoardSchema.Proofs.Text.OneLine
/-!
Indentation shows nesting. In a stream that was laid out, each field stands two columns to the right
for every structure and container that is open around it, with its keys four columns and the texts
below them six columns further to the right. The renderer counts what is open, and its count never
stands at zero where a structure ends.
-/
namespace BoardSchema

/-- The lines of a key: a text stands beside it, or below it if it has several lines. -/
inductive ShowsKey (indent : Nat) (key : String) : List OutputLine → Prop where
  | beside (text : String) (one : '\n' ∉ text.toList) :
      ShowsKey indent key [⟨indent + 4, Text.padRight keyWidth key ++ " : " ++ text⟩]
  | below (texts : List String) (each : ∀ text ∈ texts, '\n' ∉ text.toList) :
      ShowsKey indent key (⟨indent + 4, Text.padRight keyWidth key ++ " : " ++ ">"⟩ ::
        texts.map fun text => ⟨indent + 6, text⟩)

/-- The keys that a field is shown with. -/
def Field.keys (field : Field) : List String :=
  field.metadata.entries.map (·.1.label) ++
    (if field.role ∈ [.plain, .padding, .bitField] then ["length"] else []) ++
    if field.value.isSome then ["value"] else []

/-- The lines of a field. A call is one line and the end of a structure is none; every other field
has its keys below its name. -/
inductive Shows (indent : Nat) (field : Field) : List OutputLine → Prop where
  | call {call : ExpandCall} (role : field.role = .plain) (expand : field.expand = some call) :
      Shows indent field [⟨indent, "- !expand \x7b " ++ call.text ++ " \x7d"⟩]
  | close (role : field.role = .structClose) : Shows indent field []
  | keys {blocks : List (List OutputLine)} (no_call : field.expand = none)
      (stays : field.role ≠ .structClose)
      (keys : List.Forall₂ (ShowsKey indent) field.keys blocks) :
      Shows indent field (⟨indent, "- " ++ field.name ++ " :"⟩ :: blocks.flatten)

namespace Field

variable {rules : Rules} {table : TemplateTable} {field : Field}

/-- The texts behind the keys of a field. -/
theorem exists_keyTexts (no_call : field.expand = none) (stays : field.role ≠ .structClose) :
    ∃ texts : List (String × String), texts.map Prod.fst = field.keys ∧
      (field.lines rules table).outcome = .ok (⟨0, "- " ++ field.name ++ " :"⟩ ::
        texts.flatMap fun shown => keyLines shown.1 shown.2) := by
  obtain ⟨length, lengthText, takes_room⟩ := exists_lengthText? rules field
  obtain ⟨value, valueText, shown⟩ := exists_valueText (length.bind (·.2)) field.value
  have value_shown : field.value.isSome = value.isSome := by
    revert shown
    generalize field.value = declared
    rintro (_ | _) <;> rfl
  refine ⟨(field.metadata.entries.map fun entry => (entry.1.label,
      if entry.1 = .choices ∨ entry.1 = .condition then rules.substitute entry.2 else entry.2)) ++
    (length.toList.map fun taken => ("length", taken.1)) ++
    value.toList.map fun text => ("value", text), ?_, ?_⟩
  · simp only [keys, ← takes_room, value_shown]
    cases length <;> cases value <;> simp
  · rw [lines_eq no_call stays lengthText valueText]
    simp [metadataLines, List.flatMap_map]

end Field

/-! ## Streams -/

namespace Rendering

variable {rules : Rules} {table : TemplateTable}

/-- The frame behind the entries of a stream that stays in its document. -/
def Frame.behind (frame : Frame) : List Entry → Frame
  | [] => frame
  | .field field :: rest => (frame.after field).behind rest
  | .includeOpen _ :: rest => frame.behind rest
  | .includeClose :: rest => frame.behind rest

end Rendering
end BoardSchema
