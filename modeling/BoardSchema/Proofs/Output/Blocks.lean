import BoardSchema.Output.FieldText
import BoardSchema.Proofs.Field.Unbroken
import BoardSchema.Proofs.Rules.Lines
/-!
How metadata is shown. A key with one text has it beside it. Texts that go on with the one in front of
them stand in a block below their key, each on a line of its own.
-/
namespace BoardSchema
open Builder

/-- What is shown of a text under a key. -/
def MetaKey.shown (rules : Rules) (key : MetaKey) (text : String) : String :=
  if key = .choices ∨ key = .condition then rules.substitute text else text

/-- The lines of a key with texts below each other. -/
def blockLines (indent : Nat) (label : String) : List String → List OutputLine
  | [] => []
  | [text] => [⟨indent + 4, Text.padRight keyWidth label ++ " : " ++ text⟩]
  | first :: second :: rest => ⟨indent + 4, Text.padRight keyWidth label ++ " : >"⟩ ::
      (Text.below (first :: second :: rest)).map fun text => ⟨indent + 6, text⟩

/-- The lines of the metadata that waits behind inputs, key after key. -/
def Builder.blocks (rules : Rules) (indent : Nat) (inputs : List Input) : List OutputLine :=
  MetaKey.all.flatMap fun key =>
    blockLines indent key.label ((waitingTexts inputs key).map (key.shown rules))

variable {rules : Rules} {texts : List String} {inputs : List Input}

theorem Field.keyLines_intercalate (indent : Nat) (label : String) (some_text : texts ≠ [])
    (each : ∀ text ∈ texts, OneLine text) :
    (keyLines label ("\n".intercalate texts)).map (OutputLine.shift indent) =
      blockLines indent label texts := by
  match texts, some_text, each with
  | [text], _, each =>
    have one : '\n' ∉ text.toList := each text List.mem_cons_self
    simp [keyLines, one, OutputLine.shift, blockLines]
  | first :: second :: rest, _, each =>
    have several : '\n' ∈ ("\n".intercalate (first :: second :: rest)).toList := by
      rw [String.intercalate_cons_of_ne_nil (List.cons_ne_nil _ _)]
      simp
    have below (text : List Char) :
        (Text.lines text).map (fun line => OutputLine.shift indent ⟨6, String.ofList line⟩) =
          ((Text.lines text).map String.ofList).map fun text => ⟨indent + 6, text⟩ := by
      rw [List.map_map]
      rfl
    rw [keyLines, if_pos several, List.map_cons, List.map_map, blockLines]
    refine congrArg₂ List.cons ?_ ((below _).trans (by rw [Text.lines_intercalate each]))
    rw [OutputLine.shift, String.append_assoc]
    rfl

theorem MetaKey.oneLine_shown (unbroken : rules.Unbroken) (key : MetaKey) {text : String}
    (one : OneLine text) : OneLine (key.shown rules text) := by
  unfold shown
  split
  · exact unbroken.oneLine_substitute one
  · exact one

theorem MetaKey.shown_intercalate (unbroken : rules.Unbroken) (key : MetaKey)
    (texts : List String) : key.shown rules ("\n".intercalate texts) =
      "\n".intercalate (texts.map (key.shown rules)) := by
  by_cases replaced : key = .choices ∨ key = .condition
  · have same : key.shown rules = rules.substitute := funext fun _ => if_pos replaced
    rw [same, unbroken.substitute_intercalate]
  · have same : key.shown rules = id := funext fun _ => if_neg replaced
    rw [same, List.map_id]
    rfl

/-- Every text that waits is shown on a line of its own. -/
theorem Field.metadataLines_waiting (unbroken : rules.Unbroken)
    (one : ∀ input ∈ inputs, input.Unbroken) (indent : Nat) :
    (metadataLines rules (waiting inputs)).map (OutputLine.shift indent) =
      blocks rules indent inputs := by
  have by_keys (metadata : Metadata) : metadataLines rules metadata =
      MetaKey.all.flatMap fun key =>
        (metadata.get key).toList.flatMap fun text => keyLines key.label (key.shown rules text) := by
    rw [metadataLines, Metadata.entries, List.filterMap_eq_flatMap_toList, List.flatMap_assoc]
    refine List.flatMap_congr fun key _ => ?_
    cases metadata.get key <;> rfl
  rw [by_keys, List.map_flatMap, blocks]
  refine List.flatMap_congr fun key _ => ?_
  rw [waiting, Metadata.get_ofTexts, waitingText_eq]
  have each := oneLine_waitingTexts one key
  generalize waitingTexts inputs key = texts at each
  by_cases nothing : texts = []
  · subst nothing
    rfl
  · simp only [joined?, if_neg nothing, Option.toList_some, List.flatMap_singleton,
      MetaKey.shown_intercalate unbroken]
    refine keyLines_intercalate indent key.label (by simpa using nothing) ?_
    exact List.forall_mem_map.2 fun text mem => key.oneLine_shown unbroken (each text mem)

end BoardSchema
