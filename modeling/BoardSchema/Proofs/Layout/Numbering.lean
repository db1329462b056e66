import BoardSchema.Layout.Basic
import BoardSchema.Proofs.Source.Numbering
/-!
Numbering the lines of a stream anew. It is laid out as before, with the other numbers: the line of
a field is handed on to what is made of it, and nothing else is done with it.
-/
namespace BoardSchema

def Layout.renumber (number : Nat → Nat) (layout : Layout) : Layout :=
  { layout with entries := layout.entries.map (·.renumber number) }

/-- The sizes of expansions are the same whatever the numbers of lines are. -/
inductive Sizing.Renumbered (number : Nat → Nat) : Sizing → Sizing → Prop
  | strict {size size' : ExpandCall → Nat → Logged Nat}
      (same : ∀ call line, size' call (number line) = (size call line).renumber number id) :
      Renumbered number (.strict size) (.strict size')
  | lenient : Renumbered number .lenient .lenient

namespace Layout

def Scope.renumber (number : Nat → Nat) (scope : Scope) : Scope where
  opening := scope.opening.renumber number
  hoists := scope.hoists
  front := scope.front.map (·.renumber number)
  body := scope.body.map (·.renumber number)

def State.renumber (number : Nat → Nat) (state : State) : State :=
  { state with
    root := state.root.map (·.renumber number)
    scopes := state.scopes.map (·.renumber number)
    lastLine := number state.lastLine }

variable {number : Nat → Nat} {sizing sizing' : Sizing}

/-! ## States -/

theorem current_renumber (state : State) :
    (state.renumber number).current = state.current.map (·.renumber number) := by
  obtain ⟨_, _, _, scopes, _, _, _⟩ := state
  cases scopes <;> rfl

theorem withCurrent_renumber (state : State) (entries : List Entry) :
    (state.renumber number).withCurrent (entries.map (·.renumber number)) =
      (state.withCurrent entries).renumber number := by
  obtain ⟨_, _, _, scopes, _, _, _⟩ := state
  cases scopes <;> rfl

theorem push_renumber (state : State) (entries : List Entry) :
    (state.renumber number).push (entries.map (·.renumber number)) =
      (state.push entries).renumber number := by
  rw [State.push, State.push, current_renumber, ← List.map_append, withCurrent_renumber]

theorem replaceLast_renumber (state : State) (entries : List Entry) :
    (state.renumber number).replaceLast (entries.map (·.renumber number)) =
      (state.replaceLast entries).renumber number := by
  rw [State.replaceLast, State.replaceLast, current_renumber, ← List.map_dropLast,
    ← List.map_append, withCurrent_renumber]

/-! ## Byte fields -/

theorem pad_renumber (cursor gap line : Nat) (state : State) :
    pad cursor gap (number line) (state.renumber number) =
      (pad cursor gap line state).renumber number :=
  push_renumber { state with names := state.names.take.2 }
    [.field (paddingField state.names.take.1 cursor gap line)]

theorem seek_renumber (field : Field) (state : State) :
    seek (field.renumber number) (state.renumber number) =
      renumberOutcome number (·.renumber number) (seek field state) := by
  have declared : (field.renumber number).declaredOffset = field.declaredOffset := rfl
  have known : (state.renumber number).cursor = state.cursor := rfl
  unfold seek
  rw [declared, known]
  split
  · rfl
  · rfl
  · next offset cursor _ _ =>
    split
    · rfl
    · split
      · have padded : pad cursor (offset - cursor) (field.renumber number).line
            (state.renumber number) =
              (pad cursor (offset - cursor) field.line state).renumber number := pad_renumber ..
        rw [padded]
        rfl
      · rfl

theorem extent_renumber (same : Sizing.Renumbered number sizing sizing') (field : Field) :
    extent sizing' (field.renumber number) = (extent sizing field).renumber number id := by
  have call : (field.renumber number).expand = field.expand := rfl
  have length : (field.renumber number).length = field.length := rfl
  unfold extent
  rw [call, length]
  cases same with
  | lenient => cases field.expand <;> rfl
  | strict same =>
    cases field.expand with
    | none => cases field.length <;> rfl
    | some call =>
      exact Logged.renumber_bind (same call field.line) fun bytes => rfl

theorem advance_renumber (field : Field) (cursor bytes : Option Nat) :
    advance (field.renumber number) cursor bytes =
      renumberOutcome number id (advance field cursor bytes) := by
  unfold advance
  split
  · split <;> rfl
  · rfl

theorem place_renumber (same : Sizing.Renumbered number sizing sizing') (field : Field)
    (state : State) : place sizing' (field.renumber number) (state.renumber number) =
      (place sizing field state).renumber number (·.renumber number) := by
  have sought : Logged.ofExcept (seek (field.renumber number) (state.renumber number)) =
      (Logged.ofExcept (seek field state)).renumber number (·.renumber number) := by
    rw [seek_renumber]
    rfl
  refine Logged.renumber_bind sought fun state => ?_
  refine Logged.renumber_bind (extent_renumber same field) fun ⟨length, bytes⟩ => ?_
  have advanced : Logged.ofExcept (advance (field.renumber number) state.cursor bytes) =
      (Logged.ofExcept (advance field state.cursor bytes)).renumber number id := by
    rw [advance_renumber]
    rfl
  refine Logged.renumber_bind advanced fun cursor => ?_
  exact congrArg pure (push_renumber { state with cursor }
    [.field { field with offset := state.cursor, length }])

/-! ## Bit members -/

/-- The line of the last entry is only asked for where there is one, unless lines count from 0. -/
theorem closeGroup_renumber (zero : number 0 = 0) (state : State) :
    closeGroup (state.renumber number) = (closeGroup state).renumber number := by
  have group : (state.renumber number).group = state.group := rfl
  unfold closeGroup
  rw [group]
  split
  · rfl
  · next found =>
    have line : ((((state.renumber number).current.getLast?.bind Entry.field?).map
        Field.line).getD 0) =
          number (((state.current.getLast?.bind Entry.field?).map Field.line).getD 0) := by
      rw [current_renumber, List.getLast?_map]
      cases state.current.getLast? with
      | none => exact zero.symm
      | some entry =>
        cases entry with
        | field => rfl
        | includeOpen => exact zero.symm
        | includeClose => exact zero.symm
    rw [line]
    exact push_renumber { state with group := none } [.field (groupClosing ..)]

theorem container?_renumber (entry : Option Entry) :
    container? (entry.map (·.renumber number)) =
      (container? entry).map fun (field, bytes) => (field.renumber number, bytes) := by
  cases entry with
  | none => rfl
  | some entry =>
    cases entry with
    | includeOpen => rfl
    | includeClose => rfl
    | field field =>
      have plain : (field.renumber number).isPlain = field.isPlain := rfl
      have length : (field.renumber number).length = field.length := rfl
      simp only [Option.map_some, Entry.renumber, container?, plain, length]
      split
      · cases field.length <;> rfl
      · rfl

theorem openGroup_renumber (rules : Rules) (member : Field) (state : State) :
    openGroup rules (member.renumber number) (state.renumber number) =
      renumberOutcome number (fun (state, group) => (state.renumber number, group))
        (openGroup rules member state) := by
  unfold openGroup
  rw [current_renumber, List.getLast?_map, container?_renumber]
  cases container? state.current.getLast? with
  | none => rfl
  | some found =>
    obtain ⟨container, bytes⟩ := found
    simp only [Option.map_some]
    split
    · rfl
    · exact congrArg (fun state => Except.ok (state, BitGroup.ofContainer container bytes))
        (replaceLast_renumber state
          [.field (containerOpening container), .field (containerMarker rules container)])

theorem packMember_renumber (member : Field) (group : BitGroup) :
    packMember (member.renumber number) group =
      renumberOutcome number (fun (member, group) => (member.renumber number, group))
        (packMember member group) := by
  have length : (member.renumber number).length = member.length := rfl
  simp only [packMember, length]
  split
  · split
    · rfl
    · split
      · rfl
      · split <;> rfl
  · rfl

theorem bitMember_renumber (rules : Rules) (member : Field) (state : State) :
    bitMember rules (member.renumber number) (state.renumber number) =
      renumberOutcome number (·.renumber number) (bitMember rules member state) := by
  have group : (state.renumber number).group = state.group := rfl
  have packed (state : State) (group : BitGroup) :
      (packMember (member.renumber number) group >>= fun (member, group) =>
        pure ({ state.renumber number with group := some group }.push [.field member])) =
      renumberOutcome number (·.renumber number) (packMember member group >>=
        fun (member, group) => pure ({ state with group := some group }.push [.field member])) := by
    refine renumberOutcome_bind (packMember_renumber member group) fun ⟨member, group⟩ => ?_
    exact congrArg pure (push_renumber { state with group := some group } [.field member])
  unfold bitMember
  rw [group]
  cases state.group with
  | some group => exact packed state group
  | none =>
    exact renumberOutcome_bind (openGroup_renumber rules member state)
      fun (state, group) => packed state group

/-! ## Structures and runs -/

theorem atOpening_renumber (entries : List Entry) :
    atOpening (entries.map (·.renumber number)) = atOpening entries := by
  match entries with
  | [] => rfl
  | [entry] => cases entry <;> rfl
  | first :: _ :: _ => cases first <;> rfl

theorem openStruct_renumber (rules : Rules) (field : Field) (state : State) :
    openStruct rules (field.renumber number) (state.renumber number) =
      (openStruct rules field state).renumber number := by
  obtain ⟨_, _, _, scopes, _, _, _⟩ := state
  cases scopes with
  | nil => rfl
  | cons scope outer =>
    have opening : atOpening (scope.renumber number).body = atOpening scope.body :=
      atOpening_renumber scope.body
    change (if ((rules.headerForStruct? field.name).isSome &&
        atOpening (scope.renumber number).body) = true then _ else _) = State.renumber number
      (if ((rules.headerForStruct? field.name).isSome && atOpening scope.body) = true then _ else _)
    rw [opening]
    split <;> rfl

theorem closeStruct_renumber (field : Field) (state : State) :
    closeStruct (field.renumber number) (state.renumber number) =
      renumberOutcome number (·.renumber number) (closeStruct field state) := by
  obtain ⟨names, cursor, root, scopes, includes, group, lastLine⟩ := state
  cases scopes with
  | nil => rfl
  | cons scope outer =>
    obtain ⟨opening, hoists, front, body⟩ := scope
    have named : (opening.renumber number).name = opening.name := rfl
    have named' : (field.renumber number).name = field.name := rfl
    change (if (opening.renumber number).name = (field.renumber number).name then _ else _) =
      renumberOutcome number _ (if opening.name = field.name then _ else _)
    rw [named, named']
    split
    · let closing : Field := { field with offset := cursor }
      let block : List Entry := .field opening :: body ++ [Entry.field closing]
      have block_eq : block.map (·.renumber number) = .field (opening.renumber number) ::
          body.map (·.renumber number) ++ [Entry.field (closing.renumber number)] := by
        simp [block]
      have pushed : (State.renumber number
            ⟨names, cursor, root, outer, includes, group, lastLine⟩).push
          (front.map (·.renumber number) ++ block.map (·.renumber number)) =
            (State.push ⟨names, cursor, root, outer, includes, group, lastLine⟩
              (front ++ block)).renumber number := by
        rw [← List.map_append, push_renumber]
      rw [block_eq] at pushed
      cases outer with
      | nil => cases hoists <;> exact congrArg Except.ok pushed
      | cons around rest =>
        cases hoists with
        | false => exact congrArg Except.ok pushed
        | true =>
          have moved : Scope.renumber number
              { around with front := around.front ++ block, body := around.body ++ front } =
            { around.renumber number with
              front := around.front.map (·.renumber number) ++
                (.field (opening.renumber number) :: body.map (·.renumber number) ++
                  [Entry.field (closing.renumber number)])
              body := around.body.map (·.renumber number) ++ front.map (·.renumber number) } := by
            simp [Scope.renumber, block]
          exact congrArg (fun scope : Scope => Except.ok (State.mk names cursor
            (root.map (·.renumber number)) (scope :: rest.map (·.renumber number)) includes group
            (number lastLine))) moved.symm
    · rfl

theorem addField_renumber (same : Sizing.Renumbered number sizing sizing') (zero : number 0 = 0)
    (rules : Rules) (field : Field) (state : State) :
    addField rules sizing' (field.renumber number) (state.renumber number) =
      (addField rules sizing field state).renumber number (·.renumber number) := by
  have seen : ({ state.renumber number with lastLine := (field.renumber number).line } : State) =
      ({ state with lastLine := field.line } : State).renumber number := rfl
  have role : (field.renumber number).role = field.role := rfl
  unfold addField
  rw [seen, role]
  simp only [closeGroup_renumber zero]
  cases field.role with
  | bitField => exact congrArg Logged.ofExcept (bitMember_renumber ..)
  | structOpen => exact congrArg pure (openStruct_renumber ..)
  | structClose => exact congrArg Logged.ofExcept (closeStruct_renumber ..)
  | action =>
    generalize closeGroup { state with lastLine := field.line } = state
    exact congrArg pure (push_renumber state
      [.field { field with role := .action, offset := state.cursor }])
  | plain => exact place_renumber same field _
  | padding => exact place_renumber same field _

theorem step_renumber (same : Sizing.Renumbered number sizing sizing') (zero : number 0 = 0)
    (rules : Rules) (state : State) (entry : Entry) :
    step rules sizing' (state.renumber number) (entry.renumber number) =
      (step rules sizing state entry).renumber number (·.renumber number) := by
  cases entry with
  | field field => exact addField_renumber same zero rules field state
  | includeOpen path =>
    simp only [Entry.renumber, step, closeGroup_renumber zero]
    generalize closeGroup state = state
    exact congrArg pure (push_renumber { state with includes := state.includes + 1 }
      [.includeOpen path])
  | includeClose =>
    simp only [Entry.renumber, step, closeGroup_renumber zero]
    generalize closeGroup state = state
    have includes : (state.renumber number).includes = state.includes := rfl
    rw [includes]
    split
    · rfl
    · exact congrArg pure (push_renumber { state with includes := state.includes - 1 }
        [.includeClose])

theorem run_renumber (same : Sizing.Renumbered number sizing sizing') (zero : number 0 = 0)
    (rules : Rules) (state : State) (entries : List Entry) :
    run rules sizing' (state.renumber number) (entries.map (·.renumber number)) =
      (run rules sizing state entries).renumber number (·.renumber number) := by
  induction entries generalizing state with
  | nil => rfl
  | cons entry rest ih => exact Logged.renumber_bind (step_renumber same zero rules state entry) ih

theorem finish_renumber (zero : number 0 = 0) (state : State) :
    finish (state.renumber number) =
      renumberOutcome number (fun (layout, names) => (layout.renumber number, names))
        (finish state) := by
  unfold finish
  rw [closeGroup_renumber zero]
  obtain ⟨_, _, _, scopes, _, _, _⟩ := closeGroup state
  cases scopes <;> rfl

theorem ofEntries_renumber (same : Sizing.Renumbered number sizing sizing') (zero : number 0 = 0)
    (rules : Rules) (names : NamePool) (entries : List Entry) :
    ofEntries rules sizing' names (entries.map (·.renumber number)) =
      (ofEntries rules sizing names entries).renumber number
        fun (layout, names) => (layout.renumber number, names) := by
  have start : ({ names } : State).renumber number = { names } := by
    rw [State.renumber, zero]
    rfl
  have ran := run_renumber same zero rules { names } entries
  rw [start] at ran
  refine Logged.renumber_bind ran fun state => ?_
  rw [finish_renumber zero]
  rfl

end Layout
end BoardSchema
