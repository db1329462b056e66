import BoardSchema.Layout.Basic
/-!
What can stop a layout, function by function. An error names the field at which it comes up, unless
it is what the size of an expansion fails with.
-/
namespace BoardSchema.Layout

/-- What can be wrong with a field. -/
inductive FieldFault (field : Field) : CompileError → Prop
  | malformed (detail : String) : FieldFault field (.malformedField field.line detail)
  | regression (offset cursor : Nat) :
      FieldFault field (.offsetRegression field.line field.name offset cursor)
  | unresolved (text : String) :
      FieldFault field (.unresolvedLength field.line field.name text)
  | overflow (last bits : Nat) :
      FieldFault field (.bitFieldOverflow field.line field.name last bits)
  | unbalanced : FieldFault field (.unbalancedStruct field.line field.name)

/-- What can stop a layout at an entry behind that line. -/
inductive Faults (sizing : Sizing) (lastLine : Nat) : Entry → CompileError → Prop
  | field {field : Field} {error : CompileError} (fault : FieldFault field error) :
      Faults sizing lastLine (.field field) error
  | size {field : Field} {size : ExpandCall → Nat → Logged Nat} {call : ExpandCall}
      {error : CompileError} (strict : sizing = .strict size) (expand : field.expand = some call)
      (failed : (size call field.line).outcome = .error error) :
      Faults sizing lastLine (.field field) error
  | includeClose : Faults sizing lastLine .includeClose (.unbalancedInclude lastLine)

variable {rules : Rules} {sizing : Sizing} {state : State} {error : CompileError}

/-! ## Byte fields -/

/-- An offset behind the cursor is the one thing that a layout does not get to. -/
theorem seek_eq_error_iff {field : Field} :
    seek field state = .error error ↔ ∃ offset cursor, field.declaredOffset = .fixed offset ∧
      state.cursor = some cursor ∧ offset < cursor ∧
        error = .offsetRegression field.line field.name offset cursor := by
  constructor
  · intro h
    unfold seek at h
    split at h
    · cases h
    · cases h
    · next offset cursor declared known =>
      split at h
      · next behind =>
        cases h
        exact ⟨offset, cursor, declared, known, behind, rfl⟩
      · split at h <;> cases h
  · rintro ⟨offset, cursor, declared, known, behind, rfl⟩
    simp [seek, declared, known, behind]

/-- The extent of a field is not found if its size is not, or if its length is no number. -/
theorem extent_eq_error {field : Field} (h : (extent sizing field).outcome = .error error) :
    (∃ size call, sizing = .strict size ∧ field.expand = some call ∧
      (size call field.line).outcome = .error error) ∨
    ∃ text, error = .unresolvedLength field.line field.name text := by
  unfold extent at h
  split at h
  · next size call expand =>
    rcases Logged.outcome_bind_eq_error.1 h with failed | ⟨bytes, -, h⟩
    · exact .inl ⟨size, call, rfl, expand, failed⟩
    · cases h
  · split at h
    · cases h
    · next text _ =>
      cases h
      exact .inr ⟨text, rfl⟩
  · cases h
  · cases h

theorem advance_eq_error {field : Field} {start bytes : Option Nat}
    (h : advance field start bytes = .error error) :
    ∃ detail, error = .malformedField field.line detail := by
  unfold advance at h
  split at h
  · split at h
    · cases h
    · cases h
      exact ⟨_, rfl⟩
  · cases h

theorem place_faults {field : Field} (h : (place sizing field state).outcome = .error error)
    (lastLine : Nat) : Faults sizing lastLine (.field field) error := by
  rcases Logged.outcome_bind_eq_error.1 h with failed | ⟨sought, -, h⟩
  · obtain ⟨offset, cursor, -, -, -, rfl⟩ := seek_eq_error_iff.1 failed
    exact .field (.regression offset cursor)
  · rcases Logged.outcome_bind_eq_error.1 h with failed | ⟨⟨length, bytes⟩, -, h⟩
    · rcases extent_eq_error failed with ⟨size, call, strict, expand, failed⟩ | ⟨text, rfl⟩
      · exact .size strict expand failed
      · exact .field (.unresolved text)
    · rcases Logged.outcome_bind_eq_error.1 h with failed | ⟨next, -, h⟩
      · obtain ⟨detail, rfl⟩ := advance_eq_error failed
        exact .field (.malformed detail)
      · cases h

/-! ## Bit members -/

theorem openGroup_eq_error {member : Field} (h : openGroup rules member state = .error error) :
    ∃ detail, error = .malformedField member.line detail := by
  unfold openGroup at h
  split at h
  · cases h
    exact ⟨_, rfl⟩
  · split at h
    · cases h
      exact ⟨_, rfl⟩
    · cases h

theorem packMember_eq_error {member : Field} {group : BitGroup}
    (h : packMember member group = .error error) :
    ∃ last bits, error = .bitFieldOverflow member.line member.name last bits := by
  simp only [packMember] at h
  split at h
  · split at h
    · cases h
      exact ⟨_, _, rfl⟩
    · split at h
      · cases h
      · split at h
        · cases h
        · cases h
          exact ⟨_, _, rfl⟩
  · cases h

theorem bitMember_eq_error {member : Field} (h : bitMember rules member state = .error error) :
    (∃ detail, error = .malformedField member.line detail) ∨
      ∃ last bits, error = .bitFieldOverflow member.line member.name last bits := by
  cases hgroup : state.group with
  | none =>
    simp only [bitMember, hgroup] at h
    rcases bind_eq_error.1 h with failed | ⟨⟨opened, group⟩, -, h⟩
    · exact .inl (openGroup_eq_error failed)
    · rcases bind_eq_error.1 h with failed | ⟨packed, -, h⟩
      · exact .inr (packMember_eq_error failed)
      · cases h
  | some group =>
    simp only [bitMember, hgroup, pure_bind] at h
    rcases bind_eq_error.1 h with failed | ⟨packed, -, h⟩
    · exact .inr (packMember_eq_error failed)
    · cases h

/-! ## Structures and runs -/

theorem closeStruct_eq_error {closing : Field} (h : closeStruct closing state = .error error) :
    error = .unbalancedStruct closing.line closing.name := by
  unfold closeStruct at h
  split at h
  · cases h
    rfl
  · split at h
    · split at h <;> cases h
    · cases h
      rfl

/-- A step fails because of the field that it takes in, or at a bracket that closes nothing. -/
theorem step_faults {entry : Entry}
    (h : (step rules sizing state entry).outcome = .error error) :
    Faults sizing state.lastLine entry error := by
  cases entry with
  | includeOpen path => cases h
  | includeClose =>
    have lastLine : (closeGroup state).lastLine = state.lastLine := by
      unfold closeGroup
      split
      · rfl
      · unfold State.push State.withCurrent
        split <;> rfl
    simp only [step] at h
    split at h
    · cases h
      rw [lastLine]
      exact .includeClose
    · cases h
  | field field =>
    simp only [step, addField] at h
    split at h
    · rcases bitMember_eq_error h with ⟨detail, rfl⟩ | ⟨last, bits, rfl⟩
      · exact .field (.malformed detail)
      · exact .field (.overflow last bits)
    · cases h
    · cases closeStruct_eq_error h
      exact .field .unbalanced
    · cases h
    · exact place_faults h _
    · exact place_faults h _

theorem finish_eq_error (h : finish state = .error error) :
    ∃ line name, error = .unbalancedStruct line name := by
  simp only [finish] at h
  split at h
  · cases h
  · cases h
    exact ⟨_, _, rfl⟩

end BoardSchema.Layout
