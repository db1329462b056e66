import BoardSchema.Proofs.Layout.Reading
/-!
The include files that are open at a place of a stream. A layout counts them and remembers the line
of the last field, so it gets through a bracket that closes a file just if one is open.
-/
namespace BoardSchema

/-- The include files that are open at a place, innermost first, or `none` behind a bracket that
closes nothing. -/
abbrev OpenFiles := Option (List String)

/-- The files that are open behind an entry. -/
def Entry.files (here : OpenFiles) : Entry → OpenFiles
  | .includeOpen path => here.map (path :: ·)
  | .includeClose => here.bind List.tail?
  | .field _ => here

/-- The files that are open behind a stream. -/
def openFiles (here : OpenFiles) (entries : List Entry) : OpenFiles :=
  entries.foldl Entry.files here

/-- The line of the last field of a stream. -/
def lastLine (line : Nat) (entries : List Entry) : Nat :=
  entries.foldl (fun line entry => (entry.field?.map Field.line).getD line) line

def Entry.opensFile : Entry → Bool
  | .includeOpen _ => true
  | _ => false

def Entry.closesFile : Entry → Bool
  | .includeClose => true
  | _ => false

section

variable {here : OpenFiles} {entries left right : List Entry}

@[simp] theorem openFiles_nil : openFiles here [] = here := rfl

@[simp] theorem openFiles_field (field : Field) (rest : List Entry) :
    openFiles here (.field field :: rest) = openFiles here rest := rfl

theorem openFiles_append (here : OpenFiles) (left right : List Entry) :
    openFiles here (left ++ right) = openFiles (openFiles here left) right :=
  List.foldl_append ..

theorem openFiles_concat (here : OpenFiles) (left : List Entry) (entry : Entry) :
    openFiles here (left ++ [entry]) = entry.files (openFiles here left) :=
  List.foldl_append ..

/-- Fields leave open what is open before them. -/
theorem openFiles_of_fields (h : ∀ entry ∈ entries, entry.field?.isSome) :
    openFiles here entries = here := by
  induction entries with
  | nil => rfl
  | cons entry rest ih =>
    rw [List.forall_mem_cons] at h
    cases entry with
    | field => exact ih h.2
    | includeOpen => simp [Entry.field?] at h
    | includeClose => simp [Entry.field?] at h

/-- Behind a bracket that closes nothing all is lost. -/
theorem openFiles_none (entries : List Entry) : openFiles none entries = none := by
  induction entries with
  | nil => rfl
  | cons entry rest ih => cases entry <;> exact ih

theorem openFiles_prefix_ne_none (known : openFiles here entries ≠ none) (sub : left <+: entries) :
    openFiles here left ≠ none := by
  obtain ⟨rest, rfl⟩ := sub
  intro lost
  rw [openFiles_append, lost, openFiles_none] at known
  exact known rfl

/-- Each file that is open was opened and not closed. -/
theorem length_openFiles {opened now : List String}
    (h : openFiles (some opened) entries = some now) :
    opened.length + entries.countP Entry.opensFile =
      now.length + entries.countP Entry.closesFile := by
  induction entries generalizing opened with
  | nil =>
    cases h
    rfl
  | cons entry rest ih =>
    cases entry with
    | field => simpa [Entry.opensFile, Entry.closesFile] using ih h
    | includeOpen path =>
      have rest_eq : (path :: opened).length + rest.countP Entry.opensFile = _ := ih h
      simp only [List.length_cons] at rest_eq
      simp only [List.countP_cons, Entry.opensFile, Entry.closesFile, Bool.false_eq_true, if_true,
        if_false]
      omega
    | includeClose =>
      cases opened with
      | nil => cases h.symm.trans (openFiles_none rest)
      | cons path outer =>
        have rest_eq : outer.length + rest.countP Entry.opensFile = _ := ih h
        simp only [List.countP_cons, Entry.opensFile, Entry.closesFile, Bool.false_eq_true, if_true,
          if_false, List.length_cons]
        omega

theorem lastLine_cons (line : Nat) (entry : Entry) (rest : List Entry) :
    lastLine line (entry :: rest) = lastLine ((entry.field?.map Field.line).getD line) rest :=
  List.foldl_cons ..

end

namespace Layout

variable {rules : Rules} {sizing : Sizing} {state next : State} {entries : List Entry}

/-- A step has left alone what a layout keeps beside its output. -/
structure SameBooks (state next : State) : Prop where
  includes : next.includes = state.includes
  lastLine : next.lastLine = state.lastLine

theorem SameBooks.trans {middle : State} (h : SameBooks state middle) (h' : SameBooks middle next) :
    SameBooks state next :=
  ⟨h'.includes.trans h.includes, h'.lastLine.trans h.lastLine⟩

theorem sameBooks_withCurrent (state : State) (entries : List Entry) :
    SameBooks state (state.withCurrent entries) := by
  unfold State.withCurrent
  cases state.scopes <;> exact ⟨rfl, rfl⟩

@[simp] theorem includes_push (state : State) (entries : List Entry) :
    (state.push entries).includes = state.includes := (sameBooks_withCurrent ..).includes

@[simp] theorem lastLine_push (state : State) (entries : List Entry) :
    (state.push entries).lastLine = state.lastLine := (sameBooks_withCurrent ..).lastLine

theorem sameBooks_closeGroup (state : State) : SameBooks state (closeGroup state) := by
  unfold closeGroup
  split
  · exact ⟨rfl, rfl⟩
  · exact ⟨includes_push .., lastLine_push ..⟩

theorem sameBooks_place {field : Field} (h : (place sizing field state).outcome = .ok next) :
    SameBooks state next := by
  obtain ⟨cell, names, -, -, next_eq⟩ := place_eq_ok h
  rw [next_eq]
  exact ⟨includes_push .., lastLine_push ..⟩

theorem sameBooks_openGroup {member : Field} {group : BitGroup}
    (h : openGroup rules member state = .ok (next, group)) : SameBooks state next := by
  unfold openGroup at h
  split at h
  · cases h
  · split at h
    · cases h
    · cases h
      exact sameBooks_withCurrent ..

theorem sameBooks_bitMember {member : Field} (h : bitMember rules member state = .ok next) :
    SameBooks state next := by
  cases hgroup : state.group with
  | none =>
    simp only [bitMember, hgroup] at h
    obtain ⟨⟨opened, group⟩, hopened, h⟩ := bind_eq_ok.1 h
    obtain ⟨packed, -, h⟩ := bind_eq_ok.1 h
    cases h
    have books := sameBooks_openGroup hopened
    exact ⟨(includes_push ..).trans books.includes, (lastLine_push ..).trans books.lastLine⟩
  | some group =>
    simp only [bitMember, hgroup, pure_bind] at h
    obtain ⟨packed, -, h⟩ := bind_eq_ok.1 h
    cases h
    exact ⟨includes_push .., lastLine_push ..⟩

theorem sameBooks_openStruct (field : Field) (state : State) :
    SameBooks state (openStruct rules field state) := by
  unfold openStruct
  split
  · exact ⟨rfl, rfl⟩
  · dsimp only
    split <;> exact ⟨rfl, rfl⟩

theorem sameBooks_closeStruct {field : Field} (h : closeStruct field state = .ok next) :
    SameBooks state next := by
  unfold closeStruct at h
  split at h
  · cases h
  · split at h
    · split at h
      · cases h
        exact ⟨rfl, rfl⟩
      · cases h
        exact ⟨includes_push .., lastLine_push ..⟩
    · cases h

/-- A field is noted as the last one, and does nothing else to what a layout keeps. -/
theorem sameBooks_addField {field : Field}
    (h : (addField rules sizing field state).outcome = .ok next) :
    SameBooks { state with lastLine := field.line } next := by
  have closed := sameBooks_closeGroup { state with lastLine := field.line }
  simp only [addField] at h
  split at h
  · exact sameBooks_bitMember h
  · cases h
    exact closed.trans (sameBooks_openStruct ..)
  · exact closed.trans (sameBooks_closeStruct h)
  · cases h
    exact closed.trans ⟨includes_push .., lastLine_push ..⟩
  · exact closed.trans (sameBooks_place h)
  · exact closed.trans (sameBooks_place h)

theorem lastLine_step {entry : Entry} (h : (step rules sizing state entry).outcome = .ok next) :
    next.lastLine = (entry.field?.map Field.line).getD state.lastLine := by
  have closed := (sameBooks_closeGroup state).lastLine
  cases entry with
  | field field => exact (sameBooks_addField h).lastLine
  | includeOpen path =>
    cases h
    exact (lastLine_push ..).trans closed
  | includeClose =>
    simp only [step] at h
    split at h
    · cases h
    · cases h
      exact (lastLine_push ..).trans closed

/-- A layout counts the files that are open. -/
theorem includes_step {entry : Entry} {opened : List String}
    (h : (step rules sizing state entry).outcome = .ok next)
    (count : opened.length = state.includes) :
    ∃ now, entry.files (some opened) = some now ∧ now.length = next.includes := by
  have closed := (sameBooks_closeGroup state).includes
  cases entry with
  | field field => exact ⟨opened, rfl, count.trans (sameBooks_addField h).includes.symm⟩
  | includeOpen path =>
    cases h
    refine ⟨path :: opened, rfl, ?_⟩
    rw [includes_push, List.length_cons, count, closed]
  | includeClose =>
    simp only [step] at h
    split at h
    · cases h
    · next some_open =>
      cases h
      rw [closed, ← count] at some_open
      obtain ⟨path, outer, rfl⟩ := List.exists_cons_of_length_pos (Nat.pos_of_ne_zero some_open)
      refine ⟨outer, rfl, ?_⟩
      rw [includes_push, closed, ← count]
      rfl

theorem lastLine_run (h : (run rules sizing state entries).outcome = .ok next) :
    next.lastLine = BoardSchema.lastLine state.lastLine entries := by
  induction entries generalizing state with
  | nil =>
    cases h
    rfl
  | cons entry rest ih =>
    obtain ⟨stepped, hstep, hrun⟩ := Logged.outcome_bind_eq_ok.1 h
    rw [ih hrun, lastLine_step hstep, lastLine_cons]

theorem includes_run {opened : List String}
    (h : (run rules sizing state entries).outcome = .ok next)
    (count : opened.length = state.includes) :
    ∃ now, openFiles (some opened) entries = some now ∧ now.length = next.includes := by
  induction entries generalizing state opened with
  | nil =>
    cases h
    exact ⟨opened, rfl, count⟩
  | cons entry rest ih =>
    obtain ⟨stepped, hstep, hrun⟩ := Logged.outcome_bind_eq_ok.1 h
    obtain ⟨middle, files, count⟩ := includes_step hstep count
    obtain ⟨now, files', count'⟩ := ih hrun count
    refine ⟨now, ?_, count'⟩
    rw [← files', ← files]
    rfl

/-- In a stream that can be laid out no bracket closes a file that was not opened. -/
theorem openFiles_ne_none {names pool : NamePool} {layout : Layout}
    (h : (ofEntries rules sizing names entries).outcome = .ok (layout, pool)) :
    openFiles (some []) entries ≠ none := by
  obtain ⟨state, hrun, -⟩ := Logged.outcome_bind_eq_ok.1 h
  obtain ⟨now, files, -⟩ := includes_run hrun List.length_nil
  rw [files]
  exact Option.some_ne_none now

end Layout
end BoardSchema
