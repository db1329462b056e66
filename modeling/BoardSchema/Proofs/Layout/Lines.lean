import BoardSchema.Proofs.Layout.Faults
import BoardSchema.Proofs.Layout.OpenFiles
import BoardSchema.Proofs.Layout.UnderWay
/-!
The lines that a layout names. What it puts out stands on the lines of declared fields, and an error
blames such a line too. The one exception is an include bracket that closes nothing: brackets bear
no line, so the line of the last field before it is blamed, or line 0 if there is none.
-/
namespace BoardSchema

/-- The lines of the fields of a stream. -/
def fieldLines (entries : List Entry) : List Nat :=
  (entries.filterMap Entry.field?).map Field.line

section

variable {left right left' right' entries : List Entry} {field : Field}

@[simp] theorem fieldLines_nil : fieldLines [] = [] := rfl

@[simp] theorem fieldLines_field (field : Field) (rest : List Entry) :
    fieldLines (.field field :: rest) = field.line :: fieldLines rest := rfl

@[simp] theorem fieldLines_append (left right : List Entry) :
    fieldLines (left ++ right) = fieldLines left ++ fieldLines right := by
  simp [fieldLines]

theorem fieldLines_map {α : Type} (placed : α → Field) (members : List α) :
    fieldLines (members.map fun member => .field (placed member)) =
      members.map fun member => (placed member).line := by
  simp [fieldLines, List.filterMap_map, Function.comp_def, Entry.field?]

theorem line_mem_fieldLines (h : .field field ∈ entries) : field.line ∈ fieldLines entries :=
  List.mem_map_of_mem (List.mem_filterMap.2 ⟨.field field, h, rfl⟩)

theorem exists_field_of_mem {line : Nat} (h : line ∈ fieldLines entries) :
    ∃ field, .field field ∈ entries ∧ field.line = line := by
  obtain ⟨field, hfield, rfl⟩ := List.mem_map.1 h
  obtain ⟨entry, hentry, found⟩ := List.mem_filterMap.1 hfield
  cases entry with
  | field =>
    cases found
    exact ⟨field, hentry, rfl⟩
  | includeOpen => cases found
  | includeClose => cases found

theorem fieldLines_append_subset (h : fieldLines left ⊆ fieldLines left')
    (h' : fieldLines right ⊆ fieldLines right') :
    fieldLines (left ++ right) ⊆ fieldLines (left' ++ right') := by
  rw [fieldLines_append, fieldLines_append]
  exact List.append_subset.2
    ⟨List.subset_append_of_subset_left _ h, List.subset_append_of_subset_right _ h'⟩

theorem lastLine_eq_or_mem (line : Nat) (entries : List Entry) :
    lastLine line entries = line ∨ lastLine line entries ∈ fieldLines entries := by
  induction entries generalizing line with
  | nil => exact .inl rfl
  | cons entry rest ih =>
    rw [lastLine_cons]
    cases entry with
    | field field =>
      right
      rcases ih field.line with same | later
      · exact List.mem_cons.2 (.inl same)
      · exact List.mem_cons_of_mem _ later
    | includeOpen => exact ih line
    | includeClose => exact ih line

end

namespace Layout

variable {rules : Rules} {sizing : Sizing}

/-! ## What is put out -/

theorem Seeks.padding_line {field padding : Field} {cursor start : Option Nat}
    (seeks : Seeks field cursor (some padding) start) : padding.line = field.line := by
  cases seeks
  rfl

theorem Places.line_eq {cursor next : Option Nat} {cell : Cell}
    (places : Places sizing cursor cell next) : cell.result.line = cell.source.line := by
  rw [places.kept]

theorem Places.lines_gap {cursor next : Option Nat} {cell : Cell}
    (places : Places sizing cursor cell next) : fieldLines cell.gap ⊆ [cell.source.line] := by
  obtain ⟨start, bytes, seeks, -⟩ := places
  cases hpadding : cell.padding with
  | none => simp [Cell.gap, hpadding]
  | some padding =>
    rw [hpadding] at seeks
    simp [Cell.gap, hpadding, seeks.padding_line]

theorem Packs.line_eq {first group : BitGroup} {members : List Placed}
    (packs : Packs first members group) :
    ∀ member ∈ members, member.result.line = member.source.line := by
  induction packs with
  | nil => simp
  | member _ _ packed ih =>
    intro member hmember
    rcases List.mem_append.1 hmember with hmember | hmember
    · exact ih member hmember
    · rw [List.mem_singleton.1 hmember, (packMember_eq_ok packed).1]

theorem Packed.exists_lastLine {packed : Packed} (members_ne : packed.members ≠ []) :
    ∃ member ∈ packed.members, packed.lastLine = member.result.line := by
  obtain ⟨member, hmember⟩ := Option.ne_none_iff_exists'.1
    (mt List.getLast?_eq_none_iff.1 members_ne)
  refine ⟨member, List.mem_of_getLast? hmember, ?_⟩
  rw [lastLine, hmember]
  rfl

/-- A container stands on the line of its byte field, and closes on the line of its last member. -/
theorem lines_packed {cursor next : Option Nat} {packed : Packed} {group : BitGroup}
    (places : Places sizing cursor packed.toCell next) (contains : Contains rules packed group)
    (members_ne : packed.members ≠ [])
    (closing : packed.closing = groupClosing packed.result.name packed.lastLine next) :
    fieldLines packed.entries ⊆ fieldLines
      (.field packed.source :: packed.members.map fun member => .field member.source) := by
  obtain ⟨bytes, -, -, packs⟩ := contains.packs
  have members : fieldLines (packed.members.map fun member => .field member.result) =
      fieldLines (packed.members.map fun member => .field member.source) := by
    rw [fieldLines_map, fieldLines_map]
    exact List.map_congr_left packs.line_eq
  have last : packed.closing.line ∈
      fieldLines (packed.members.map fun member => .field member.source) := by
    obtain ⟨member, hmember, line⟩ := Packed.exists_lastLine members_ne
    have closing_line : packed.closing.line = packed.lastLine := by rw [closing, groupClosing]
    rw [closing_line, line, packs.line_eq member hmember]
    exact line_mem_fieldLines (List.mem_map_of_mem hmember)
  have opening : packed.opening.line = packed.source.line := by
    rw [contains.opening]
    exact places.line_eq
  have marker : packed.marker.line = packed.source.line := by
    rw [contains.marker]
    exact places.line_eq
  rw [Packed.entries, Packed.start, fieldLines_append, fieldLines_append]
  simp only [fieldLines_field, fieldLines_nil, opening, marker, members]
  have gap := places.lines_gap
  intro line hline
  simp only [List.mem_append, List.mem_cons, List.not_mem_nil, or_false] at hline ⊢
  rcases hline with (hgap | rfl | rfl | hmember) | rfl
  · exact .inl (List.mem_singleton.1 (gap hgap))
  · exact .inl rfl
  · exact .inl rfl
  · exact .inr hmember
  · exact .inr last

/-- All that is put out stands on the line of a declared field. -/
theorem Follows.lines_stream {inside : Bool} {start cursor : Option Nat} {outline : Outline}
    (follows : Follows rules sizing inside start outline cursor) :
    fieldLines outline.stream ⊆ fieldLines outline.source := by
  induction follows with
  | nil => exact List.Subset.refl _
  | mark _ marks ih =>
    refine fieldLines_append_subset ih ?_
    cases marks <;> exact List.Subset.refl _
  | byte _ _ places ih =>
    refine fieldLines_append_subset ih ?_
    rw [Cell.entries, fieldLines_append]
    refine List.append_subset.2 ⟨places.lines_gap, ?_⟩
    simp [places.line_eq]
  | pack _ places contains members_ne closing ih =>
    exact fieldLines_append_subset ih (lines_packed places contains members_ne closing)
  | block _ opens _ ends ih ihInner =>
    simp only [Outline.stream, Outline.source, List.append_assoc, List.cons_append]
    refine fieldLines_append_subset ih ?_
    rw [fieldLines_field, fieldLines_field, opens.result]
    refine List.cons_subset_cons _ (fieldLines_append_subset ihInner ?_)
    rw [fieldLines_field, fieldLines_field, ends.result]
    exact List.Subset.refl _

theorem Follows.lines {inside : Bool} {start cursor : Option Nat} {outline : Outline}
    (follows : Follows rules sizing inside start outline cursor) :
    fieldLines (outline.front ++ outline.body) ⊆ fieldLines outline.source :=
  fun _ hline => follows.lines_stream
    (((outline.front_append_body_perm.filterMap _).map _).subset hline)

theorem lines_ofEntries {names pool : NamePool} {entries : List Entry} {layout : Layout}
    (h : (ofEntries rules sizing names entries).outcome = .ok (layout, pool)) :
    fieldLines layout.entries ⊆ fieldLines entries := by
  obtain ⟨outline, rfl, body, follows⟩ := exists_outline h
  have lines := follows.lines
  rwa [follows.front_eq_nil, List.nil_append, body] at lines

/-! ## A layout under way -/

theorem Nests.lines {extra cursor : Option Nat} {inner : Outline} {path : List Level}
    (nests : Nests rules sizing extra inner path cursor) :
    fieldLines (outputOf inner.front inner.body path) ⊆ fieldLines (sourceOf inner path) := by
  induction nests with
  | root follows =>
    have lines := follows.lines
    rwa [follows.front_eq_nil, List.nil_append] at lines
  | level _ opens follows ih =>
    rw [outputOf, List.append_assoc]
    refine fieldLines_append_subset ih ?_
    have within := follows.lines
    simp only [fieldLines_append, fieldLines_field, opens.result, List.append_subset,
      List.cons_subset] at within ⊢
    exact ⟨List.subset_cons_of_subset _ within.1, List.mem_cons_self,
      List.subset_cons_of_subset _ within.2⟩

theorem Reads.lines {state : State} {done : List Entry} (reads : Reads rules sizing state done)
    (settled : state.group = none) : fieldLines state.output ⊆ fieldLines done := by
  obtain ⟨inner, path, nests, shape, rfl⟩ := reads.of_group_eq_none settled
  rw [shape.output_eq]
  exact nests.lines

/-! ## What is blamed -/

/-- What stops the layout of a stream. -/
inductive StreamFault (sizing : Sizing) (entries : List Entry) : CompileError → Prop
  | field {field : Field} {error : CompileError} (declared : .field field ∈ entries)
      (fault : FieldFault field error) : StreamFault sizing entries error
  | size {field : Field} {size : ExpandCall → Nat → Logged Nat} {call : ExpandCall}
      {error : CompileError} (declared : .field field ∈ entries) (strict : sizing = .strict size)
      (failed : (size call field.line).outcome = .error error) : StreamFault sizing entries error
  /-- A structure is not closed. -/
  | unclosed {line : Nat} {name : String} (declared : line ∈ fieldLines entries) :
      StreamFault sizing entries (.unbalancedStruct line name)
  /-- A bracket closes an include file where none is open. -/
  | includeClose {before after : List Entry} (found : entries = before ++ .includeClose :: after)
      (none_open : openFiles (some []) before = some []) :
      StreamFault sizing entries (.unbalancedInclude (lastLine 0 before))

theorem FieldFault.line? {field : Field} {error : CompileError} (fault : FieldFault field error) :
    error.line? = some field.line := by
  cases fault <;> rfl

variable {state : State} {error : CompileError}

theorem includes_of_includeClose_fails
    (h : (step rules sizing state .includeClose).outcome = .error error) : state.includes = 0 := by
  simp only [step] at h
  split at h
  · next none_open => exact (sameBooks_closeGroup state).includes.symm.trans none_open
  · cases h

theorem finish_faults {done : List Entry} (reads : Reads rules sizing state done)
    (h : finish state = .error error) : StreamFault sizing done error := by
  have ⟨closed, group, _⟩ := reads_closeGroup reads
  simp only [finish] at h
  split at h
  · cases h
  · next scope outer scopes =>
    cases h
    have opened : .field scope.opening ∈ (closeGroup state).output := by
      simp [State.output, scopes]
    exact .unclosed (closed.lines group (line_mem_fieldLines opened))

theorem ofEntries_faults {names : NamePool} {entries : List Entry}
    (h : (ofEntries rules sizing names entries).outcome = .error error) :
    StreamFault sizing entries error := by
  rcases Logged.outcome_bind_eq_error.1 h with failed | ⟨state, hrun, failed⟩
  · obtain ⟨before, entry, after, next, rfl, hrun, failed⟩ := run_eq_error failed
    cases step_faults failed with
    | field fault => exact .field (by simp) fault
    | size strict _ failed => exact .size (by simp) strict failed
    | includeClose =>
      obtain ⟨now, files, count⟩ := includes_run hrun List.length_nil
      have none_open : now = [] :=
        List.length_eq_zero_iff.1 (count.trans (includes_of_includeClose_fails failed))
      rw [lastLine_run hrun]
      exact .includeClose rfl (none_open ▸ files)
  · exact finish_faults (reads_run (reads_nil names) hrun) failed

end Layout
end BoardSchema
