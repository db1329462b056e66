import BoardSchema.Proofs.Layout.Numbering
import BoardSchema.Proofs.Template.Expander
/-!
Numbering the lines of templates anew. The same templates are collected, and calls expand to the
same layouts, with the other numbers.
-/
namespace BoardSchema

variable {number : Nat → Nat}

def Template.renumber (number : Nat → Nat) (template : Template) : Template where
  name := template.name
  file := template.file
  line := number template.line
  body := template.body.map (·.renumber number)

/-- A table of templates with other line numbers. -/
def TemplateTable.renumber (number : Nat → Nat) (table : TemplateTable) : TemplateTable :=
  table.map (Template.renumber number)

namespace TemplateTable

theorem get?_renumber (table : TemplateTable) (name : String) :
    (table.renumber number).get? name = (table.get? name).map (Template.renumber number) := by
  unfold get? renumber
  rw [List.find?_map]
  rfl

theorem insert_renumber (table : TemplateTable) (template : Template) :
    (table.renumber number).insert (template.renumber number) =
      (table.insert template).renumber number := by
  induction table with
  | nil => rfl
  | cons old rest ih =>
    change (if old.name = template.name then _ else _) =
      renumber number (if old.name = template.name then _ else _)
    split
    · rfl
    · exact congrArg (old.renumber number :: ·) ih

/-! ## Collecting templates -/

theorem boundOf?_renumber (event : LineEvent) :
    Template.boundOf? (event.renumber number) = Template.boundOf? event := by
  cases event <;> rfl

namespace Collection

def renumber (number : Nat → Nat) (c : Collection) : Collection where
  complete := c.complete.renumber number
  includes := c.includes
  current := c.current.map (Template.renumber number)

theorem start_renumber (line : SourceLine) (name : String) (c : Collection) :
    (c.renumber number).start (line.renumber number) name =
      (c.start line name).renumber number (renumber number) := by
  obtain ⟨complete, includes, current⟩ := c
  cases current with
  | none => rfl
  | some current =>
    change (if name = current.name then _ else _) =
      Logged.renumber number _ (if name = current.name then _ else _)
    split <;> rfl

theorem stop_renumber (line : SourceLine) (name : String) (c : Collection) :
    (c.renumber number).stop (line.renumber number) name =
      (c.stop line name).renumber number (renumber number) := by
  obtain ⟨complete, includes, current⟩ := c
  cases current with
  | none => rfl
  | some current =>
    change (if name = current.name then _ else _) =
      Logged.renumber number _ (if name = current.name then _ else _)
    split
    · exact congrArg (fun complete => pure (⟨complete, includes, none⟩ : Collection))
        (insert_renumber complete current)
    · rfl

theorem keep_renumber (line : SourceLine) (event : LineEvent) (c : Collection) :
    (c.renumber number).keep (line.renumber number) (event.renumber number) =
      (c.keep line event).renumber number (renumber number) := by
  obtain ⟨complete, includes, current⟩ := c
  cases current with
  | none => cases event <;> rfl
  | some current =>
    have body : (current.body ++ [line]).map (·.renumber number) =
        current.body.map (·.renumber number) ++ [line.renumber number] := by simp
    cases event <;>
      exact congrArg (fun body => pure (⟨complete.renumber number, includes,
        some { current.renumber number with body }⟩ : Collection)) body.symm

theorem bound_renumber (number : Nat → Nat) {bound bound' : Option Template.Bound}
    (same : bound' = bound) (line : SourceLine) (event : LineEvent) (c : Collection) :
    (match bound' with
      | some (.start name) => (c.renumber number).start (line.renumber number) name
      | some (.stop name) => (c.renumber number).stop (line.renumber number) name
      | none => (c.renumber number).keep (line.renumber number) (event.renumber number)) =
      (match bound with
      | some (.start name) => c.start line name
      | some (.stop name) => c.stop line name
      | none => c.keep line event).renumber number (renumber number) := by
  subst same
  split
  · exact start_renumber ..
  · exact stop_renumber ..
  · exact keep_renumber ..

theorem add_renumber (line : SourceLine) (c : Collection) :
    (c.renumber number).add (line.renumber number) =
      (c.add line).renumber number (renumber number) := by
  have read : Logged.ofExcept (LineEvent.ofLine (line.renumber number)) =
      (Logged.ofExcept (LineEvent.ofLine line)).renumber number (·.renumber number) := by
    rw [LineEvent.ofLine_renumber]
    rfl
  refine Logged.renumber_bind read fun event => ?_
  have same : Template.boundOf? (event.renumber number) = Template.boundOf? event :=
    boundOf?_renumber event
  have other := bound_renumber number same line event c
  cases event with
  | includeOpen => rfl
  | includeClose =>
    obtain ⟨complete, includes, current⟩ := c
    cases includes <;> rfl
  | bsf => exact other
  | hdr => exact other
  | declaration => exact other
  | sectionHeader => exact other
  | unrecognized => exact other

theorem addAll_renumber (lines : List SourceLine) (c : Collection) :
    (c.renumber number).addAll (lines.map (·.renumber number)) =
      (c.addAll lines).renumber number (renumber number) := by
  induction lines generalizing c with
  | nil => rfl
  | cons line rest ih => exact Logged.renumber_bind (add_renumber line c) ih

theorem finish_renumber (c : Collection) : (c.renumber number).finish =
    renumberOutcome number (TemplateTable.renumber number) c.finish := by
  obtain ⟨complete, includes, current⟩ := c
  cases current <;> rfl

end Collection

theorem collect_renumber (lines : List SourceLine) :
    collect (lines.map (·.renumber number)) =
      (collect lines).renumber number (TemplateTable.renumber number) := by
  refine Logged.renumber_bind (Collection.addAll_renumber lines {}) fun c => ?_
  rw [Collection.finish_renumber]
  rfl

/-! ## Expanding calls -/

variable {rules : Rules} {table : TemplateTable}

theorem instantiate_renumber (template : Template) (args : List String) :
    (template.renumber number).instantiate args =
      (template.instantiate args).map (·.renumber number) := by
  unfold Template.instantiate Template.renumber
  rw [List.map_map, List.map_map]
  rfl

theorem sizeOf_renumber (call : ExpandCall) (line : Nat) (layout : Layout) :
    sizeOf call (number line) (layout.renumber number) =
      renumberOutcome number id (sizeOf call line layout) := by
  have size : (layout.renumber number).size = layout.size := rfl
  unfold sizeOf
  rw [size]
  split <;> rfl

theorem expandIn_renumber (zero : number 0 = 0) (active : List String) (call : ExpandCall)
    (line : Nat) : (table.renumber number).expandIn rules active call (number line) =
      (table.expandIn rules active call line).renumber number (Layout.renumber number) := by
  -- Each nested call has one template less to go to.
  induction idle : (TemplateTable.idle table.names active).length using Nat.strongRecOn
    generalizing active call line with
  | ind count ih =>
    have found' : (table.renumber number).get? call.template = _ :=
      get?_renumber table call.template
    cases found : table.get? call.template with
    | none =>
      rw [found] at found'
      rw [Expander.expandIn_eq_of_unknown found, Expander.expandIn_eq_of_unknown found']
      rfl
    | some template =>
      rw [found] at found'
      by_cases again : call.template ∈ active
      · rw [Expander.expandIn_eq_of_again found again, Expander.expandIn_eq_of_again found' again]
        rfl
      · have fewer := length_idle_lt (name_of_get? found) again
        have same (inner : ExpandCall) (line : Nat) :
            (table.renumber number).sizeIn rules (call.template :: active) inner (number line) =
              (table.sizeIn rules (call.template :: active) inner line).renumber number id := by
          refine Logged.renumber_bind (ih _ (idle ▸ fewer) _ inner line rfl) fun layout => ?_
          rw [sizeOf_renumber]
          rfl
        rw [Expander.expandIn_eq_of_fresh found again, Expander.expandIn_eq_of_fresh found' again]
        have built : Built.ofLines rules ((template.renumber number).instantiate call.args) =
            (Built.ofLines rules (template.instantiate call.args)).renumber number
              (·.renumber number) := by
          rw [instantiate_renumber, Built.ofLines_renumber]
        refine Logged.renumber_bind built fun built => ?_
        exact Logged.renumber_bind
          (Layout.ofEntries_renumber (.strict same) zero rules _ built.entries)
          fun (layout, _) => rfl

theorem expandedSize_renumber (zero : number 0 = 0) (call : ExpandCall) (line : Nat) :
    (table.renumber number).expandedSize rules call (number line) =
      (table.expandedSize rules call line).renumber number id := by
  refine Logged.renumber_bind (expandIn_renumber zero [] call line) fun layout => ?_
  rw [sizeOf_renumber]
  rfl

end TemplateTable

/-! ## Bodies -/

theorem Layout.ofBody_renumber (zero : number 0 = 0) (rules : Rules) (entries : List Entry) :
    ofBody rules (entries.map (·.renumber number)) =
      (ofBody rules entries).renumber number (List.map (·.renumber number)) :=
  Logged.renumber_bind (ofEntries_renumber .lenient zero rules _ entries) fun (_, _) => rfl

theorem Template.layoutBody_renumber (zero : number 0 = 0) (rules : Rules) (template : Template) :
    (template.renumber number).layoutBody rules =
      (template.layoutBody rules).renumber number (·.renumber number) := by
  refine Logged.renumber_bind (Built.ofLines_renumber rules template.body) fun built => ?_
  exact Logged.renumber_bind (Layout.ofBody_renumber zero rules built.entries) fun entries => rfl

end BoardSchema
