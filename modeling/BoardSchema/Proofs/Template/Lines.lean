import BoardSchema.Proofs.Distinct
import BoardSchema.Proofs.Layout.Lines
import BoardSchema.Proofs.Source.Brackets
import BoardSchema.Proofs.Template.Numbering
/-!
The lines that are blamed for templates. Collecting them finds a bracket that closes nothing where
it stands. What is laid out of lines, be it to expand a call or not, blames one of these lines,
unless it is such a bracket.
-/
namespace BoardSchema

/-! ## Known lines

Numbers play no part in what is read from lines. So what is read stays the same if only numbers that
none of the lines has are changed, and it names none of these.
-/

section

variable {known : Nat → Prop} {rules : Rules} {lines : List SourceLine}

open Classical in
/-- Leaves alone the numbers that are known, and no others. -/
noncomputable def shiftUnknown (known : Nat → Prop) (line : Nat) : Nat :=
  if known line then line else line + 1

theorem shiftUnknown_eq_self_iff {line : Nat} : shiftUnknown known line = line ↔ known line := by
  unfold shiftUnknown
  split <;> simp_all

theorem renumber_shiftUnknown (h : ∀ line ∈ lines, known line.number) :
    lines.map (·.renumber (shiftUnknown known)) = lines := by
  refine (List.map_congr_left fun line hline => ?_).trans (List.map_id _)
  have same : shiftUnknown known line.number = line.number :=
    shiftUnknown_eq_self_iff.2 (h line hline)
  rw [SourceLine.renumber, same]
  rfl

theorem CompileError.known_of_renumber {error : CompileError}
    (h : error.renumber (shiftUnknown known) = error) : ∀ line ∈ error.line?, known line := by
  intro line hline
  have same := congrArg line? h
  rw [line?_renumber, hline, Option.map_some] at same
  exact shiftUnknown_eq_self_iff.1 (Option.some.inj same)

/-- What does not change along with the other lines blames a known one. -/
theorem Logged.known_of_renumber {α : Type} {become : α → α} {x : Logged α} {error : CompileError}
    (same : x = x.renumber (shiftUnknown known) become) (failed : x.outcome = .error error) :
    ∀ line ∈ error.line?, known line := by
  have outcomes := congrArg outcome same
  rw [Logged.renumber, failed] at outcomes
  exact CompileError.known_of_renumber (Except.error.inj outcomes).symm

theorem TemplateTable.collect_known {error : CompileError}
    (h : ∀ line ∈ lines, known line.number) (failed : (collect lines).outcome = .error error) :
    ∀ line ∈ error.line?, known line := by
  have same : collect lines =
      (collect lines).renumber (shiftUnknown known) (·.renumber (shiftUnknown known)) := by
    rw [← collect_renumber, renumber_shiftUnknown h]
  exact Logged.known_of_renumber same failed

namespace Built

theorem ofLines_known {built : Built} (h : ∀ line ∈ lines, known line.number)
    (builds : (ofLines rules lines).outcome = .ok built) :
    (∀ line ∈ fieldLines built.entries, known line) ∧
      ∀ problem ∈ built.problems, ∀ line ∈ problem.line?, known line := by
  have same : ofLines rules lines =
      (ofLines rules lines).renumber (shiftUnknown known) (·.renumber (shiftUnknown known)) := by
    rw [← ofLines_renumber, renumber_shiftUnknown h]
  have outcomes := congrArg Logged.outcome same
  rw [Logged.renumber, builds] at outcomes
  have kept : built.renumber (shiftUnknown known) = built := (Except.ok.inj outcomes).symm
  have same_entry := List.map_inj_left.1
    ((congrArg Built.entries kept).trans (List.map_id built.entries).symm)
  have same_problem := List.map_inj_left.1
    ((congrArg Built.problems kept).trans (List.map_id built.problems).symm)
  refine ⟨fun line hline => ?_, fun problem hproblem => ?_⟩
  · obtain ⟨field, hfield, rfl⟩ := exists_field_of_mem hline
    have same_field := Entry.field.inj (same_entry (.field field) hfield)
    exact shiftUnknown_eq_self_iff.1 (congrArg Field.line same_field)
  · exact CompileError.known_of_renumber (same_problem problem hproblem)

end Built
end

/-! ## Collecting templates -/

namespace TemplateTable

theorem insert_eq_putNamed (table : TemplateTable) (new : Template) :
    table.insert new = putNamed Template.name table new := by
  induction table with
  | nil => rfl
  | cons old rest ih => rw [insert, putNamed, ih]

theorem mem_insert {table : TemplateTable} {template new : Template}
    (h : template ∈ table.insert new) : template = new ∨ template ∈ table := by
  rw [insert_eq_putNamed] at h
  exact mem_putNamed _ h

namespace Collection

/-- What is collected comes from these lines, in order. -/
structure Within (done : List SourceLine) (c : Collection) : Prop where
  complete : ∀ template ∈ c.complete, template.body.Sublist done
  current : ∀ template ∈ c.current, template.body.Sublist done

variable {line : SourceLine} {name : String} {c next : Collection} {done : List SourceLine}

theorem Within.mono {more : List SourceLine} (within : Within done c) (sub : done.Sublist more) :
    Within more c :=
  ⟨fun template h => (within.complete template h).trans sub,
    fun template h => (within.current template h).trans sub⟩

/-- A line that is no bracket leaves the open include files alone, and is kept once at most. -/
structure Takes (line : SourceLine) (c next : Collection) : Prop where
  includes : next.includes = c.includes
  within : ∀ done, Within done c → Within (done ++ [line]) next

theorem Takes.refl : Takes line c c :=
  ⟨rfl, fun _ within => within.mono (List.sublist_append_left ..)⟩

theorem takes_start (h : (c.start line name).outcome = .ok next) : Takes line c next := by
  simp only [start] at h
  split at h
  · cases h
    refine ⟨rfl, fun done within => ⟨(within.mono (List.sublist_append_left ..)).complete, ?_⟩⟩
    rintro template ⟨⟩
    exact List.nil_sublist _
  · split at h
    · cases h
      exact .refl
    · cases h

theorem takes_stop (h : (c.stop line name).outcome = .ok next) : Takes line c next := by
  simp only [stop] at h
  split at h
  · cases h
  · next current hcurrent =>
    split at h
    · cases h
      refine ⟨rfl, fun done within => ⟨fun template htemplate => ?_, nofun⟩⟩
      have within := within.mono (List.sublist_append_left done [line])
      rcases mem_insert htemplate with rfl | old
      · exact within.current _ hcurrent
      · exact within.complete _ old
    · cases h

theorem takes_keep {event : LineEvent} (h : (c.keep line event).outcome = .ok next) :
    Takes line c next := by
  cases hcurrent : c.current with
  | some current =>
    simp only [keep, hcurrent] at h
    cases h
    refine ⟨rfl, fun done within => ⟨(within.mono (List.sublist_append_left ..)).complete, ?_⟩⟩
    rintro template ⟨⟩
    exact (within.current current hcurrent).append_right [line]
  | none =>
    cases event <;>
    · simp only [keep, hcurrent] at h
      cases h
      exact .refl

theorem add_of_plain {event : LineEvent} (read : LineEvent.ofLine line = .ok event)
    (plain : event.Plain) : c.add line = match Template.boundOf? event with
      | some (.start name) => c.start line name
      | some (.stop name) => c.stop line name
      | none => c.keep line event := by
  unfold add
  rw [read]
  cases event with
  | includeOpen path => exact absurd rfl (plain.1 path)
  | includeClose => exact absurd rfl plain.2
  | declaration => rfl
  | bsf => rfl
  | hdr => rfl
  | sectionHeader => rfl
  | unrecognized => rfl

theorem add_includeClose (read : LineEvent.ofLine line = .ok .includeClose) :
    c.add line = match c.includes with
      | [] => Logged.fail (.unbalancedInclude line.number)
      | _ :: outer => pure { c with includes := outer } := by
  unfold add
  rw [read]
  rfl

theorem takes_add {event : LineEvent} (read : LineEvent.ofLine line = .ok event)
    (plain : event.Plain) (h : (c.add line).outcome = .ok next) : Takes line c next := by
  rw [add_of_plain read plain] at h
  split at h
  · exact takes_start h
  · exact takes_stop h
  · exact takes_keep h

theorem add_eq_ok (h : (c.add line).outcome = .ok next) :
    line.files (some c.includes) = some next.includes ∧
      ∀ done, Within done c → Within (done ++ [line]) next := by
  obtain ⟨event, read, h'⟩ := Logged.outcome_bind_eq_ok.1 h
  have read : LineEvent.ofLine line = .ok event := read
  rcases event.bracket_cases with ⟨path, rfl⟩ | rfl | plain
  · cases h'
    rw [SourceLine.files, read]
    refine ⟨rfl, fun done within => ?_⟩
    have within := within.mono (List.sublist_append_left done [line])
    exact ⟨within.complete, within.current⟩
  · rw [add_includeClose read] at h
    rw [SourceLine.files, read]
    split at h
    · cases h
    · next path outer includes =>
      cases h
      refine ⟨congrArg List.tail? includes, fun done within => ?_⟩
      have within := within.mono (List.sublist_append_left done [line])
      exact ⟨within.complete, within.current⟩
  · have takes := takes_add read plain h
    rw [SourceLine.files_of_plain read plain, takes.includes]
    exact ⟨rfl, takes.within⟩

theorem start_fails {error : CompileError} (h : (c.start line name).outcome = .error error) :
    ∃ current, error = .templateReopened line.number name current := by
  simp only [start] at h
  split at h
  · cases h
  · split at h
    · cases h
    · cases h
      exact ⟨_, rfl⟩

theorem stop_fails {error : CompileError} (h : (c.stop line name).outcome = .error error) :
    error = .unmatchedTemplateEnd line.number name := by
  simp only [stop] at h
  split at h
  · cases h
    rfl
  · split at h
    · cases h
    · cases h
      rfl

theorem keep_ne_error {event : LineEvent} {error : CompileError} :
    (c.keep line event).outcome ≠ .error error := by
  unfold keep
  split <;> exact nofun

/-- A bracket closes nothing where no include file is open, and it is blamed itself. -/
theorem add_unbalanced {number : Nat}
    (h : (c.add line).outcome = .error (.unbalancedInclude number)) :
    LineEvent.ofLine line = .ok .includeClose ∧ c.includes = [] ∧ number = line.number := by
  rcases Logged.outcome_bind_eq_error.1 h with failed | ⟨event, read, failed⟩
  · have failed : LineEvent.ofLine line = .error (.unbalancedInclude number) := failed
    cases LineEvent.ofLine_faults failed
  · have read : LineEvent.ofLine line = .ok event := read
    rcases event.bracket_cases with ⟨path, rfl⟩ | rfl | plain
    · cases failed
    · rw [add_includeClose read] at h
      split at h
      · next includes =>
        cases h
        exact ⟨read, includes, rfl⟩
      · cases h
    · rw [add_of_plain read plain] at h
      split at h
      · obtain ⟨current, error_eq⟩ := start_fails h
        cases error_eq
      · cases stop_fails h
      · exact absurd h keep_ne_error

theorem addAll_unbalanced {lines : List SourceLine} {number : Nat}
    (h : (c.addAll lines).outcome = .error (.unbalancedInclude number)) :
    ∃ before close after, lines = before ++ close :: after ∧
      LineEvent.ofLine close = .ok .includeClose ∧
      filesBehind (some c.includes) before = some [] ∧ number = close.number := by
  induction lines generalizing c with
  | nil => cases h
  | cons line rest ih =>
    rcases Logged.outcome_bind_eq_error.1 h with failed | ⟨next, hnext, h⟩
    · obtain ⟨closes, includes, number_eq⟩ := add_unbalanced failed
      exact ⟨[], line, rest, rfl, closes, congrArg some includes, number_eq⟩
    · obtain ⟨before, close, after, rfl, closes, none_open, number_eq⟩ := ih h
      refine ⟨line :: before, close, after, rfl, closes, ?_, number_eq⟩
      rw [filesBehind, List.foldl_cons, (add_eq_ok hnext).1]
      exact none_open

theorem within_addAll {lines : List SourceLine} (within : Within done c)
    (h : (c.addAll lines).outcome = .ok next) : Within (done ++ lines) next := by
  induction lines generalizing c done with
  | nil =>
    cases h
    rwa [List.append_nil]
  | cons line rest ih =>
    obtain ⟨stepped, hstep, h⟩ := Logged.outcome_bind_eq_ok.1 h
    have within := ih ((add_eq_ok hstep).2 done within) h
    rwa [List.append_assoc] at within

end Collection

variable {lines : List SourceLine} {table : TemplateTable}

/-- A bracket that closes nothing is found where it stands. -/
theorem collect_unbalanced {number : Nat}
    (h : (collect lines).outcome = .error (.unbalancedInclude number)) :
    ∃ before close, ClosesNothing lines before close ∧ number = close.number := by
  rcases Logged.outcome_bind_eq_error.1 h with failed | ⟨c, -, failed⟩
  · obtain ⟨before, close, after, found, closes, none_open, number_eq⟩ :=
      Collection.addAll_unbalanced failed
    exact ⟨before, close, ⟨⟨after, found⟩, closes, none_open⟩, number_eq⟩
  · have failed : c.finish = .error (.unbalancedInclude number) := failed
    unfold Collection.finish at failed
    split at failed <;> cases failed

/-- The body of a template is a part of the lines, in order. -/
theorem body_sublist (h : (collect lines).outcome = .ok table) :
    ∀ template ∈ table, template.body.Sublist lines := by
  obtain ⟨c, hc, h⟩ := Logged.outcome_bind_eq_ok.1 h
  have h : c.finish = .ok table := h
  have start : Collection.Within [] {} := ⟨by simp, by simp⟩
  have within : Collection.Within lines c := Collection.within_addAll start hc
  unfold Collection.finish at h
  split at h
  · cases h
    exact within.complete
  · cases h

end TemplateTable

/-! ## Laying out lines -/

/-- What stops the layout of lines, where `laid` are the lines that may be laid out and `known`
their numbers. A bracket that closes nothing is reported on the line of the last field before it. -/
inductive Blames (rules : Rules) (known : Nat → Prop) (laid : List SourceLine → Prop) :
    CompileError → Prop
  | line {error : CompileError} {line : Nat} (at_line : error.line? = some line)
      (known_line : known line) (other : ∀ line, error ≠ .unbalancedInclude line) :
      Blames rules known laid error
  | bracket {lines before : List SourceLine} {close : SourceLine} {shown : Built}
      (source : laid lines) (nothing : ClosesNothing lines before close)
      (builds : (Built.ofLines rules before).outcome = .ok shown) :
      Blames rules known laid (.unbalancedInclude (lastLine 0 shown.entries))

variable {rules : Rules} {known : Nat → Prop} {laid : List SourceLine → Prop}
  {lines : List SourceLine} {error : CompileError}

theorem Built.blames_ofLines (numbers : ∀ line ∈ lines, known line.number)
    (failed : (ofLines rules lines).outcome = .error error) : Blames rules known laid error := by
  obtain ⟨line, hline, fault⟩ := ofLines_faults failed
  refine .line (?_ : error.line? = some line.number) (numbers line hline) ?_
  · cases fault <;> rfl
  · rintro number rfl
    cases fault

theorem Layout.blames_ofEntries {sizing : Sizing} {names : NamePool} {built : Built}
    (source : laid lines) (numbers : ∀ line ∈ lines, known line.number)
    (builds : (Built.ofLines rules lines).outcome = .ok built)
    (sizes : ∀ size, sizing = .strict size → ∀ call line error, known line →
      (size call line).outcome = .error error → Blames rules known laid error)
    (failed : (ofEntries rules sizing names built.entries).outcome = .error error) :
    Blames rules known laid error := by
  have fields := (Built.ofLines_known numbers builds).1
  cases ofEntries_faults failed with
  | field declared fault =>
    refine .line fault.line? (fields _ (line_mem_fieldLines declared)) ?_
    rintro line rfl
    cases fault
  | size declared strict failed =>
    exact sizes _ strict _ _ _ (fields _ (line_mem_fieldLines declared)) failed
  | unclosed declared => exact .line rfl (fields _ declared) nofun
  | includeClose found none_open =>
    obtain ⟨earlier, close, shown, nothing, hshown, rfl⟩ :=
      Built.exists_closesNothing builds found none_open
    exact .bracket source nothing hshown

namespace TemplateTable

variable {table : TemplateTable}

theorem blames_sizeOf {call : ExpandCall} {line : Nat} {layout : Layout} (here : known line)
    (failed : sizeOf call line layout = .error error) : Blames rules known laid error := by
  unfold sizeOf at failed
  split at failed
  · cases failed
  · cases failed
    exact .line rfl here nofun

theorem instantiate_numbers {template : Template}
    (numbers : ∀ line ∈ template.body, known line.number) (args : List String) :
    ∀ line ∈ template.instantiate args, known line.number := by
  intro line hline
  obtain ⟨shown, hshown, rfl⟩ := List.mem_map.1 hline
  exact numbers shown hshown

theorem blames_expandIn (numbers : ∀ template ∈ table, ∀ line ∈ template.body, known line.number)
    (instances : ∀ template ∈ table, ∀ args, laid (template.instantiate args))
    {active : List String} {call : ExpandCall} {line : Nat} (here : known line)
    (failed : (table.expandIn rules active call line).outcome = .error error) :
    Blames rules known laid error := by
  -- Each nested call has one template less to go to.
  induction idle : (TemplateTable.idle table.names active).length using Nat.strongRecOn
    generalizing active call line error with
  | ind count ih =>
    cases found : table.get? call.template with
    | none =>
      rw [Expander.expandIn_eq_of_unknown found] at failed
      cases failed
      exact .line rfl here nofun
    | some template =>
      by_cases again : call.template ∈ active
      · rw [Expander.expandIn_eq_of_again found again] at failed
        cases failed
        exact .line rfl here nofun
      · have fewer := length_idle_lt (name_of_get? found) again
        have member := List.mem_of_find?_eq_some found
        have numbers := instantiate_numbers (numbers template member) call.args
        rw [Expander.expandIn_eq_of_fresh found again] at failed
        rcases Logged.outcome_bind_eq_error.1 failed with failed | ⟨built, builds, failed⟩
        · exact Built.blames_ofLines numbers failed
        · rcases Logged.outcome_bind_eq_error.1 failed with failed | ⟨_, -, failed⟩
          · refine Layout.blames_ofEntries (instances template member call.args) numbers builds ?_
              failed
            rintro size ⟨⟩ inner line error here failed
            rcases Logged.outcome_bind_eq_error.1 failed with failed | ⟨layout, -, failed⟩
            · exact ih _ (idle ▸ fewer) here failed rfl
            · exact blames_sizeOf here failed
          · cases failed

theorem blames_expandedSize
    (numbers : ∀ template ∈ table, ∀ line ∈ template.body, known line.number)
    (instances : ∀ template ∈ table, ∀ args, laid (template.instantiate args)) {call : ExpandCall}
    {line : Nat} (here : known line)
    (failed : (table.expandedSize rules call line).outcome = .error error) :
    Blames rules known laid error := by
  rcases Logged.outcome_bind_eq_error.1 failed with failed | ⟨layout, -, failed⟩
  · exact blames_expandIn numbers instances here failed
  · exact blames_sizeOf here failed

end TemplateTable

/-- Without arguments a template stays as it is. -/
theorem Template.instantiate_nil (template : Template) :
    template.instantiate [] = template.body := by
  refine (List.map_congr_left fun line _ => ?_).trans (List.map_id _)
  simp [substituteArgs]

theorem Template.blames_layoutBody {template : Template}
    (numbers : ∀ line ∈ template.body, known line.number)
    (shown : laid template.body) (failed : (template.layoutBody rules).outcome = .error error) :
    Blames rules known laid error := by
  rcases Logged.outcome_bind_eq_error.1 failed with failed | ⟨built, builds, failed⟩
  · exact Built.blames_ofLines numbers failed
  · rcases Logged.outcome_bind_eq_error.1 failed with failed | ⟨_, -, failed⟩
    · rcases Logged.outcome_bind_eq_error.1 failed with failed | ⟨_, -, failed⟩
      · exact Layout.blames_ofEntries shown numbers builds (fun _ strict => by cases strict) failed
      · cases failed
    · cases failed

end BoardSchema
