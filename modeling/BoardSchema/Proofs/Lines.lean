import BoardSchema.Proofs.Compilation
import BoardSchema.Proofs.Output.Lengths
import BoardSchema.Proofs.Template.Lines
/-!
The lines that a compilation names. All of them are lines of its text, be they in the schema, in the
problems that were passed over or in the error that ended it. One report is at fault: an include
bracket that closes nothing is not reported on its own line if it is found by a layout, and it is
reported on line 0 if no field stands before it.
-/
namespace BoardSchema

variable {rules : Rules} {table : TemplateTable} {error : CompileError}

/-! ## Rendering -/

namespace Field

variable {field : Field}

/-- A field is shown unless it calls a template that is not known. -/
theorem lines_fails (h : (field.lines rules table).outcome = .error error) :
    ∃ name, error = .unknownTemplateReference field.line name := by
  cases expand : field.expand with
  | some call =>
    simp only [lines, expand] at h
    split at h
    · cases h
      exact ⟨_, rfl⟩
    · cases h
  | none =>
    by_cases closes : field.role = .structClose
    · simp only [lines, expand, if_pos closes] at h
      cases h
    · obtain ⟨length, hlength, -⟩ := exists_lengthText? rules field
      obtain ⟨value, hvalue, -⟩ := exists_valueText (length.bind (·.2)) field.value
      cases (lines_eq expand closes hlength hvalue).symm.trans h

end Field

namespace Rendering

/-- What a stream is not rendered for: one of its fields calls a template that is not known. -/
def CallsUnknown (stream : List Entry) (error : CompileError) : Prop :=
  ∃ line ∈ fieldLines stream, ∃ name, error = .unknownTemplateReference line name

theorem CallsUnknown.mono {stream more : List Entry} (h : CallsUnknown stream error)
    (sub : fieldLines stream ⊆ fieldLines more) : CallsUnknown more error := by
  obtain ⟨line, hline, name, rfl⟩ := h
  exact ⟨line, sub hline, name, rfl⟩

theorem entries_fails {frame : Frame} {outer : List Frame} {bundle : Bundle} {stream : List Entry}
    (h : (entries rules table frame outer bundle stream).outcome = .error error) :
    CallsUnknown stream error := by
  induction stream generalizing frame outer bundle with
  | nil => cases h
  | cons entry rest ih =>
    cases entry with
    | field field =>
      rcases Logged.outcome_bind_eq_error.1 h with failed | ⟨lines, -, h⟩
      · obtain ⟨name, rfl⟩ := Field.lines_fails failed
        exact ⟨field.line, List.mem_cons_self, name, rfl⟩
      · exact (ih h).mono (List.subset_cons_self _ _)
    | includeOpen path =>
      simp only [entries] at h
      split at h <;> exact ih h
    | includeClose =>
      simp only [entries] at h
      split at h <;> exact ih h

theorem bodies_fails {top : String} {referenced : List String} {bundle : Bundle}
    {templates : List (Template × List Entry)}
    (h : (bodies rules table top referenced bundle templates).outcome = .error error) :
    ∃ body ∈ templates, CallsUnknown body.2 error := by
  induction templates generalizing referenced bundle with
  | nil => cases h
  | cons first rest ih =>
    simp only [bodies] at h
    split at h <;>
    · rcases Logged.outcome_bind_eq_error.1 h with failed | ⟨_, -, h⟩
      · exact ⟨first, List.mem_cons_self, entries_fails failed⟩
      · obtain ⟨body, hbody, calls⟩ := ih h
        exact ⟨body, List.mem_cons_of_mem _ hbody, calls⟩

theorem schema_fails {top : String} {bindings : List Binding}
    {templates : List (Template × List Entry)} {configs : List Entry}
    (h : (schema rules table top bindings templates configs).outcome = .error error) :
    (∃ body ∈ templates, CallsUnknown body.2 error) ∨ CallsUnknown configs error := by
  rcases Logged.outcome_bind_eq_error.1 h with failed | ⟨_, -, h⟩
  · exact .inl (bodies_fails failed)
  · rcases Logged.outcome_bind_eq_error.1 h with failed | ⟨_, -, h⟩
    · exact .inr (entries_fails failed)
    · rcases Logged.outcome_bind_eq_error.1 h with failed | ⟨_, -, h⟩
      · cases failed
      · cases h

end Rendering

/-! ## Lines of a document -/

/-- The text has a line of that number, counted from one. -/
def IsLineOf (text : String) (line : Nat) : Prop :=
  1 ≤ line ∧ line ≤ (Text.lines text.toList).length

instance (text : String) (line : Nat) : Decidable (IsLineOf text line) :=
  inferInstanceAs (Decidable (_ ∧ _))

/-- Lines in the order in which they are numbered. -/
def Ascending (lines : List SourceLine) : Prop := (lines.map SourceLine.number).Pairwise (· < ·)

theorem Ascending.sublist {lines part : List SourceLine} (h : Ascending lines)
    (sub : part.Sublist lines) : Ascending part :=
  List.Pairwise.sublist (sub.map _) h

theorem Ascending.instantiate {template : Template} (h : Ascending template.body)
    (args : List String) : Ascending (template.instantiate args) := by
  unfold Ascending Template.instantiate
  rw [List.map_map]
  exact h

theorem SourceLine.ascending_numbered (texts : List String) : Ascending (numbered texts) := by
  rw [Ascending, List.pairwise_iff_getElem]
  intro i j _ _ before
  simpa [numbered] using before

theorem SourceLine.number_of_mem {texts : List String} {line : SourceLine}
    (h : line ∈ numbered texts) : 1 ≤ line.number ∧ line.number ≤ texts.length := by
  obtain ⟨i, bound, rfl⟩ := List.mem_mapIdx.1 h
  exact ⟨Nat.le_add_left 1 i, bound⟩

namespace Document

variable {name text : String} {document : Document}

theorem ofText_fails {error : CompileError} (failed : ofText name text = .error error) :
    ∃ path reason, error = .unsupportedSourceFormat path reason := by
  simp only [ofText] at failed
  split at failed
  · cases failed
  · cases failed
    exact ⟨_, _, rfl⟩

theorem lines_of_ofText (read : ofText name text = .ok document) :
    ∃ texts, document.lines = SourceLine.numbered texts ∧
      texts.length = (Text.lines text.toList).length := by
  simp only [ofText] at read
  split at read
  · cases read
    exact ⟨_, rfl, List.length_map _⟩
  · cases read

theorem regionFrom_sublist (region current : Region) (lines : List SourceLine) :
    (regionFrom region current lines).Sublist lines := by
  induction lines generalizing current with
  | nil => exact List.Sublist.refl _
  | cons line rest ih =>
    simp only [regionFrom]
    split
    · exact (ih _).cons line
    · split
      · exact (ih _).cons_cons line
      · exact (ih _).cons line

theorem region_sublist (document : Document) (region : Region) :
    (document.region region).Sublist document.lines := regionFrom_sublist ..

theorem forall_region {known : Nat → Prop} (numbers : ∀ line ∈ document.lines, known line.number)
    (region : Region) : ∀ line ∈ document.region region, known line.number :=
  fun line hline => numbers line ((document.region_sublist region).subset hline)

theorem isLineOf (read : ofText name text = .ok document) :
    ∀ line ∈ document.lines, IsLineOf text line.number := by
  obtain ⟨texts, lines, length⟩ := lines_of_ofText read
  intro line hline
  rw [IsLineOf, ← length]
  exact SourceLine.number_of_mem (lines ▸ hline)

theorem ascending (read : ofText name text = .ok document) : Ascending document.lines := by
  obtain ⟨texts, lines, -⟩ := lines_of_ofText read
  rw [lines]
  exact SourceLine.ascending_numbered texts

end Document
/-! ## Compilations -/

namespace Compilation

variable {known : Nat → Prop} {document : Document}

/-- Lines that are laid out: the configuration, and the body of a template with arguments put in. -/
def LaidOut (document : Document) (table : TemplateTable) (lines : List SourceLine) : Prop :=
  lines = document.region .config ∨
    ∃ template ∈ table, ∃ args, lines = template.instantiate args

theorem forall_body (numbers : ∀ line ∈ document.lines, known line.number)
    (collected : (TemplateTable.collect (document.region .template)).outcome = .ok table) :
    ∀ template ∈ table, ∀ line ∈ template.body, known line.number :=
  fun template htemplate line hline => Document.forall_region numbers .template line
    ((TemplateTable.body_sublist collected template htemplate).subset hline)

theorem blames_layoutBodies {laid : List SourceLine → Prop}
    (numbers : ∀ template ∈ table, ∀ line ∈ template.body, known line.number)
    (instances : ∀ template ∈ table, ∀ args, laid (template.instantiate args))
    (h : (layoutBodies rules table).outcome = .error error) : Blames rules known laid error := by
  induction table with
  | nil => cases h
  | cons template rest ih =>
    rw [List.forall_mem_cons] at numbers instances
    rcases Logged.outcome_bind_eq_error.1 h with failed | ⟨_, -, h⟩
    · exact Template.blames_layoutBody numbers.1 (template.instantiate_nil ▸ instances.1 []) failed
    · rcases Logged.outcome_bind_eq_error.1 h with failed | ⟨_, -, h⟩
      · exact ih numbers.2 instances.2 failed
      · cases h

theorem known_layoutBody {template : Template} {built : Built}
    (numbers : ∀ line ∈ template.body, known line.number)
    (h : (template.layoutBody rules).outcome = .ok built) :
    (∀ line ∈ fieldLines built.entries, known line) ∧
      ∀ problem ∈ built.problems, ∀ line ∈ problem.line?, known line := by
  obtain ⟨shown, hshown, h⟩ := Logged.outcome_bind_eq_ok.1 h
  obtain ⟨entries, hentries, h⟩ := Logged.outcome_bind_eq_ok.1 h
  obtain ⟨⟨layout, names⟩, hlayout, hentries⟩ := Logged.outcome_bind_eq_ok.1 hentries
  cases h
  cases hentries
  have ⟨fields, problems⟩ := Built.ofLines_known numbers hshown
  exact ⟨fun line hline => fields line (Layout.lines_ofEntries hlayout hline), problems⟩

theorem known_layoutBodies {bodies : List (Template × List Entry)} {problems : List CompileError}
    (numbers : ∀ template ∈ table, ∀ line ∈ template.body, known line.number)
    (h : (layoutBodies rules table).outcome = .ok (bodies, problems)) :
    (∀ body ∈ bodies, ∀ line ∈ fieldLines body.2, known line) ∧
      ∀ problem ∈ problems, ∀ line ∈ problem.line?, known line := by
  induction table generalizing bodies problems with
  | nil =>
    cases h
    simp
  | cons template rest ih =>
    rw [List.forall_mem_cons] at numbers
    obtain ⟨built, hbuilt, h⟩ := Logged.outcome_bind_eq_ok.1 h
    obtain ⟨⟨bodies', problems'⟩, hrest, h⟩ := Logged.outcome_bind_eq_ok.1 h
    cases h
    have ⟨fields, first⟩ := known_layoutBody numbers.1 hbuilt
    have ⟨later_fields, later⟩ := ih numbers.2 hrest
    exact ⟨List.forall_mem_cons.2 ⟨fields, later_fields⟩,
      List.forall_mem_append.2 ⟨first, later⟩⟩

theorem blames_callsUnknown {laid : List SourceLine → Prop} {stream : List Entry}
    (fields : ∀ line ∈ fieldLines stream, known line)
    (h : Rendering.CallsUnknown stream error) : Blames rules known laid error := by
  obtain ⟨line, hline, name, rfl⟩ := h
  exact .line rfl (fields line hline) nofun

/-- A compilation fails where templates are collected or for what is laid out. -/
theorem ofDocument_fails (numbers : ∀ line ∈ document.lines, known line.number)
    (h : (ofDocument rules document).outcome = .error error) :
    (TemplateTable.collect (document.region .template)).outcome = .error error ∨
    ∃ table, (TemplateTable.collect (document.region .template)).outcome = .ok table ∧
      Blames rules known (LaidOut document table) error := by
  rcases Logged.outcome_bind_eq_error.1 h with failed | ⟨table, collected, h⟩
  · exact .inl failed
  · refine .inr ⟨table, collected, ?_⟩
    have configs := Document.forall_region numbers .config
    have bodies := forall_body numbers collected
    have instances : ∀ template ∈ table, ∀ args,
        LaidOut document table (template.instantiate args) :=
      fun template htemplate args => .inr ⟨template, htemplate, args, rfl⟩
    rcases Logged.outcome_bind_eq_error.1 h with failed | ⟨built, builds, h⟩
    · exact Built.blames_ofLines configs failed
    · rcases Logged.outcome_bind_eq_error.1 h with failed | ⟨⟨shown, problems⟩, hbodies, h⟩
      · exact blames_layoutBodies bodies instances failed
      · rcases Logged.outcome_bind_eq_error.1 h with failed | ⟨⟨layout, pool⟩, hlayout, h⟩
        · refine Layout.blames_ofEntries (.inl rfl) configs builds ?_ failed
          rintro size ⟨⟩ call line error here failed
          exact TemplateTable.blames_expandedSize bodies instances here failed
        · rcases Logged.outcome_bind_eq_error.1 h with failed | ⟨_, -, h⟩
          · rcases Rendering.schema_fails failed with ⟨body, hbody, calls⟩ | calls
            · exact blames_callsUnknown ((known_layoutBodies bodies hbodies).1 body hbody) calls
            · refine blames_callsUnknown (fun line hline => ?_) calls
              exact (Built.ofLines_known configs builds).1 line
                (Layout.lines_ofEntries hlayout hline)
          · rcases Logged.outcome_bind_eq_error.1 h with failed | ⟨_, -, h⟩
            · cases failed
            · cases h

/-- The lines of what a compilation gives are lines of the text. -/
theorem known_of_ofDocument {compilation : Compilation}
    (numbers : ∀ line ∈ document.lines, known line.number)
    (h : (ofDocument rules document).outcome = .ok compilation) :
    (∀ problem ∈ compilation.problems, ∀ line ∈ problem.line?, known line) ∧
    (∀ template ∈ compilation.schema.templates, ∀ line ∈ fieldLines template.fields, known line) ∧
    ∀ line ∈ fieldLines compilation.schema.configs, known line := by
  obtain ⟨table, collected, h⟩ := Logged.outcome_bind_eq_ok.1 h
  obtain ⟨built, builds, h⟩ := Logged.outcome_bind_eq_ok.1 h
  obtain ⟨⟨bodies, problems⟩, hbodies, h⟩ := Logged.outcome_bind_eq_ok.1 h
  obtain ⟨⟨layout, pool⟩, hlayout, h⟩ := Logged.outcome_bind_eq_ok.1 h
  obtain ⟨documents, -, h⟩ := Logged.outcome_bind_eq_ok.1 h
  obtain ⟨_, -, h⟩ := Logged.outcome_bind_eq_ok.1 h
  cases h
  have ⟨fields, first⟩ := Built.ofLines_known (Document.forall_region numbers .config) builds
  have ⟨shown, later⟩ := known_layoutBodies (forall_body numbers collected) hbodies
  refine ⟨List.forall_mem_append.2 ⟨first, later⟩, fun template htemplate => ?_,
    fun line hline => fields line (Layout.lines_ofEntries hlayout hline)⟩
  obtain ⟨body, hbody, rfl⟩ := List.mem_map.1 htemplate
  exact shown body hbody

/-! ## Reports of brackets -/

/-- Where an include bracket is reported that closes nothing. -/
inductive BracketReport (rules : Rules) (document : Document) : Nat → Prop
  /-- Among the lines of templates it is reported where it stands. -/
  | collecting {before : List SourceLine} {close : SourceLine}
      (nothing : ClosesNothing (document.region .template) before close)
      (failed : (TemplateTable.collect (document.region .template)).outcome =
        .error (.unbalancedInclude close.number)) :
      BracketReport rules document close.number
  /-- Among lines that are laid out it is reported too early, on the line of the last field before
  it or on line 0. -/
  | laying {table : TemplateTable} {lines before : List SourceLine} {close : SourceLine}
      {shown : Built}
      (collected : (TemplateTable.collect (document.region .template)).outcome = .ok table)
      (laid : LaidOut document table lines) (nothing : ClosesNothing lines before close)
      (builds : (Built.ofLines rules before).outcome = .ok shown)
      (early : lastLine 0 shown.entries < close.number) :
      BracketReport rules document (lastLine 0 shown.entries)

theorem LaidOut.number_mem {lines : List SourceLine} (laid : LaidOut document table lines)
    (collected : (TemplateTable.collect (document.region .template)).outcome = .ok table)
    (numbers : ∀ line ∈ document.lines, known line.number) : ∀ line ∈ lines, known line.number := by
  rcases laid with rfl | ⟨template, htemplate, args, rfl⟩
  · exact Document.forall_region numbers .config
  · exact TemplateTable.instantiate_numbers (forall_body numbers collected template htemplate) args

theorem LaidOut.ascending {lines : List SourceLine} (laid : LaidOut document table lines)
    (collected : (TemplateTable.collect (document.region .template)).outcome = .ok table)
    (order : Ascending document.lines) : Ascending lines := by
  rcases laid with rfl | ⟨template, htemplate, args, rfl⟩
  · exact order.sublist (document.region_sublist _)
  · exact Ascending.instantiate (order.sublist
      ((TemplateTable.body_sublist collected template htemplate).trans
        (document.region_sublist _))) args

/-- The last field before a bracket stands on an earlier line. -/
theorem lastLine_lt {lines before : List SourceLine} {close : SourceLine} {shown : Built}
    (order : Ascending lines) (numbers : ∀ line ∈ lines, 1 ≤ line.number)
    (nothing : ClosesNothing lines before close)
    (builds : (Built.ofLines rules before).outcome = .ok shown) :
    lastLine 0 shown.entries < close.number := by
  obtain ⟨after, rfl⟩ := nothing.found
  have earlier : ∀ line ∈ before, line.number < close.number := by
    intro line hline
    rw [Ascending, List.map_append, List.pairwise_append] at order
    exact order.2.2 _ (List.mem_map_of_mem hline) _ List.mem_cons_self
  rcases lastLine_eq_or_mem 0 shown.entries with none_before | field
  · rw [none_before]
    exact numbers close (by simp)
  · have fields : ∀ line ∈ fieldLines shown.entries, line < close.number :=
      (Built.ofLines_known earlier builds).1
    exact fields _ field

/-- A known line is blamed, or line 0. -/
theorem line_of_blames (numbers : ∀ line ∈ document.lines, known line.number)
    (collected : (TemplateTable.collect (document.region .template)).outcome = .ok table)
    (blames : Blames rules known (LaidOut document table) error) :
    ∀ line ∈ error.line?, known line ∨ error = .unbalancedInclude 0 := by
  intro line hline
  cases blames with
  | line at_line known_line =>
    cases hline.symm.trans at_line
    exact .inl known_line
  | @bracket lines before close shown laid nothing builds =>
    cases hline
    obtain ⟨after, rfl⟩ := nothing.found
    have earlier : ∀ line ∈ before, known line.number := fun line hline =>
      laid.number_mem collected numbers line (List.mem_append_left _ hline)
    rcases lastLine_eq_or_mem 0 shown.entries with none_before | field
    · exact .inr (congrArg CompileError.unbalancedInclude none_before)
    · exact .inl ((Built.ofLines_known earlier builds).1 _ field)

theorem report_of_blames {number : Nat} (numbers : ∀ line ∈ document.lines, 1 ≤ line.number)
    (order : Ascending document.lines)
    (collected : (TemplateTable.collect (document.region .template)).outcome = .ok table)
    (blames : Blames rules known (LaidOut document table) (.unbalancedInclude number)) :
    BracketReport rules document number := by
  cases blames with
  | line _ _ other => exact absurd rfl (other number)
  | bracket laid nothing builds =>
    have early := lastLine_lt (laid.ascending collected order) (laid.number_mem collected numbers)
      nothing builds
    exact .laying collected laid nothing builds early

/-- All lines that a compilation names are lines of the text, but for the line of a bracket that
closes nothing and stands behind no field. The line of such a bracket is named where templates are
collected, and an earlier one where lines are laid out. -/
theorem ofText_lines (rules : Rules) (name text : String) :
    (∀ error, (ofText rules name text).outcome = .error error →
      ∀ line ∈ error.line?, IsLineOf text line ∨ error = .unbalancedInclude 0) ∧
    (∀ line, (ofText rules name text).outcome = .error (.unbalancedInclude line) →
      ∃ document, Document.ofText name text = .ok document ∧
        BracketReport rules document line) ∧
    ∀ compilation, (ofText rules name text).outcome = .ok compilation →
      (∀ problem ∈ compilation.problems, ∀ line ∈ problem.line?, IsLineOf text line) ∧
      (∀ template ∈ compilation.schema.templates,
        ∀ line ∈ fieldLines template.fields, IsLineOf text line) ∧
      ∀ line ∈ fieldLines compilation.schema.configs, IsLineOf text line := by
  cases read : Document.ofText name text with
  | error error =>
    obtain ⟨path, reason, rfl⟩ := Document.ofText_fails read
    have failed : (ofText rules name text).outcome =
        .error (.unsupportedSourceFormat path reason) := by
      rw [ofText, read]
      rfl
    rw [failed]
    refine ⟨fun error same line hline => ?_, fun line same => ?_, fun compilation same => ?_⟩
    · cases same
      cases hline
    · cases same
    · cases same
  | ok document =>
    have numbers := Document.isLineOf read
    rw [ofText_eq_ofDocument read]
    refine ⟨fun error failed => ?_, fun line failed => ⟨document, rfl, ?_⟩,
      fun compilation h => known_of_ofDocument numbers h⟩
    · rcases ofDocument_fails numbers failed with failed | ⟨table, collected, blames⟩
      · exact fun line hline => .inl (TemplateTable.collect_known
          (Document.forall_region numbers .template) failed line hline)
      · exact line_of_blames numbers collected blames
    · rcases ofDocument_fails numbers failed with failed | ⟨table, collected, blames⟩
      · obtain ⟨before, close, nothing, rfl⟩ := TemplateTable.collect_unbalanced failed
        exact .collecting nothing failed
      · exact report_of_blames (fun line hline => (numbers line hline).1)
          (Document.ascending read) collected blames

/-- A bracket that closes nothing, behind a field. -/
def fieldThenClose : String := "\n".intercalate ["[PcdsDynamicVpd.Upd]", "A|*|4|0", "# !>"]

theorem fieldThenClose_lines :
    (ofText {} "board.dsc" fieldThenClose).outcome = .error (.unbalancedInclude 2) ∧
    IsLineOf fieldThenClose 2 ∧
    ∃ document, Document.ofText "board.dsc" fieldThenClose = .ok document ∧
      BracketReport {} document 2 := by
  have failed : (ofText {} "board.dsc" fieldThenClose).outcome = .error (.unbalancedInclude 2) := by
    decide +kernel
  have ⟨errors, brackets, _⟩ := ofText_lines {} "board.dsc" fieldThenClose
  exact ⟨failed, (errors _ failed 2 rfl).resolve_right nofun, brackets 2 failed⟩

/-- A bracket that closes nothing and stands behind no field. -/
def closeOnly : String := "\n".intercalate ["[PcdsDynamicVpd.Upd]", "# !>"]

/-- The bracket stands on line 2 of the text, and line 0 is blamed. -/
theorem closeOnly_blames_no_line :
    (ofText {} "board.dsc" closeOnly).outcome = .error (.unbalancedInclude 0) ∧
    ¬ IsLineOf closeOnly 0 ∧
    (Document.ofText "board.dsc" closeOnly).toOption.map (·.region .config) =
      some [⟨2, "# !>"⟩] ∧
    LineEvent.ofLine ⟨2, "# !>"⟩ = .ok .includeClose := by
  refine ⟨?_, ?_, ?_, ?_⟩ <;> decide +kernel

end Compilation
end BoardSchema
