import BoardSchema.Proofs.Distinct
import BoardSchema.Proofs.Template.Lines
import Mathlib.Data.Option.Basic
/-!
What is collected from lines. Templates are regions of lines between two bounds, which follow each
other with gaps in between. Lines are collected exactly if they are such a sequence, can all be read,
and close no include file that is not open; otherwise the first line that cannot go on is blamed. The
table has a place for each name in the order of completion, with the region that was completed last.
-/
namespace BoardSchema

/-! ## Regions of lines -/

namespace SourceLine

/-- The bound of a template on a line. -/
def bound? (line : SourceLine) : Option Template.Bound :=
  match LineEvent.ofLine line with
  | .ok event => Template.boundOf? event
  | .error _ => none

/-- A line that opens or closes an include file. -/
def isBracket (line : SourceLine) : Bool :=
  match LineEvent.ofLine line with
  | .ok (.includeOpen _) => true
  | .ok .includeClose => true
  | _ => false

/-- A line that can be read. -/
def Reads (line : SourceLine) : Prop := ∃ event, LineEvent.ofLine line = .ok event

end SourceLine

namespace Template

/-- What lines between the bounds of a template leave for its body. -/
def bodyOf (lines : List SourceLine) : List SourceLine :=
  lines.filter fun line => !line.isBracket && line.bound?.isNone

/-- The innermost include file that is open behind lines. -/
def fileBehind (lines : List SourceLine) : String :=
  ((filesBehind (some []) lines).bind List.head?).getD topLevel

/-- Lines between the bounds of a template have no bounds but starts of the same one. -/
def Inside (name : String) (lines : List SourceLine) : Prop :=
  ∀ line ∈ lines, ∀ bound ∈ line.bound?, bound = .start name

/-- Lines are regions of templates, each from its start to its end, with gaps between them. -/
inductive Completes : List SourceLine → List Template → Prop
  | nil : Completes [] []
  | gap {lines : List SourceLine} {line : SourceLine} {templates : List Template}
      (before : Completes lines templates) (plain : line.bound? = none) :
      Completes (lines ++ [line]) templates
  | region {lines inner : List SourceLine} {first last : SourceLine} {templates : List Template}
      {name : String} (before : Completes lines templates)
      (starts : first.bound? = some (.start name)) (inside : Inside name inner)
      (stops : last.bound? = some (.stop name)) :
      Completes (lines ++ first :: inner ++ [last])
        (templates ++ [⟨name, fileBehind lines, first.number, bodyOf inner⟩])

/-- Behind complete regions a template is open. -/
inductive Opens : List SourceLine → List Template → Template → Prop
  | region {lines inner : List SourceLine} {first : SourceLine} {templates : List Template}
      {name : String} (before : Completes lines templates)
      (starts : first.bound? = some (.start name)) (inside : Inside name inner) :
      Opens (lines ++ first :: inner) templates
        ⟨name, fileBehind lines, first.number, bodyOf inner⟩

end Template

namespace TemplateTable

/-- A table of templates that were completed: each name once, in the order in which the names came up
first, and for each name the last template of this name. -/
structure Tabulates (templates : List Template) (table : TemplateTable) : Prop where
  distinct : table.names.Nodup
  names_eq : table.names = (templates.map Template.name).eraseDups
  get_eq : ∀ name, table.get? name = templates.reverse.find? (·.name = name)

/-- The table of templates that are completed one after the other. -/
def tabulate (templates : List Template) : TemplateTable := templates.foldl insert []

/-- Lines behind which nothing was wrong yet. -/
structure Sound (lines : List SourceLine) : Prop where
  reads : ∀ line ∈ lines, line.Reads
  balanced : ∀ before close, ¬ ClosesNothing lines before close
  regions : ∃ templates, Template.Completes lines templates ∨
    ∃ template, Template.Opens lines templates template

/-- What is wrong with a line behind others. -/
inductive Violates (before : List SourceLine) (line : SourceLine) : CompileError → Prop
  | unread {error : CompileError} (fails : LineEvent.ofLine line = .error error) :
      Violates before line error
  | unbalanced (closes : LineEvent.ofLine line = .ok .includeClose)
      (none_open : filesBehind (some []) before = some []) :
      Violates before line (.unbalancedInclude line.number)
  | reopened {templates : List Template} {template : Template} {name : String}
      (opens : Template.Opens before templates template)
      (starts : line.bound? = some (.start name)) (other : name ≠ template.name) :
      Violates before line (.templateReopened line.number name template.name)
  | unmatched {name : String} (stops : line.bound? = some (.stop name))
      (closed : ∀ templates template, Template.Opens before templates template →
        template.name ≠ name) :
      Violates before line (.unmatchedTemplateEnd line.number name)

/-- The first line that is wrong, or else the template that is still open at the end. -/
inductive FirstViolation (lines : List SourceLine) : CompileError → Prop
  | line {before after : List SourceLine} {line : SourceLine} {error : CompileError}
      (found : lines = before ++ line :: after) (sound : Sound before)
      (violates : Violates before line error) : FirstViolation lines error
  | unterminated {templates : List Template} {template : Template} (sound : Sound lines)
      (opens : Template.Opens lines templates template) :
      FirstViolation lines (.unterminatedTemplate template.line template.name)

/-! ## Tables -/

theorem tabulate_concat (templates : List Template) (new : Template) :
    tabulate (templates ++ [new]) = (tabulate templates).insert new := by
  simp [tabulate]

theorem tabulates_tabulate (templates : List Template) :
    Tabulates templates (tabulate templates) := by
  have same : insert = putNamed Template.name := funext₂ insert_eq_putNamed
  obtain ⟨distinct, names_eq, find_eq⟩ := keepsLast_foldl Template.name templates
  rw [← same] at distinct names_eq find_eq
  exact ⟨distinct, names_eq, find_eq⟩

/-- Where names differ, each template is found under its own. -/
theorem get?_of_mem {table : TemplateTable} {template : Template} (distinct : table.names.Nodup)
    (found : template ∈ table) : table.get? template.name = some template := by
  induction table with
  | nil => cases found
  | cons old rest ih =>
    obtain ⟨fresh, distinct_rest⟩ := List.nodup_cons.1 distinct
    rcases List.mem_cons.1 found with rfl | found
    · simp [get?]
    · have other : old.name ≠ template.name :=
        fun same => fresh (same ▸ List.mem_map_of_mem found)
      simpa [get?, other] using ih distinct_rest found

theorem Tabulates.unique {templates : List Template} {table table' : TemplateTable}
    (h : Tabulates templates table) (h' : Tabulates templates table') : table = table' := by
  -- Each entry of a table is what is found under its name.
  have entries {table : TemplateTable} (distinct : table.names.Nodup) :
      table.map some = table.names.map table.get? := by
    rw [names, List.map_map]
    exact List.map_congr_left fun template found => (get?_of_mem distinct found).symm
  have same : table.map some = table'.map some := by
    rw [entries h.distinct, entries h'.distinct, h.names_eq, h'.names_eq]
    exact List.map_congr_left fun name _ => (h.get_eq name).trans (h'.get_eq name).symm
  exact List.map_injective_iff.2 (Option.some_injective _) same

end TemplateTable

/-! ## Regions that grow -/

/-- What is found among lines is the last of them, or is found without the last. -/
theorem split_concat {lines before after : List SourceLine} {line found : SourceLine}
    (split : lines ++ [line] = before ++ found :: after) :
    before = lines ∧ found = line ∧ after = [] ∨
      ∃ rest, after = rest ++ [line] ∧ lines = before ++ found :: rest := by
  rcases List.eq_nil_or_concat' after with rfl | ⟨rest, last, rfl⟩
  · obtain ⟨rfl, rfl⟩ := List.append_singleton_inj.1 split
    exact .inl ⟨rfl, rfl, rfl⟩
  · have split : lines ++ [line] = before ++ found :: rest ++ [last] := by simpa using split
    obtain ⟨rfl, rfl⟩ := List.append_singleton_inj.1 split
    exact .inr ⟨rest, rfl, rfl⟩

namespace Template

variable {lines inner : List SourceLine} {line : SourceLine} {templates : List Template}
  {template : Template} {name : String}

theorem bodyOf_concat (lines : List SourceLine) (line : SourceLine) :
    bodyOf (lines ++ [line]) = bodyOf lines ++ bodyOf [line] := List.filter_append ..

theorem Opens.stop (opens : Opens lines templates template)
    (stops : line.bound? = some (.stop template.name)) :
    Completes (lines ++ [line]) (templates ++ [template]) := by
  cases opens with
  | region before starts inside => exact .region before starts inside stops

/-- Behind one more line the regions are complete if that line is outside of them or ends the last. -/
theorem completes_concat_iff : Completes (lines ++ [line]) templates ↔
    Completes lines templates ∧ line.bound? = none ∨
      ∃ earlier template, templates = earlier ++ [template] ∧ Opens lines earlier template ∧
        line.bound? = some (.stop template.name) := by
  constructor
  · intro completes
    generalize whole : lines ++ [line] = all at completes
    cases completes with
    | nil => simp at whole
    | gap before plain =>
      obtain ⟨rfl, rfl⟩ := List.append_singleton_inj.1 whole
      exact .inl ⟨before, plain⟩
    | region before starts inside stops =>
      obtain ⟨rfl, rfl⟩ := List.append_singleton_inj.1 whole
      exact .inr ⟨_, _, rfl, .region before starts inside, stops⟩
  · rintro (⟨before, plain⟩ | ⟨earlier, template, rfl, opens, stops⟩)
    · exact .gap before plain
    · exact opens.stop stops

/-- The template that is open behind one more line starts there, or was open and goes on. -/
theorem opens_concat_iff : Opens (lines ++ [line]) templates template ↔
    (∃ name, Completes lines templates ∧ line.bound? = some (.start name) ∧
      template = ⟨name, fileBehind lines, line.number, []⟩) ∨
    ∃ body, Opens lines templates { template with body } ∧
      (∀ bound ∈ line.bound?, bound = .start template.name) ∧
      template.body = body ++ bodyOf [line] := by
  constructor
  · intro opens
    generalize whole : lines ++ [line] = all at opens
    cases opens with
    | @region earlier inner first _ name before starts inside =>
      rcases split_concat whole with ⟨rfl, rfl, rfl⟩ | ⟨inner, rfl, rfl⟩
      · exact .inl ⟨name, before, starts, rfl⟩
      · have inside_last := inside line (by simp)
        have inside_inner : Inside name inner := fun other hother => inside other (by simp [hother])
        exact .inr ⟨bodyOf inner, .region before starts inside_inner, inside_last, bodyOf_concat ..⟩
  · rintro (⟨name, before, starts, rfl⟩ | ⟨body, opens, goes_on, body_eq⟩)
    · exact .region before starts (by simp [Inside])
    · obtain ⟨name, file, number, whole⟩ := template
      dsimp only at opens goes_on body_eq
      generalize opened : (⟨name, file, number, body⟩ : Template) = shorter at opens
      cases opens with
      | @region earlier inner first _ _ before starts inside =>
        cases opened
        have inside_all : Inside name (inner ++ [line]) := by
          intro other hother
          rcases List.mem_append.1 hother with hother | hother
          · exact inside other hother
          · rwa [List.mem_singleton.1 hother]
        have longer := Opens.region before starts inside_all
        rw [bodyOf_concat, ← body_eq] at longer
        simpa using longer

end Template

/-! ## A single line -/

namespace SourceLine

variable {line : SourceLine} {event : LineEvent}

theorem files_none (line : SourceLine) : line.files none = none := by
  unfold files
  split <;> rfl

theorem bound?_of_read (read : LineEvent.ofLine line = .ok event) :
    line.bound? = Template.boundOf? event := by
  rw [bound?, read]

theorem bodyOf_of_bound {bound : Template.Bound} (bounds : line.bound? = some bound) :
    Template.bodyOf [line] = [] := by
  simp [Template.bodyOf, bounds]

theorem bodyOf_of_plain (read : LineEvent.ofLine line = .ok event) (plain : event.Plain)
    (none : line.bound? = none) : Template.bodyOf [line] = [line] := by
  have outside : line.isBracket = false := by
    unfold isBracket
    rw [read]
    split
    · next path same => exact absurd (Except.ok.inj same) (plain.1 path)
    · next same => exact absurd (Except.ok.inj same) plain.2
    · rfl
  simp [Template.bodyOf, outside, none]

end SourceLine

namespace TemplateTable
namespace Collection

variable {line : SourceLine} {c next : Collection}

/-- What a line does to the templates that are complete and the one that is open. -/
inductive Turns (line : SourceLine) (c next : Collection) : Prop
  | gap (closed : c.current = none) (plain : line.bound? = none)
      (complete : next.complete = c.complete) (still : next.current = none)
  | start {name : String} (closed : c.current = none) (starts : line.bound? = some (.start name))
      (complete : next.complete = c.complete)
      (opened : next.current =
        some ⟨name, c.includes.head?.getD Template.topLevel, line.number, []⟩)
  | inside {template : Template} (opened : c.current = some template)
      (goes_on : ∀ bound ∈ line.bound?, bound = .start template.name)
      (complete : next.complete = c.complete)
      (still : next.current =
        some { template with body := template.body ++ Template.bodyOf [line] })
  | stop {template : Template} (opened : c.current = some template)
      (stops : line.bound? = some (.stop template.name))
      (complete : next.complete = c.complete.insert template) (closed : next.current = none)

/-- What is wrong with a line that is not taken in. -/
inductive Refuses (line : SourceLine) (c : Collection) : CompileError → Prop
  | unread {error : CompileError} (fails : LineEvent.ofLine line = .error error) :
      Refuses line c error
  | unbalanced (closes : LineEvent.ofLine line = .ok .includeClose) (none_open : c.includes = []) :
      Refuses line c (.unbalancedInclude line.number)
  | reopened {template : Template} {name : String} (opened : c.current = some template)
      (starts : line.bound? = some (.start name)) (other : name ≠ template.name) :
      Refuses line c (.templateReopened line.number name template.name)
  | unmatched {name : String} (stops : line.bound? = some (.stop name))
      (closed : ∀ template ∈ c.current, template.name ≠ name) :
      Refuses line c (.unmatchedTemplateEnd line.number name)

/-- A bracket turns nothing. -/
theorem turns_bracket {event : LineEvent} {includes : List String}
    (read : LineEvent.ofLine line = .ok event) (bracket : line.isBracket)
    (none : Template.boundOf? event = none) : Turns line c { c with includes } := by
  have plain : line.bound? = .none := (line.bound?_of_read read).trans none
  cases closed : c.current with
  | none => exact .gap closed plain rfl rfl
  | some template =>
    refine .inside closed (by simp [plain]) rfl ?_
    simp [Template.bodyOf, bracket]

theorem keep_turns {event : LineEvent} (read : LineEvent.ofLine line = .ok event)
    (plain : event.Plain) (none : line.bound? = .none) : ∃ next,
      (c.keep line event).outcome = .ok next ∧ next.includes = c.includes ∧ Turns line c next := by
  cases current : c.current with
  | none =>
    refine ⟨c, ?_, rfl, .gap current none rfl current⟩
    cases event <;>
    · simp only [keep, current]
      rfl
  | some template =>
    refine ⟨{ c with current := some { template with body := template.body ++ [line] } }, ?_, rfl,
      .inside current (by simp [none]) rfl ?_⟩
    · simp [keep, current]
    · rw [line.bodyOf_of_plain read plain none]

theorem start_cases {name : String} (starts : line.bound? = some (.start name)) :
    (∃ next, (c.start line name).outcome = .ok next ∧ next.includes = c.includes ∧
      Turns line c next) ∨
    ∃ error, (c.start line name).outcome = .error error ∧ Refuses line c error := by
  cases current : c.current with
  | none =>
    let template : Template := ⟨name, c.includes.head?.getD Template.topLevel, line.number, []⟩
    refine .inl ⟨{ c with current := some template }, ?_, rfl, .start current starts rfl rfl⟩
    simp only [start, current]
    rfl
  | some template =>
    by_cases same : name = template.name
    · refine .inl ⟨c, ?_, rfl, .inside current ?_ rfl ?_⟩
      · simp only [start, current, if_pos same]
        rfl
      · rw [starts, same]
        rintro bound ⟨⟩
        rfl
      · simp [SourceLine.bodyOf_of_bound starts, current]
    · refine .inr ⟨_, ?_, .reopened current starts same⟩
      simp only [start, current, if_neg same]
      rfl

theorem stop_cases {name : String} (stops : line.bound? = some (.stop name)) :
    (∃ next, (c.stop line name).outcome = .ok next ∧ next.includes = c.includes ∧
      Turns line c next) ∨
    ∃ error, (c.stop line name).outcome = .error error ∧ Refuses line c error := by
  cases current : c.current with
  | none =>
    refine .inr ⟨_, ?_, .unmatched stops (by simp [current])⟩
    simp only [stop, current]
    rfl
  | some template =>
    by_cases same : name = template.name
    · refine .inl ⟨{ c with complete := c.complete.insert template, current := none }, ?_, rfl,
        .stop current (same ▸ stops) rfl rfl⟩
      simp only [stop, current, if_pos same]
      rfl
    · refine .inr ⟨_, ?_, .unmatched stops (by simpa [current] using Ne.symm same)⟩
      simp only [stop, current, if_neg same]
      rfl

/-- A line is taken in or refused. -/
theorem add_cases (c : Collection) (line : SourceLine) :
    (∃ next, (c.add line).outcome = .ok next ∧ line.Reads ∧
      line.files (some c.includes) = some next.includes ∧ Turns line c next) ∨
    ∃ error, (c.add line).outcome = .error error ∧ Refuses line c error := by
  cases read : LineEvent.ofLine line with
  | error error =>
    refine .inr ⟨error, ?_, .unread read⟩
    unfold add
    rw [read]
    rfl
  | ok event =>
    have reads : line.Reads := ⟨event, read⟩
    rcases event.bracket_cases with ⟨path, rfl⟩ | rfl | plain
    · refine .inl ⟨{ c with includes := path :: c.includes }, ?_, reads, ?_, ?_⟩
      · unfold add
        rw [read]
        rfl
      · rw [SourceLine.files, read]
        rfl
      · exact turns_bracket read (by simp [SourceLine.isBracket, read]) rfl
    · rw [add_includeClose read]
      cases includes : c.includes with
      | nil => exact .inr ⟨_, rfl, .unbalanced read includes⟩
      | cons path outer =>
        refine .inl ⟨{ c with includes := outer }, rfl, reads, ?_, ?_⟩
        · rw [SourceLine.files, read]
          rfl
        · exact turns_bracket read (by simp [SourceLine.isBracket, read]) rfl
    · rw [add_of_plain read plain, SourceLine.files_of_plain read plain]
      have bound := SourceLine.bound?_of_read read
      cases hbound : Template.boundOf? event with
      | none =>
        obtain ⟨next, kept, includes, turns⟩ := keep_turns read plain (bound.trans hbound)
        exact .inl ⟨next, kept, reads, congrArg some includes.symm, turns⟩
      | some bound' =>
        cases bound' with
        | start name =>
          refine (start_cases (bound.trans hbound)).imp_left ?_
          rintro ⟨next, started, includes, turns⟩
          exact ⟨next, started, reads, congrArg some includes.symm, turns⟩
        | stop name =>
          refine (stop_cases (bound.trans hbound)).imp_left ?_
          rintro ⟨next, stopped, includes, turns⟩
          exact ⟨next, stopped, reads, congrArg some includes.symm, turns⟩

theorem Turns.not_refuses {error : CompileError} (turns : Turns line c next) (reads : line.Reads)
    (files : line.files (some c.includes) = some next.includes) : ¬ Refuses line c error := by
  intro refuses
  cases refuses with
  | unread fails =>
    obtain ⟨event, read⟩ := reads
    rw [fails] at read
    cases read
  | unbalanced closes none_open =>
    rw [SourceLine.files, closes, none_open] at files
    cases files
  | reopened opened starts other => cases turns <;> simp_all
  | unmatched stops closed => cases turns <;> simp_all

theorem Turns.unique {next' : Collection} (turns : Turns line c next) (turns' : Turns line c next')
    (includes : next.includes = next'.includes) : next = next' := by
  have parts : next.complete = next'.complete ∧ next.current = next'.current := by
    cases turns <;> cases turns' <;> simp_all
  obtain ⟨complete, files, current⟩ := next
  obtain ⟨rfl, rfl⟩ := parts
  cases includes
  rfl

theorem add_of_turns (reads : line.Reads)
    (files : line.files (some c.includes) = some next.includes) (turns : Turns line c next) :
    (c.add line).outcome = .ok next := by
  rcases add_cases c line with ⟨next', added, -, files', turns'⟩ | ⟨error, -, refuses⟩
  · rw [added, turns'.unique turns (Option.some.inj (files'.symm.trans files))]
  · exact absurd refuses (turns.not_refuses reads files)

theorem Refuses.unique {error error' : CompileError} (refuses : Refuses line c error)
    (refuses' : Refuses line c error') : error = error' := by
  cases refuses <;> cases refuses' <;> simp_all [SourceLine.bound?, Template.boundOf?]

theorem add_of_refuses {error : CompileError} (refuses : Refuses line c error) :
    (c.add line).outcome = .error error := by
  rcases add_cases c line with ⟨next, -, reads, files, turns⟩ | ⟨error', failed, refuses'⟩
  · exact absurd refuses (turns.not_refuses reads files)
  · rw [failed, refuses'.unique refuses]

/-! ## Many lines -/

variable {lines : List SourceLine}

/-- Where the collection of lines stands behind them. -/
structure Standing (lines : List SourceLine) (c : Collection) : Prop where
  reads : ∀ line ∈ lines, line.Reads
  files : filesBehind (some []) lines = some c.includes
  regions : ∃ templates, c.complete = tabulate templates ∧
    (c.current = none ∧ Template.Completes lines templates ∨
      ∃ template, c.current = some template ∧ Template.Opens lines templates template)

theorem filesBehind_concat (lines : List SourceLine) (line : SourceLine) :
    filesBehind (some []) (lines ++ [line]) = line.files (filesBehind (some []) lines) := by
  simp [filesBehind]

/-- Where the open include files are known, they were known one line earlier. -/
theorem filesBehind_back {includes : List String}
    (files : filesBehind (some []) (lines ++ [line]) = some includes) :
    ∃ earlier, filesBehind (some []) lines = some earlier ∧
      line.files (some earlier) = some includes := by
  rw [filesBehind_concat] at files
  cases before : filesBehind (some []) lines with
  | none =>
    rw [before, SourceLine.files_none] at files
    cases files
  | some earlier => exact ⟨earlier, rfl, before ▸ files⟩

theorem Standing.fileBehind_eq (standing : Standing lines c) :
    Template.fileBehind lines = c.includes.head?.getD Template.topLevel := by
  rw [Template.fileBehind, standing.files]
  rfl

theorem standing_nil : Standing [] c ↔ c = {} := by
  constructor
  · rintro ⟨-, files, templates, complete, regions⟩
    obtain ⟨closed, completes⟩ | ⟨template, -, opens⟩ := regions
    · generalize whole : ([] : List SourceLine) = lines at completes
      cases completes with
      | nil =>
        obtain ⟨table, includes, current⟩ := c
        cases files
        cases closed
        cases complete
        rfl
      | gap => simp at whole
      | region => simp at whole
    · generalize whole : ([] : List SourceLine) = lines at opens
      cases opens
      simp at whole
  · rintro rfl
    exact ⟨by simp, rfl, [], rfl, .inl ⟨rfl, .nil⟩⟩

theorem Standing.completes (standing : Standing lines c) (closed : c.current = none) :
    ∃ templates, c.complete = tabulate templates ∧ Template.Completes lines templates := by
  obtain ⟨templates, complete, regions⟩ := standing.regions
  obtain ⟨-, completes⟩ := regions.resolve_right (by simp [closed])
  exact ⟨templates, complete, completes⟩

theorem Standing.opens {template : Template} (standing : Standing lines c)
    (opened : c.current = some template) :
    ∃ templates, c.complete = tabulate templates ∧ Template.Opens lines templates template := by
  obtain ⟨templates, complete, regions⟩ := standing.regions
  obtain ⟨template', opened', opens⟩ := regions.resolve_left (by simp [opened])
  obtain rfl : template = template' := Option.some.inj (opened.symm.trans opened')
  exact ⟨templates, complete, opens⟩

theorem Standing.step (standing : Standing lines c) (reads : line.Reads)
    (files : line.files (some c.includes) = some next.includes) (turns : Turns line c next) :
    Standing (lines ++ [line]) next := by
  refine ⟨?_, by rw [filesBehind_concat, standing.files, files], ?_⟩
  · exact List.forall_mem_append.2 ⟨standing.reads, by simpa using reads⟩
  cases turns with
  | gap closed plain complete' still =>
    obtain ⟨templates, complete, before⟩ := standing.completes closed
    exact ⟨templates, complete'.trans complete, .inl ⟨still, .gap before plain⟩⟩
  | start closed starts complete' opened =>
    obtain ⟨templates, complete, before⟩ := standing.completes closed
    refine ⟨templates, complete'.trans complete, .inr ⟨_, opened, ?_⟩⟩
    rw [← standing.fileBehind_eq]
    exact Template.opens_concat_iff.2 (.inl ⟨_, before, starts, rfl⟩)
  | @inside template opened goes_on complete' still =>
    obtain ⟨templates, complete, opens⟩ := standing.opens opened
    refine ⟨templates, complete'.trans complete, .inr ⟨_, still, ?_⟩⟩
    exact Template.opens_concat_iff.2 (.inr ⟨template.body, opens, goes_on, rfl⟩)
  | @stop template opened stops complete' closed =>
    obtain ⟨templates, complete, opens⟩ := standing.opens opened
    refine ⟨templates ++ [template], ?_, .inl ⟨closed, opens.stop stops⟩⟩
    rw [complete', complete, tabulate_concat]

/-- Where it stands behind one more line, it stood before, and the line turned it. -/
theorem Standing.back (standing : Standing (lines ++ [line]) next) : ∃ c, Standing lines c ∧
    line.Reads ∧ line.files (some c.includes) = some next.includes ∧ Turns line c next := by
  obtain ⟨reads_lines, reads⟩ := List.forall_mem_append.1 standing.reads
  obtain ⟨includes, before_files, files⟩ := filesBehind_back standing.files
  have stands (complete : List Template) (current : Option Template)
      (regions : current = none ∧ Template.Completes lines complete ∨
        ∃ template, current = some template ∧ Template.Opens lines complete template) :
      Standing lines ⟨tabulate complete, includes, current⟩ :=
    ⟨reads_lines, before_files, complete, rfl, regions⟩
  have reads := reads line (List.mem_singleton_self line)
  obtain ⟨templates, complete, ⟨closed, completes⟩ | ⟨template, opened, opens⟩⟩ := standing.regions
  · rcases Template.completes_concat_iff.1 completes with
      ⟨before, plain⟩ | ⟨earlier, template, rfl, opens, stops⟩
    · exact ⟨_, stands templates none (.inl ⟨rfl, before⟩), reads, files,
        .gap rfl plain complete closed⟩
    · rw [tabulate_concat] at complete
      exact ⟨_, stands earlier template (.inr ⟨template, rfl, opens⟩), reads, files,
        .stop rfl stops complete closed⟩
  · rcases Template.opens_concat_iff.1 opens with
      ⟨name, before, starts, rfl⟩ | ⟨body, opens, goes_on, body_eq⟩
    · have standing_before := stands templates none (.inl ⟨rfl, before⟩)
      rw [standing_before.fileBehind_eq] at opened
      exact ⟨_, standing_before, reads, files, .start rfl starts complete opened⟩
    · refine ⟨_, stands templates (some { template with body }) (.inr ⟨_, rfl, opens⟩), reads,
        files, .inside rfl goes_on complete ?_⟩
      rw [opened, ← body_eq]

theorem addAll_concat (c : Collection) (lines : List SourceLine) (line : SourceLine) :
    (c.addAll (lines ++ [line])).outcome = (c.addAll lines).outcome >>= fun c =>
      (c.add line).outcome := by
  induction lines generalizing c with
  | nil =>
    simp only [List.nil_append, addAll, Logged.outcome_bind, Logged.outcome_pure, ok_bind]
    exact bind_pure _
  | cons first rest ih =>
    rw [List.cons_append, addAll, addAll, Logged.outcome_bind, Logged.outcome_bind, bind_assoc]
    exact bind_congr fun c => ih c

theorem addAll_eq_ok_iff : (addAll {} lines).outcome = .ok c ↔ Standing lines c := by
  induction lines using List.reverseRecOn generalizing c with
  | nil =>
    rw [standing_nil]
    exact ⟨fun h => (Except.ok.inj h).symm, fun h => h ▸ rfl⟩
  | append_singleton lines line ih =>
    rw [addAll_concat, bind_eq_ok]
    constructor
    · rintro ⟨before, h, added⟩
      have standing := ih.1 h
      rcases add_cases before line with ⟨next, added', reads, files, turns⟩ | ⟨error, failed, -⟩
      · obtain rfl : c = next := Except.ok.inj (added.symm.trans added')
        exact standing.step reads files turns
      · rw [failed] at added
        cases added
    · intro standing
      obtain ⟨before, standing_before, reads, files, turns⟩ := standing.back
      exact ⟨before, ih.2 standing_before, add_of_turns reads files turns⟩

theorem Standing.unique {c' : Collection} (standing : Standing lines c)
    (standing' : Standing lines c') : c = c' :=
  Except.ok.inj ((addAll_eq_ok_iff.2 standing).symm.trans (addAll_eq_ok_iff.2 standing'))

/-- Lines are not collected if one of them is refused behind those before it. -/
theorem addAll_eq_error_iff {error : CompileError} : (addAll {} lines).outcome = .error error ↔
    ∃ before line after c, lines = before ++ line :: after ∧ Standing before c ∧
      Refuses line c error := by
  induction lines using List.reverseRecOn with
  | nil => simp [addAll]
  | append_singleton lines line ih =>
    rw [addAll_concat, bind_eq_error, ih]
    constructor
    · rintro (⟨before, wrong, after, c, rfl, standing, refuses⟩ | ⟨c, h, failed⟩)
      · exact ⟨before, wrong, after ++ [line], c, by simp, standing, refuses⟩
      · rcases add_cases c line with ⟨next, added, -⟩ | ⟨error', failed', refuses⟩
        · rw [added] at failed
          cases failed
        · obtain rfl : error = error' := Except.error.inj (failed.symm.trans failed')
          exact ⟨lines, line, [], c, rfl, addAll_eq_ok_iff.1 h, refuses⟩
    · rintro ⟨before, wrong, after, c, split, standing, refuses⟩
      rcases split_concat split with ⟨rfl, rfl, rfl⟩ | ⟨rest, rfl, rfl⟩
      · exact .inr ⟨c, addAll_eq_ok_iff.2 standing, add_of_refuses refuses⟩
      · exact .inl ⟨before, wrong, rest, c, rfl, standing, refuses⟩

/-- Every bracket closes something where the include files that are open are known. -/
theorem balanced_iff : (∀ before close, ¬ ClosesNothing lines before close) ↔
    ∃ includes, filesBehind (some []) lines = some includes := by
  induction lines using List.reverseRecOn with
  | nil =>
    refine ⟨fun _ => ⟨[], rfl⟩, fun _ before close nothing => ?_⟩
    obtain ⟨after, found⟩ := nothing.found
    simp at found
  | append_singleton lines line ih =>
    constructor
    · intro balanced
      have balanced_lines : ∀ before close, ¬ ClosesNothing lines before close := by
        rintro before close ⟨⟨after, rfl⟩, closes, none_open⟩
        exact balanced before close ⟨⟨after ++ [line], by simp⟩, closes, none_open⟩
      obtain ⟨includes, files⟩ := ih.1 balanced_lines
      rw [filesBehind_concat, files]
      unfold SourceLine.files
      split
      · exact ⟨_, rfl⟩
      · next closes =>
        cases includes with
        | nil => exact absurd ⟨⟨[], rfl⟩, closes, files⟩ (balanced lines line)
        | cons path outer => exact ⟨outer, rfl⟩
      · exact ⟨_, rfl⟩
    · rintro ⟨includes, files⟩ before close ⟨⟨after, split⟩, closes, none_open⟩
      obtain ⟨earlier, before_files, files⟩ := filesBehind_back files
      rcases split_concat split with ⟨rfl, rfl, rfl⟩ | ⟨rest, rfl, rfl⟩
      · obtain rfl : [] = earlier := Option.some.inj (none_open.symm.trans before_files)
        rw [SourceLine.files, closes] at files
        cases files
      · exact ih.2 ⟨earlier, before_files⟩ before close ⟨⟨rest, rfl⟩, closes, none_open⟩

/-- Where nothing is wrong with lines, their collection stands somewhere. -/
theorem sound_iff : Sound lines ↔ ∃ c, Standing lines c := by
  constructor
  · rintro ⟨reads, balanced, templates, completes | ⟨template, opens⟩⟩
    · obtain ⟨includes, files⟩ := balanced_iff.1 balanced
      exact ⟨⟨tabulate templates, includes, none⟩, reads, files, templates, rfl,
        .inl ⟨rfl, completes⟩⟩
    · obtain ⟨includes, files⟩ := balanced_iff.1 balanced
      exact ⟨⟨tabulate templates, includes, some template⟩, reads, files, templates, rfl,
        .inr ⟨template, rfl, opens⟩⟩
  · rintro ⟨c, reads, files, templates, -, regions⟩
    refine ⟨reads, balanced_iff.2 ⟨_, files⟩, templates, ?_⟩
    exact regions.imp And.right fun ⟨template, _, opens⟩ => ⟨template, opens⟩

theorem Standing.current_of_opens {templates : List Template} {template : Template}
    (standing : Standing lines c) (opens : Template.Opens lines templates template) :
    c.current = some template := by
  have there : Standing lines ⟨tabulate templates, c.includes, some template⟩ :=
    ⟨standing.reads, standing.files, templates, rfl, .inr ⟨template, rfl, opens⟩⟩
  rw [standing.unique there]

/-- A line is refused for what is wrong with it. -/
theorem Standing.refuses_iff {error : CompileError} (standing : Standing lines c) :
    Refuses line c error ↔ Violates lines line error := by
  constructor
  · intro refuses
    cases refuses with
    | unread fails => exact .unread fails
    | unbalanced closes none_open => exact .unbalanced closes (none_open ▸ standing.files)
    | reopened opened starts other =>
      obtain ⟨templates, -, opens⟩ := standing.opens opened
      exact .reopened opens starts other
    | unmatched stops closed =>
      refine .unmatched stops fun templates template opens => ?_
      exact closed template (standing.current_of_opens opens)
  · intro violates
    cases violates with
    | unread fails => exact .unread fails
    | unbalanced closes none_open =>
      exact .unbalanced closes (Option.some.inj (standing.files.symm.trans none_open))
    | reopened opens starts other =>
      exact .reopened (standing.current_of_opens opens) starts other
    | unmatched stops closed =>
      refine .unmatched stops fun template opened => ?_
      obtain ⟨templates, -, opens⟩ := standing.opens opened
      exact closed templates template opens

/-- Nothing is wrong with one line more exactly if nothing is wrong with it behind the others. -/
theorem sound_concat_iff :
    Sound (lines ++ [line]) ↔ Sound lines ∧ ∀ error, ¬ Violates lines line error := by
  constructor
  · intro sound
    obtain ⟨next, standing⟩ := sound_iff.1 sound
    obtain ⟨c, standing, reads, files, turns⟩ := standing.back
    refine ⟨sound_iff.2 ⟨c, standing⟩, fun error violates => ?_⟩
    exact turns.not_refuses reads files (standing.refuses_iff.2 violates)
  · rintro ⟨sound, fine⟩
    obtain ⟨c, standing⟩ := sound_iff.1 sound
    rcases add_cases c line with ⟨next, -, reads, files, turns⟩ | ⟨error, -, refuses⟩
    · exact sound_iff.2 ⟨next, standing.step reads files turns⟩
    · exact absurd (standing.refuses_iff.1 refuses) (fine error)

end Collection

open Collection

variable {lines : List SourceLine}

theorem collect_eq_ok_iff {table : TemplateTable} : (collect lines).outcome = .ok table ↔
    ∃ c, Standing lines c ∧ c.current = none ∧ c.complete = table := by
  rw [collect, Logged.outcome_bind_eq_ok]
  refine exists_congr fun c => and_congr addAll_eq_ok_iff ?_
  rw [Logged.outcome_ofExcept, finish]
  cases c.current <;> simp

theorem collect_eq_error_iff {error : CompileError} : (collect lines).outcome = .error error ↔
    FirstViolation lines error := by
  rw [collect, Logged.outcome_bind_eq_error]
  constructor
  · rintro (failed | ⟨c, h, failed⟩)
    · obtain ⟨before, line, after, c, found, standing, refuses⟩ := addAll_eq_error_iff.1 failed
      exact .line found (sound_iff.2 ⟨c, standing⟩) (standing.refuses_iff.1 refuses)
    · have standing := addAll_eq_ok_iff.1 h
      rw [Logged.outcome_ofExcept, finish] at failed
      split at failed
      · cases failed
      · next template opened =>
        cases failed
        obtain ⟨templates, -, opens⟩ := standing.opens opened
        exact .unterminated (sound_iff.2 ⟨c, standing⟩) opens
  · intro violation
    cases violation with
    | @line before after line _ found sound violates =>
      obtain ⟨c, standing⟩ := sound_iff.1 sound
      have refuses := standing.refuses_iff.2 violates
      exact .inl (addAll_eq_error_iff.2 ⟨before, line, after, c, found, standing, refuses⟩)
    | unterminated sound opens =>
      obtain ⟨c, standing⟩ := sound_iff.1 sound
      refine .inr ⟨c, addAll_eq_ok_iff.2 standing, ?_⟩
      rw [Logged.outcome_ofExcept, finish, standing.current_of_opens opens]

/-- Templates are collected exactly from lines that can all be read, in which each closing bracket
closes an include file, and which are regions of templates with gaps between them. The table is the
one of these regions. Where it is not collected, the first line that is wrong is blamed, or the
template that is still open at the end. -/
theorem collect_iff (lines : List SourceLine) :
    ((∃ table, (collect lines).outcome = .ok table) ↔
      (∀ line ∈ lines, line.Reads) ∧ (∀ before close, ¬ ClosesNothing lines before close) ∧
        ∃ templates, Template.Completes lines templates) ∧
    (∀ table, (collect lines).outcome = .ok table ↔
      (∀ line ∈ lines, line.Reads) ∧ (∀ before close, ¬ ClosesNothing lines before close) ∧
        ∃ templates, Template.Completes lines templates ∧ Tabulates templates table) ∧
    ∀ error, (collect lines).outcome = .error error ↔ FirstViolation lines error := by
  have collected (table : TemplateTable) : (collect lines).outcome = .ok table ↔
      (∀ line ∈ lines, line.Reads) ∧ (∀ before close, ¬ ClosesNothing lines before close) ∧
        ∃ templates, Template.Completes lines templates ∧ Tabulates templates table := by
    rw [collect_eq_ok_iff, balanced_iff]
    constructor
    · rintro ⟨c, standing, closed, rfl⟩
      obtain ⟨templates, complete, completes⟩ := standing.completes closed
      exact ⟨standing.reads, ⟨_, standing.files⟩, templates, completes,
        complete ▸ tabulates_tabulate templates⟩
    · rintro ⟨reads, ⟨includes, files⟩, templates, completes, tabulates⟩
      refine ⟨⟨tabulate templates, includes, none⟩, ?_, rfl,
        (tabulates_tabulate templates).unique tabulates⟩
      exact ⟨reads, files, templates, rfl, .inl ⟨rfl, completes⟩⟩
  refine ⟨⟨?_, ?_⟩, collected, fun error => collect_eq_error_iff⟩
  · rintro ⟨table, h⟩
    obtain ⟨reads, balanced, templates, completes, -⟩ := (collected table).1 h
    exact ⟨reads, balanced, templates, completes⟩
  · rintro ⟨reads, balanced, templates, completes⟩
    exact ⟨tabulate templates, (collected _).2
      ⟨reads, balanced, templates, completes, tabulates_tabulate templates⟩⟩

end TemplateTable
end BoardSchema
