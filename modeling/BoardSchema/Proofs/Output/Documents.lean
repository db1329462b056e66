import BoardSchema.Output.Rendering
import BoardSchema.Proofs.Distinct
/-!
Which line goes to which document. Every line is rendered for the innermost include path that is open
there, or for none, and this path gives the document. A document is started where it is first
referred to, so the documents are the references without repetitions.
-/
namespace BoardSchema

/-! ## References -/

def Entry.satellite? : Entry → Option String
  | .includeOpen path => some (satelliteName path)
  | _ => none

/-- The documents of the include targets, in the order in which they are opened. -/
def satellites (entries : List Entry) : List String := entries.filterMap Entry.satellite?

@[simp] theorem satellites_field (field : Field) (rest : List Entry) :
    satellites (.field field :: rest) = satellites rest := rfl

@[simp] theorem satellites_includeOpen (path : String) (rest : List Entry) :
    satellites (.includeOpen path :: rest) = satelliteName path :: satellites rest := rfl

@[simp] theorem satellites_includeClose (rest : List Entry) :
    satellites (.includeClose :: rest) = satellites rest := rfl

namespace Rendering

/-- The documents that a stream refers to, in order. -/
def references (rules : Rules) (stream : List Entry) : List String :=
  if rules.emitAll then satellites stream else []

theorem references_includeOpen {rules : Rules} (all : rules.emitAll) (path : String)
    (rest : List Entry) : references rules (.includeOpen path :: rest) =
      [satelliteName path] ++ references rules rest := by
  simp [references, all]

theorem references_inline {rules : Rules} (inline : ¬ rules.emitAll) (stream : List Entry) :
    references rules stream = [] := if_neg inline

@[simp] theorem references_includeClose (rules : Rules) (rest : List Entry) :
    references rules (.includeClose :: rest) = references rules rest := rfl

/-- The include path of a template from a file, if its body has a document of its own. -/
def pathOf? (rules : Rules) (file : String) : Option String :=
  if rules.emitAll && file ≠ Template.topLevel then some file else none

/-- The documents that the bodies of templates refer to, each one after that of its own. -/
def bodyReferences (rules : Rules) (templates : List (Template × List Entry)) : List String :=
  templates.flatMap fun (template, body) =>
    (pathOf? rules template.file).toList.map satelliteName ++ references rules body

/-! ## Lines -/

/-- A line as it was written: text, or a reference to a document. -/
inductive Mark where
  | text (line : OutputLine)
  | reference (indent : Nat) (file : String)
  deriving DecidableEq, Repr

def Mark.render : Mark → String
  | text line => line.render
  | reference indent file => OutputLine.render ⟨indent, "- !include " ++ file⟩

/-- A line with the innermost include path that it is rendered for, if there is one. -/
structure TracedLine where
  path : Option String
  mark : Mark
  deriving DecidableEq, Repr

/-- The document of an include path, or the top one. -/
def documentOf (top : String) (path : Option String) : String := path.elim top satelliteName

def linesAt (path : Option String) (lines : List OutputLine) : List TracedLine :=
  (lines.map .text).map (TracedLine.mk path)

/-- Where lines go: the innermost include path, the indentation, and the number of structures. -/
structure Site where
  path : Option String
  base : Nat
  depth : Nat := 0

namespace Site

def frame (top : String) (site : Site) : Frame := ⟨documentOf top site.path, site.base, site.depth⟩

def indent (site : Site) : Nat := site.base + 2 * site.depth

/-- The site behind a field. -/
def after (site : Site) (field : Field) : Site :=
  match field.role with
  | .structOpen => { site with depth := site.depth + 1 }
  | .structClose => { site with depth := site.depth - 1 }
  | _ => site

end Site

/-- The lines of a stream; `outer` are the sites of the includes around it, innermost first. -/
def traced (rules : Rules) (table : TemplateTable) :
    Site → (outer : List Site) → List Entry → Except CompileError (List TracedLine)
  | _, _, [] => return []
  | site, outer, .field field :: rest => do
    let lines ← (field.lines rules table).outcome
    let later ← traced rules table (site.after field) outer rest
    return linesAt site.path (lines.map (OutputLine.shift site.indent)) ++ later
  | site, outer, .includeOpen path :: rest =>
    if rules.emitAll then do
      let later ← traced rules table ⟨some path, 0, 0⟩ (site :: outer) rest
      return [⟨site.path, .reference site.indent (satelliteName path)⟩] ++ later
    else traced rules table site outer rest
  | site, outer, .includeClose :: rest =>
    match rules.emitAll, outer with
    | true, around :: outer => traced rules table around outer rest
    | _, outer => traced rules table site outer rest

/-- The lines of the bodies of templates. The top document refers to each document once. -/
def tracedBodies (rules : Rules) (table : TemplateTable) :
    (referenced : List String) → List (Template × List Entry) →
      Except CompileError (List TracedLine)
  | _, [] => return []
  | referenced, (template, body) :: rest =>
    match pathOf? rules template.file with
    | some path => do
      let file := satelliteName path
      let reference := if file ∈ referenced then [] else linesAt none [⟨2, "!include " ++ file⟩]
      let own ← traced rules table ⟨some path, 2, 0⟩ [] body
      let later ← tracedBodies rules table (referenced.insert file) rest
      return reference ++ linesAt path [⟨0, template.name ++ ": >"⟩] ++ own ++
        linesAt path [⟨0, ""⟩] ++ later
    | none => do
      let own ← traced rules table ⟨none, 4, 0⟩ [] body
      let later ← tracedBodies rules table referenced rest
      return linesAt none [⟨2, template.name ++ ": >"⟩] ++ own ++ linesAt none [⟨0, ""⟩] ++ later

/-- The lines of a description below the headings of its documents. -/
def schemaTrace (rules : Rules) (table : TemplateTable) (bindings : List Binding)
    (templates : List (Template × List Entry)) (configs : List Entry) :
    Except CompileError (List TracedLine) := do
  let shown ← tracedBodies rules table [] templates
  let entries ← traced rules table ⟨none, 2, 0⟩ [] configs
  return linesAt none (⟨0, "variable:"⟩ :: bindingLines rules bindings ++ [⟨0, ""⟩]) ++
    linesAt none [⟨0, "template:"⟩] ++ shown ++ linesAt none [⟨0, ""⟩, ⟨0, "configs:"⟩] ++ entries

/-- The lines of one document. -/
def linesOf (top file : String) (trace : List TracedLine) : List String :=
  (trace.filter fun line => documentOf top line.path = file).map (·.mark.render)

/-- The documents that are referred to, each with the heading and its lines. -/
def documentsOf (rules : Rules) (top : String) (referred : List String)
    (trace : List TracedLine) : Bundle :=
  referred.eraseDups.map fun file =>
    ⟨file, rules.heading ++ linesOf top file trace⟩

variable {rules : Rules} {table : TemplateTable} {top : String}

/-! ## What is written -/

@[simp] theorem frame_after (site : Site) (field : Field) :
    (site.after field).frame top = (site.frame top).after field := by
  unfold Site.after Frame.after
  cases field.role <;> rfl

@[simp] theorem path_after (site : Site) (field : Field) : (site.after field).path = site.path := by
  unfold Site.after
  split <;> rfl

theorem linesOf_append (file : String) (left right : List TracedLine) :
    linesOf top file (left ++ right) = linesOf top file left ++ linesOf top file right := by
  simp [linesOf]

/-- What is written to the document of a path are lines for that path. -/
theorem write_documentsOf (rules : Rules) (top : String) (path : Option String)
    {lines : List OutputLine} (marks : List Mark) (referred : List String)
    (trace : List TracedLine) (same : marks.map Mark.render = lines.map OutputLine.render) :
    (documentsOf rules top referred trace).write (documentOf top path) lines =
      documentsOf rules top referred (trace ++ marks.map (TracedLine.mk path)) := by
  simp only [documentsOf, Bundle.write, List.map_map]
  refine List.map_congr_left fun file _ => ?_
  rw [Function.comp_apply, linesOf_append, ← same]
  by_cases here : file = documentOf top path
  · simp [linesOf, List.filter_map, Function.comp_def, here]
  · simp [linesOf, List.filter_map, Function.comp_def, here, Ne.symm here]

theorem write_linesAt (rules : Rules) (top : String) (path : Option String)
    (lines : List OutputLine) (referred : List String) (trace : List TracedLine) :
    (documentsOf rules top referred trace).write (documentOf top path) lines =
      documentsOf rules top referred (trace ++ linesAt path lines) :=
  write_documentsOf rules top path (lines.map .text) referred trace (by simp [Mark.render])

theorem write_reference (rules : Rules) (top : String) (path : Option String) (indent : Nat)
    (file : String) (referred : List String) (trace : List TracedLine) :
    (documentsOf rules top referred trace).write (documentOf top path)
        [⟨indent, "- !include " ++ file⟩] =
      documentsOf rules top referred (trace ++ [⟨path, .reference indent file⟩]) :=
  write_documentsOf rules top path [.reference indent file] referred trace rfl

/-- Every line has a document. -/
def Housed (top : String) (referred : List String) (trace : List TracedLine) : Prop :=
  ∀ line ∈ trace, documentOf top line.path ∈ referred

theorem start_documentsOf (rules : Rules) {referred : List String} {trace : List TracedLine}
    (file : String) (housed : Housed top referred trace) :
    (documentsOf rules top referred trace).start rules file =
      documentsOf rules top (referred ++ [file]) trace := by
  have started : (documentsOf rules top referred trace).any (·.file = file) = true ↔
      file ∈ referred := by
    simp [documentsOf, List.mem_eraseDups]
  rw [Bundle.start, documentsOf, documentsOf, eraseDups_concat]
  by_cases old : file ∈ referred
  · rw [← documentsOf, if_pos (started.2 old), if_pos old]
    rfl
  · have none : linesOf top file trace = [] := by
      simp only [linesOf, List.map_eq_nil_iff, List.filter_eq_nil_iff, decide_eq_true_eq]
      rintro line hline rfl
      exact old (housed line hline)
    rw [← documentsOf, if_neg (mt started.1 old), if_neg old, List.map_append]
    simp [none, documentsOf]

theorem Housed.append {referred : List String} {left right : List TracedLine}
    (first : Housed top referred left) (later : Housed top referred right) :
    Housed top referred (left ++ right) :=
  List.forall_mem_append.2 ⟨first, later⟩

theorem Housed.mono {referred more : List String} {trace : List TracedLine}
    (housed : Housed top referred trace) : Housed top (referred ++ more) trace :=
  fun line hline => List.mem_append_left _ (housed line hline)

theorem housed_linesAt (path : Option String) {referred : List String}
    (here : documentOf top path ∈ referred) (lines : List OutputLine) :
    Housed top referred (linesAt path lines) := by
  intro line hline
  obtain ⟨_, -, rfl⟩ := List.mem_map.1 hline
  exact here

/-- The lines of a stream have documents among those that are open and those that it refers to. -/
theorem housed_traced {site : Site} {outer : List Site} {referred : List String}
    {stream : List Entry} {trace : List TracedLine}
    (here : documentOf top site.path ∈ referred)
    (around : ∀ site ∈ outer, documentOf top site.path ∈ referred)
    (h : traced rules table site outer stream = .ok trace) :
    Housed top (referred ++ references rules stream) trace := by
  induction stream generalizing site outer referred trace with
  | nil =>
    cases h
    simp [Housed]
  | cons entry rest ih =>
    cases entry with
    | field field =>
      obtain ⟨lines, -, h⟩ := bind_eq_ok.1 h
      obtain ⟨later, hlater, h⟩ := bind_eq_ok.1 h
      cases h
      have first := housed_linesAt site.path here (lines.map (OutputLine.shift site.indent))
      exact first.mono.append (ih (by rwa [path_after]) around hlater)
    | includeOpen path =>
      simp only [traced] at h
      split at h
      · next all =>
        obtain ⟨later, hlater, h⟩ := bind_eq_ok.1 h
        cases h
        have first : Housed top referred
            [⟨site.path, .reference site.indent (satelliteName path)⟩] := by simpa [Housed]
        refine first.mono.append ?_
        rw [references_includeOpen all, ← List.append_assoc]
        refine ih (by simp [documentOf]) ?_ hlater
        intro other hother
        rcases List.mem_cons.1 hother with rfl | hother
        · exact List.mem_append_left _ here
        · exact List.mem_append_left _ (around other hother)
      · next inline =>
        have later := ih here around h
        rwa [references_inline inline] at later ⊢
    | includeClose =>
      rw [references_includeClose]
      simp only [traced] at h
      split at h
      · next outer =>
        exact ih (around _ (by simp)) (fun site hsite => around site (by simp [hsite])) h
      · exact ih here around h

/-- Rendering a stream writes its lines to their documents. -/
theorem entries_eq (rules : Rules) (table : TemplateTable) (site : Site) (outer : List Site)
    (stream : List Entry) {referred : List String} {trace : List TracedLine}
    (housed : Housed top referred trace)
    (here : documentOf top site.path ∈ referred)
    (around : ∀ site ∈ outer, documentOf top site.path ∈ referred) :
    (entries rules table (site.frame top) (outer.map (Site.frame top))
        (documentsOf rules top referred trace) stream).outcome = do
      let later ← traced rules table site outer stream
      return documentsOf rules top (referred ++ references rules stream) (trace ++ later) := by
  induction stream generalizing site outer referred trace with
  | nil =>
    rw [entries, traced, Logged.outcome_pure, pure_bind]
    simp [references, satellites]
    rfl
  | cons entry rest ih =>
    cases entry with
    | field field =>
      rw [entries, traced, Logged.outcome_bind]
      cases (field.lines rules table).outcome with
      | error error => rfl
      | ok lines =>
        have own := housed_linesAt site.path here (lines.map (OutputLine.shift site.indent))
        have here_after : documentOf top (site.after field).path ∈ referred := by rwa [path_after]
        have written := write_linesAt rules top site.path
          (lines.map (OutputLine.shift site.indent)) referred trace
        have later := ih (site.after field) outer (housed.append own) here_after around
        rw [← written, frame_after] at later
        simp only [ok_bind, bind_assoc, pure_bind, ← List.append_assoc]
        exact later
    | includeOpen path =>
      rw [entries, traced]
      split
      · next all =>
        have reference : Housed top referred
            [⟨site.path, .reference site.indent (satelliteName path)⟩] := by simpa [Housed]
        have started := start_documentsOf rules (satelliteName path) housed
        have written := write_reference rules top site.path site.indent (satelliteName path)
          (referred ++ [satelliteName path]) trace
        have there : documentOf top (some path) ∈ referred ++ [satelliteName path] := by
          simp [documentOf]
        have around_there : ∀ other ∈ site :: outer,
            documentOf top other.path ∈ referred ++ [satelliteName path] := by
          intro other hother
          rcases List.mem_cons.1 hother with rfl | hother
          · exact List.mem_append_left _ here
          · exact List.mem_append_left _ (around other hother)
        have later := ih ⟨some path, 0, 0⟩ (site :: outer) (housed.append reference).mono there
          around_there
        rw [← written, ← started] at later
        simp only [references_includeOpen all, bind_assoc, pure_bind, ← List.append_assoc]
        exact later
      · next inline =>
        have later := ih site outer housed here around
        rwa [references_inline inline] at later ⊢
    | includeClose =>
      rw [references_includeClose]
      cases all : rules.emitAll with
      | false =>
        simp only [entries, traced, all]
        exact ih site outer housed here around
      | true =>
        cases outer with
        | nil =>
          simp only [entries, traced, all, List.map_nil]
          exact ih site [] housed here around
        | cons around_site outer =>
          simp only [entries, traced, all, List.map_cons]
          exact ih around_site outer housed (around _ List.mem_cons_self)
            fun site hsite => around site (List.mem_cons_of_mem _ hsite)

/-- The lines of bodies go to the top document, those of their own, and those that they refer to. -/
theorem housed_tracedBodies {referenced referred : List String}
    {templates : List (Template × List Entry)} {trace : List TracedLine} (here : top ∈ referred)
    (h : tracedBodies rules table referenced templates = .ok trace) :
    Housed top (referred ++ bodyReferences rules templates) trace := by
  induction templates generalizing referenced referred trace with
  | nil =>
    cases h
    simp [Housed]
  | cons first rest ih =>
    obtain ⟨template, body⟩ := first
    simp only [tracedBodies] at h
    split at h
    · next path found =>
      obtain ⟨own, hown, h⟩ := bind_eq_ok.1 h
      obtain ⟨later, hlater, h⟩ := bind_eq_ok.1 h
      cases h
      have referred_eq : referred ++ bodyReferences rules ((template, body) :: rest) =
          referred ++ [satelliteName path] ++ references rules body ++ bodyReferences rules rest := by
        simp [bodyReferences, found]
      have there : documentOf top (some path) ∈ referred ++ [satelliteName path] := by
        simp [documentOf]
      have still := List.mem_append_left [satelliteName path] here
      rw [referred_eq]
      refine .append (.append (.append (.append ?_ ?_) ?_) ?_) ?_
      · split
        · simp [Housed]
        · exact (housed_linesAt none still _).mono.mono
      · exact (housed_linesAt path there _).mono.mono
      · exact (housed_traced there (by simp) hown).mono
      · exact (housed_linesAt path there _).mono.mono
      · exact ih (List.mem_append_left _ still) hlater
    · next found =>
      obtain ⟨own, hown, h⟩ := bind_eq_ok.1 h
      obtain ⟨later, hlater, h⟩ := bind_eq_ok.1 h
      cases h
      have referred_eq : referred ++ bodyReferences rules ((template, body) :: rest) =
          referred ++ references rules body ++ bodyReferences rules rest := by
        simp [bodyReferences, found]
      have at_top (lines : List OutputLine) : Housed top referred (linesAt none lines) :=
        housed_linesAt none here lines
      rw [referred_eq]
      refine .append (.append (.append ?_ ?_) ?_) ?_
      · exact (at_top _).mono.mono
      · exact (housed_traced here (by simp) hown).mono
      · exact (at_top _).mono.mono
      · exact ih (List.mem_append_left _ here) hlater

/-- Every line of a description goes to the top document or to one that is referred to. -/
theorem housed_schemaTrace {bindings : List Binding} {templates : List (Template × List Entry)}
    {configs : List Entry} {trace : List TracedLine}
    (h : schemaTrace rules table bindings templates configs = .ok trace) :
    Housed top ([top] ++ bodyReferences rules templates ++ references rules configs) trace := by
  obtain ⟨shown, hshown, h⟩ := bind_eq_ok.1 h
  obtain ⟨entries, hentries, h⟩ := bind_eq_ok.1 h
  cases h
  have here : top ∈ [top] := List.mem_singleton_self top
  have at_top (lines : List OutputLine) : Housed top [top] (linesAt none lines) :=
    housed_linesAt none here lines
  refine .append (.append (.append (.append ?_ ?_) ?_) ?_) ?_
  · exact (at_top _).mono.mono
  · exact (at_top _).mono.mono
  · exact (housed_tracedBodies here hshown).mono
  · exact (at_top _).mono.mono
  · have still : documentOf top none ∈ [top] ++ bodyReferences rules templates :=
      List.mem_append_left _ here
    exact housed_traced still (by simp) hentries

/-- Rendering the bodies of templates writes their lines. -/
theorem bodies_eq {referenced referred : List String} {trace : List TracedLine}
    {templates : List (Template × List Entry)} (housed : Housed top referred trace)
    (here : top ∈ referred) :
    (bodies rules table top referenced (documentsOf rules top referred trace)
        templates).outcome = do
      let later ← tracedBodies rules table referenced templates
      return documentsOf rules top (referred ++ bodyReferences rules templates)
        (trace ++ later) := by
  induction templates generalizing referenced referred trace with
  | nil =>
    rw [bodies, tracedBodies, Logged.outcome_pure, pure_bind]
    simp [bodyReferences]
    rfl
  | cons first rest ih =>
    obtain ⟨template, body⟩ := first
    -- Both kinds of bodies go on alike behind the line with the name of the template.
    have body_then_rest (site : Site) (referenced : List String) {referred : List String}
        {trace : List TracedLine} (housed : Housed top referred trace) (here : top ∈ referred)
        (there : documentOf top site.path ∈ referred) :
        (do
          let bundle ← entries rules table (site.frame top) [] (documentsOf rules top referred trace)
            body
          bodies rules table top referenced (bundle.write (documentOf top site.path) [⟨0, ""⟩])
            rest).outcome = do
          let own ← traced rules table site [] body
          let later ← tracedBodies rules table referenced rest
          return documentsOf rules top
            (referred ++ (references rules body ++ bodyReferences rules rest))
            (trace ++ (own ++ linesAt site.path [⟨0, ""⟩] ++ later)) := by
      rw [Logged.outcome_bind]
      have shown := entries_eq rules table site [] body housed there (by simp)
      rw [List.map_nil] at shown
      rw [shown, bind_assoc]
      cases hown : traced rules table site [] body with
      | error error => rfl
      | ok own =>
        have housed_own := housed.mono.append (housed_traced there (by simp) hown)
        have blank := housed_linesAt site.path
          (List.mem_append_left (references rules body) there) [⟨0, ""⟩]
        simp only [ok_bind, pure_bind, write_linesAt]
        rw [ih (housed_own.append blank) (List.mem_append_left _ here)]
        simp only [List.append_assoc]
    by_cases own : rules.emitAll && template.file ≠ Template.topLevel
    · have path : pathOf? rules template.file = some template.file := if_pos own
      let file := satelliteName template.file
      have referred_eq : referred ++ bodyReferences rules ((template, body) :: rest) =
          referred ++ [file] ++ (references rules body ++ bodyReferences rules rest) := by
        simp [bodyReferences, path, file]
      have there : documentOf top (some template.file) ∈ referred ++ [file] := by
        simp [documentOf, file]
      have still : top ∈ referred ++ [file] := List.mem_append_left _ here
      have title := housed_linesAt (some template.file) there [⟨0, template.name ++ ": >"⟩]
      rw [bodies, if_pos own, tracedBodies, path, referred_eq]
      dsimp only
      rw [start_documentsOf rules file housed]
      by_cases old : file ∈ referenced
      · have later := body_then_rest ⟨some template.file, 2, 0⟩ referenced
          (housed.mono.append title) still there
        rw [← write_linesAt] at later
        rw [if_pos old, if_pos (by simpa using old), List.insert_of_mem old]
        simp only [bind_assoc, pure_bind, List.append_assoc, List.nil_append] at later ⊢
        exact later
      · have reference : Housed top (referred ++ [file]) (linesAt none [⟨2, "!include " ++ file⟩]) :=
          housed_linesAt none still _
        have later := body_then_rest ⟨some template.file, 2, 0⟩ (file :: referenced)
          ((housed.mono.append reference).append title) still there
        rw [← write_linesAt, ← write_linesAt] at later
        rw [if_neg old, if_neg (by simpa using old), List.insert_of_not_mem old]
        simp only [bind_assoc, pure_bind, List.append_assoc] at later ⊢
        exact later
    · have path : pathOf? rules template.file = none := if_neg own
      have referred_eq : bodyReferences rules ((template, body) :: rest) =
          references rules body ++ bodyReferences rules rest := by
        simp [bodyReferences, path]
      have title : Housed top referred (linesAt none [⟨2, template.name ++ ": >"⟩]) :=
        housed_linesAt none here _
      have later := body_then_rest ⟨none, 4, 0⟩ referenced (housed.append title) here here
      rw [← write_linesAt] at later
      rw [bodies, if_neg own, tracedBodies, path, referred_eq]
      simp only [bind_assoc, pure_bind, List.append_assoc] at later ⊢
      exact later

/-- The documents of a description are those that are referred to, and hold the lines that are
rendered for their paths. -/
theorem schema_eq (bindings : List Binding) (templates : List (Template × List Entry))
    (configs : List Entry) :
    (schema rules table top bindings templates configs).outcome = do
      let trace ← schemaTrace rules table bindings templates configs
      return documentsOf rules top
        (top :: (bodyReferences rules templates ++ references rules configs)) trace := by
  have here : top ∈ [top] := List.mem_singleton_self top
  have first : ([⟨top, rules.heading⟩] : Bundle) = documentsOf rules top [top] [] := by
    simp [documentsOf, linesOf, List.eraseDups_cons]
  have at_top (referred : List String) (trace : List TracedLine) (lines : List OutputLine) :
      (documentsOf rules top referred trace).write top lines =
        documentsOf rules top referred (trace ++ linesAt none lines) :=
    write_linesAt rules top none ..
  have at_top_housed (lines : List OutputLine) : Housed top [top] (linesAt none lines) :=
    housed_linesAt none here lines
  simp only [schema, schemaTrace, Logged.outcome_bind, first, at_top, List.nil_append]
  rw [bodies_eq ((at_top_housed _).append (at_top_housed _)) here, bind_assoc]
  cases hshown : tracedBodies rules table [] templates with
  | error error => rfl
  | ok shown =>
    have before := ((at_top_housed (⟨0, "variable:"⟩ :: bindingLines rules bindings ++
      [⟨0, ""⟩])).append (at_top_housed [⟨0, "template:"⟩])).mono.append
        (housed_tracedBodies here hshown)
    have separator := at_top_housed [⟨0, ""⟩, ⟨0, "configs:"⟩]
    have rendered := entries_eq rules table ⟨none, 2, 0⟩ [] configs (before.append separator.mono)
      (List.mem_append_left _ here) (by simp)
    rw [List.map_nil] at rendered
    simp only [ok_bind, pure_bind, at_top]
    have at_configs : (⟨top, 2, 0⟩ : Frame) = (⟨none, 2, 0⟩ : Site).frame top := rfl
    rw [at_configs, rendered]
    cases traced rules table ⟨none, 2, 0⟩ [] configs with
    | error error => rfl
    | ok entries =>
      simp only [ok_bind, pure_bind, Logged.outcome_noteAll, Logged.outcome_pure,
        List.append_assoc, List.singleton_append]
      rfl

end Rendering
end BoardSchema
