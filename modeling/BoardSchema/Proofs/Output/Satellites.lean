import BoardSchema.Proofs.Output.Documents
import Mathlib.Algebra.Ring.Nat
/-!
Documents of their own for include targets show the same as a single document. Once each reference in
the top document is replaced by the lines of the document that it refers to, as far to the right as
the reference stands, it reads as the document in which included entries stay where they are.
-/
namespace BoardSchema

/-- The brackets of structures and of include files. -/
inductive Bracket where
  | struct
  | file
  deriving DecidableEq, Repr

/-- The brackets that are open behind an entry, innermost first. Only the innermost one can be
closed, and only by one of its kind. -/
def Entry.bracket (opened : List Bracket) : Entry → Option (List Bracket)
  | .includeOpen _ => some (.file :: opened)
  | .includeClose =>
    match opened with
    | .file :: outer => some outer
    | _ => none
  | .field f =>
    match f.role, opened with
    | .structOpen, _ => some (.struct :: opened)
    | .structClose, .struct :: outer => some outer
    | .structClose, _ => none
    | _, _ => some opened

def openBrackets (opened : List Bracket) (entries : List Entry) : Option (List Bracket) :=
  entries.foldlM Entry.bracket opened

/-- Structures and includes are nested in each other. -/
def BracketsNested (entries : List Entry) : Prop := openBrackets [] entries = some []

instance (entries : List Entry) : Decidable (BracketsNested entries) :=
  inferInstanceAs (Decidable (_ = _))

namespace Rendering

def textMarks (file : String) (lines : List OutputLine) : List (String × Mark) :=
  lines.map fun line => (file, .text line)

/-- The lines of a stream where include targets have documents of their own, each with the document
that it goes to. -/
def written (rules : Rules) (table : TemplateTable) :
    Frame → (outer : List Frame) → List Entry → Except CompileError (List (String × Mark))
  | _, _, [] => return []
  | frame, outer, .field field :: rest => do
    let lines ← (field.lines rules table).outcome
    let later ← written rules table (frame.after field) outer rest
    return textMarks frame.file (lines.map (OutputLine.shift frame.indent)) ++ later
  | frame, outer, .includeOpen path :: rest => do
    let file := satelliteName path
    let later ← written rules table ⟨file, 0, 0⟩ (frame :: outer) rest
    return (frame.file, .reference frame.indent file) :: later
  | frame, [], .includeClose :: rest => written rules table frame [] rest
  | _, around :: outer, .includeClose :: rest => written rules table around outer rest

/-- What the documents of a description say before its entries. -/
def preface (rules : Rules) (bindings : List Binding) : List OutputLine :=
  ⟨0, "variable:"⟩ :: bindingLines rules bindings ++
    [⟨0, ""⟩, ⟨0, "template:"⟩, ⟨0, ""⟩, ⟨0, "configs:"⟩]

/-- The lines of a description without templates, below the headings of its documents. -/
def schemaMarks (rules : Rules) (table : TemplateTable) (top : String) (bindings : List Binding)
    (configs : List Entry) : Except CompileError (List (String × Mark)) := do
  let marks ← written rules table ⟨top, 2, 0⟩ [] configs
  return textMarks top (preface rules bindings) ++ marks

/-- The lines of one document. -/
def marksIn (file : String) (trace : List (String × Mark)) : List Mark :=
  (trace.filter fun mark => mark.1 = file).map Prod.snd

/-- Each reference is replaced by the lines of the document that it refers to, behind the indentation
of the reference, where references are replaced in the same way. -/
inductive Inlines (marks : String → List Mark) : List Mark → List String → Prop
  | nil : Inlines marks [] []
  | text {line : OutputLine} {rest : List Mark} {lines : List String}
      (tail : Inlines marks rest lines) :
      Inlines marks (.text line :: rest) (line.render :: lines)
  | reference {indent : Nat} {file : String} {rest : List Mark} {inner lines : List String}
      (target : Inlines marks (marks file) inner) (tail : Inlines marks rest lines) :
      Inlines marks (.reference indent file :: rest)
        (inner.map (fun line => OutputLine.render ⟨indent, line⟩) ++ lines)

/-- Documents by their names and lines. -/
def documents (files : List String) (lines : String → List String) : Bundle :=
  files.map fun file => ⟨file, lines file⟩

variable {rules : Rules} {table : TemplateTable}

/-! ## Replacing references -/

theorem Inlines.unique {marks : String → List Mark} {own : List Mark} {lines lines' : List String}
    (h : Inlines marks own lines) (h' : Inlines marks own lines') : lines = lines' := by
  induction h generalizing lines' with
  | nil =>
    cases h'
    rfl
  | text _ ih =>
    cases h' with
    | text tail => rw [ih tail]
  | reference _ _ ihTarget ihTail =>
    cases h' with
    | reference target tail => rw [ihTarget target, ihTail tail]

theorem Inlines.text_append {marks : String → List Mark} {own : List Mark} {lines : List String}
    (h : Inlines marks own lines) (texts : List OutputLine) :
    Inlines marks (texts.map .text ++ own) (texts.map OutputLine.render ++ lines) := by
  induction texts with
  | nil => exact h
  | cons line rest ih => exact .text ih

theorem render_shift (more : Nat) (line : OutputLine) :
    (line.shift more).render = OutputLine.render ⟨more, line.render⟩ := by
  simp only [OutputLine.render, OutputLine.shift, ← List.replicate_append_replicate,
    String.ofList_append, String.append_assoc]

theorem render_zero (line : String) : OutputLine.render ⟨0, line⟩ = line := by
  simp [OutputLine.render]

theorem shift_shift (more further : Nat) (line : OutputLine) :
    (line.shift more).shift further = line.shift (further + more) := by
  simp [OutputLine.shift, Nat.add_assoc]

@[simp] theorem marksIn_append (file : String) (left right : List (String × Mark)) :
    marksIn file (left ++ right) = marksIn file left ++ marksIn file right := by
  simp [marksIn]

theorem marksIn_cons (file other : String) (mark : Mark) (rest : List (String × Mark)) :
    marksIn file ((other, mark) :: rest) =
      if other = file then mark :: marksIn file rest else marksIn file rest := by
  by_cases same : other = file <;> simp [marksIn, same]

theorem marksIn_textMarks (file other : String) (lines : List OutputLine) :
    marksIn file (textMarks other lines) = if other = file then lines.map .text else [] := by
  by_cases same : other = file <;>
    simp [marksIn, textMarks, List.filter_map, Function.comp_def, same]

/-! ## Documents -/

@[simp] theorem lines_emitAll (field : Field) (all : Bool) :
    field.lines { rules with emitAll := all } table = field.lines rules table := rfl

@[simp] theorem file_after (frame : Frame) (field : Field) :
    (frame.after field).file = frame.file := by
  unfold Frame.after
  split <;> rfl

theorem write_documents (files : List String) (content : String → List String) (file : String)
    (lines : List OutputLine) : (documents files content).write file lines =
      documents files fun other =>
        if other = file then content other ++ lines.map OutputLine.render else content other := by
  simp only [documents, Bundle.write, List.map_map]
  refine List.map_congr_left fun other _ => ?_
  simp only [Function.comp_apply]
  split <;> rfl

theorem write_nil (file : String) (bundle : Bundle) : bundle.write file [] = bundle := by
  simp [Bundle.write]

theorem write_write (file : String) (first later : List OutputLine) (bundle : Bundle) :
    (bundle.write file first).write file later = bundle.write file (first ++ later) := by
  simp only [Bundle.write, List.map_map]
  refine List.map_congr_left fun document _ => ?_
  simp only [Function.comp_apply]
  split <;> simp_all

/-- A line with its document. -/
def TracedLine.placed (top : String) (line : TracedLine) : String × Mark :=
  (documentOf top line.path, line.mark)

theorem linesOf_eq (top file : String) (trace : List TracedLine) :
    linesOf top file trace = (marksIn file (trace.map (TracedLine.placed top))).map Mark.render := by
  rw [marksIn, List.filter_map, List.map_map, List.map_map]
  rfl

theorem placed_linesAt (top : String) (path : Option String) (lines : List OutputLine) :
    (linesAt path lines).map (TracedLine.placed top) = textMarks (documentOf top path) lines := by
  simp [linesAt, textMarks, TracedLine.placed]

/-- What is written where include targets have documents of their own. -/
theorem written_eq (top : String) (site : Site) (outer : List Site) (stream : List Entry) :
    written rules table (site.frame top) (outer.map (Site.frame top)) stream = do
      let trace ← traced { rules with emitAll := true } table site outer stream
      return trace.map (TracedLine.placed top) := by
  induction stream generalizing site outer with
  | nil => rfl
  | cons entry rest ih =>
    cases entry with
    | field field =>
      have file : (site.frame top).file = documentOf top site.path := rfl
      have indent : (site.frame top).indent = site.indent := rfl
      rw [written, traced, ← frame_after]
      simp only [ih, file, indent, lines_emitAll, bind_assoc, pure_bind, List.map_append,
        placed_linesAt]
    | includeOpen path =>
      have later : written rules table ⟨satelliteName path, 0, 0⟩
          (site.frame top :: outer.map (Site.frame top)) rest = _ :=
        ih ⟨some path, 0, 0⟩ (site :: outer)
      rw [written, traced, if_pos rfl]
      simp only [later, bind_assoc, pure_bind, List.map_append]
      rfl
    | includeClose =>
      cases outer with
      | nil => exact ih site []
      | cons around outer => exact ih around outer

/-! ## A single document -/

/-- The lines of a stream where included entries stay where they are. -/
def shown (rules : Rules) (table : TemplateTable) :
    Frame → List Entry → Except CompileError (List OutputLine)
  | _, [] => return []
  | frame, .field field :: rest => do
    let lines ← (field.lines rules table).outcome
    let later ← shown rules table (frame.after field) rest
    return lines.map (OutputLine.shift frame.indent) ++ later
  | frame, .includeOpen _ :: rest => shown rules table frame rest
  | frame, .includeClose :: rest => shown rules table frame rest

theorem entries_inline (frame : Frame) (outer : List Frame) (bundle : Bundle)
    (stream : List Entry) :
    (entries { rules with emitAll := false } table frame outer bundle stream).outcome = do
      let lines ← shown rules table frame stream
      return bundle.write frame.file lines := by
  induction stream generalizing frame bundle with
  | nil =>
    rw [entries, shown, Logged.outcome_pure, pure_bind, write_nil]
    rfl
  | cons entry rest ih =>
    cases entry with
    | field field =>
      rw [entries, shown, Logged.outcome_bind, lines_emitAll]
      cases (field.lines rules table).outcome with
      | error error => rfl
      | ok lines => simp only [ok_bind, bind_assoc, pure_bind, ih, file_after, write_write]
    | includeOpen path => exact ih frame bundle
    | includeClose => exact ih frame bundle

/-- Both ways of rendering fail at the same field. -/
theorem shown_eq_error_iff (frame inline : Frame) (outer : List Frame) (stream : List Entry)
    (error : CompileError) : shown rules table inline stream = .error error ↔
      written rules table frame outer stream = .error error := by
  induction stream generalizing frame inline outer with
  | nil => simp [shown, written, pure, Except.pure]
  | cons entry rest ih =>
    cases entry with
    | field field =>
      rw [shown, written, bind_eq_error, bind_eq_error]
      refine or_congr Iff.rfl (exists_congr fun lines => and_congr Iff.rfl ?_)
      rw [bind_eq_error, bind_eq_error, ih (frame.after field) (inline.after field) outer]
      simp [pure, Except.pure]
    | includeOpen path =>
      rw [shown, written, bind_eq_error, ih ⟨satelliteName path, 0, 0⟩ inline (frame :: outer)]
      simp [pure, Except.pure]
    | includeClose =>
      cases outer with
      | nil => exact ih frame inline []
      | cons around outer => exact ih around inline outer

/-! ## Where lines go -/

/-- Nothing is written to a document that is neither open nor opened later. -/
theorem marksIn_eq_nil {frame : Frame} {outer : List Frame} {stream : List Entry}
    {trace : List (String × Mark)} {file : String}
    (h : written rules table frame outer stream = .ok trace)
    (closed : file ∉ (frame :: outer).map Frame.file ++ satellites stream) :
    marksIn file trace = [] := by
  induction stream generalizing frame outer trace with
  | nil =>
    cases h
    rfl
  | cons entry rest ih =>
    cases entry with
    | field field =>
      obtain ⟨lines, -, h⟩ := bind_eq_ok.1 h
      obtain ⟨later, hlater, h⟩ := bind_eq_ok.1 h
      cases h
      have other : frame.file ≠ file := by
        rintro rfl
        simp at closed
      rw [marksIn_append, marksIn_textMarks, if_neg other, List.nil_append]
      exact ih hlater (by simpa using closed)
    | includeOpen path =>
      obtain ⟨later, hlater, h⟩ := bind_eq_ok.1 h
      cases h
      have other : frame.file ≠ file := by
        rintro rfl
        simp at closed
      rw [marksIn_cons, if_neg other]
      refine ih hlater fun h => closed ?_
      simp only [List.map_cons, List.cons_append, List.mem_cons, List.mem_append,
        satellites_includeOpen] at h ⊢
      tauto
    | includeClose =>
      cases outer with
      | nil => exact ih h closed
      | cons around outer => exact ih h fun h => closed (List.mem_cons_of_mem _ h)

/-! ## Both ways side by side -/

/-- The frames of both ways behind the same entries, with the brackets that are open there. Only the
frame of the single document goes on through an include. -/
inductive Stands (top : Frame) : List Bracket → Frame → List Frame → Frame → Prop
  | top : Stands top [] top [] top
  | struct {opened : List Bracket} {frame inline : Frame} {outer : List Frame}
      (around : Stands top opened frame outer inline) :
      Stands top (.struct :: opened) { frame with depth := frame.depth + 1 } outer
        { inline with depth := inline.depth + 1 }
  | file {opened : List Bracket} {frame inline : Frame} {outer : List Frame} (file : String)
      (around : Stands top opened frame outer inline) :
      Stands top (.file :: opened) ⟨file, 0, 0⟩ (frame :: outer) inline

/-- How far the references to open documents are indented. -/
def indentAround (outer : List Frame) : Nat := (outer.map Frame.indent).sum

theorem Stands.indent_eq {top frame inline : Frame} {opened : List Bracket} {outer : List Frame}
    (stands : Stands top opened frame outer inline) :
    inline.indent = indentAround outer + frame.indent := by
  induction stands with
  | top => simp [indentAround]
  | struct _ ih =>
    simp only [Frame.indent] at ih ⊢
    omega
  | @file _ frame _ outer _ _ ih =>
    rw [ih]
    simp [indentAround, Frame.indent]
    omega

theorem openBrackets_cons (opened : List Bracket) (entry : Entry) (rest : List Entry) :
    openBrackets opened (entry :: rest) =
      (entry.bracket opened).bind fun opened => openBrackets opened rest :=
  List.foldlM_cons ..

/-- A field goes on in the innermost document that is open. -/
theorem Stands.after {top frame inline : Frame} {opened opened' : List Bracket} {outer : List Frame}
    {field : Field} (stands : Stands top opened frame outer inline)
    (h : (Entry.field field).bracket opened = some opened') :
    Stands top opened' (frame.after field) outer (inline.after field) := by
  by_cases opens : field.role = .structOpen
  · obtain rfl : .struct :: opened = opened' := by simpa [Entry.bracket, opens] using h
    simpa [Frame.after, opens] using stands.struct
  by_cases closes : field.role = .structClose
  · cases stands with
    | top => simp [Entry.bracket, closes] at h
    | @struct around_opened _ _ _ around =>
      obtain rfl : around_opened = opened' := by simpa [Entry.bracket, closes] using h
      simpa [Frame.after, closes] using around
    | file => simp [Entry.bracket, closes] at h
  · obtain rfl : opened = opened' := by
      cases role : field.role <;> simp_all [Entry.bracket]
    have stays : ∀ frame : Frame, frame.after field = frame := by
      intro frame
      cases role : field.role <;> simp_all [Frame.after]
    rwa [stays, stays]

/-- What is left of the documents that are open, innermost first: the lines of each one, where
references are replaced, behind the indentation of the references to it. -/
inductive Unfolds (marks : String → List Mark) (trace : List (String × Mark)) :
    List Frame → List String → Prop
  | nil : Unfolds marks trace [] []
  | cons {frame : Frame} {outer : List Frame} {inner lines : List String}
      (here : Inlines marks (marksIn frame.file trace) inner)
      (around : Unfolds marks trace outer lines) :
      Unfolds marks trace (frame :: outer)
        (inner.map (fun line => OutputLine.render ⟨indentAround outer, line⟩) ++ lines)

theorem Unfolds.of_cons {marks : String → List Mark} {trace : List (String × Mark)} {frame : Frame}
    {outer : List Frame} {lines : List String} (h : Unfolds marks trace (frame :: outer) lines) :
    ∃ inner rest, Inlines marks (marksIn frame.file trace) inner ∧
      Unfolds marks trace outer rest ∧
      lines = inner.map (fun line => OutputLine.render ⟨indentAround outer, line⟩) ++ rest := by
  cases h with
  | cons here around => exact ⟨_, _, here, around, rfl⟩

theorem Unfolds.congr {marks : String → List Mark} {trace trace' : List (String × Mark)}
    {frames : List Frame} {lines : List String} (h : Unfolds marks trace frames lines)
    (same : ∀ frame ∈ frames, marksIn frame.file trace' = marksIn frame.file trace) :
    Unfolds marks trace' frames lines := by
  induction h with
  | nil => exact .nil
  | @cons frame _ _ _ here _ ih =>
    rw [← same frame (by simp)] at here
    exact .cons here (ih fun frame hframe => same frame (by simp [hframe]))

section

variable {marks : String → List Mark} {later : List (String × Mark)} {frame next : Frame}
  {outer : List Frame} {lines : List String}

/-- Lines that are added to the innermost document come first. -/
theorem Unfolds.text_append (unfolds : Unfolds marks later (next :: outer) lines)
    (same : next.file = frame.file) (apart : frame.file ∉ outer.map Frame.file)
    (own : List OutputLine) : Unfolds marks (textMarks frame.file own ++ later) (frame :: outer)
      ((own.map (OutputLine.shift (indentAround outer))).map OutputLine.render ++ lines) := by
  obtain ⟨inner, left, here, around, rfl⟩ := unfolds.of_cons
  rw [same] at here
  have here_all : Inlines marks (marksIn frame.file (textMarks frame.file own ++ later))
      (own.map OutputLine.render ++ inner) := by
    rw [marksIn_append, marksIn_textMarks, if_pos rfl]
    exact here.text_append own
  have around_all : Unfolds marks (textMarks frame.file own ++ later) outer left := by
    refine around.congr fun other hother => ?_
    have ne : frame.file ≠ other.file := fun h => apart (h ▸ List.mem_map_of_mem hother)
    rw [marksIn_append, marksIn_textMarks, if_neg ne, List.nil_append]
  have own_eq : (own.map (OutputLine.shift (indentAround outer))).map OutputLine.render =
      (own.map OutputLine.render).map fun line =>
        OutputLine.render ⟨indentAround outer, line⟩ := by
    simp [← render_shift]
  rw [own_eq, ← List.append_assoc, ← List.map_append]
  exact .cons here_all around_all

/-- What is left of a document that a reference was just made to is what the reference stands for. -/
theorem Unfolds.reference {file : String}
    (unfolds : Unfolds marks later (⟨file, 0, 0⟩ :: frame :: outer) lines)
    (target : marks file = marksIn file later) (apart : frame.file ∉ outer.map Frame.file) :
    Unfolds marks ((frame.file, .reference frame.indent file) :: later) (frame :: outer) lines := by
  obtain ⟨inner, left, target_lines, left_unfolds, rfl⟩ := unfolds.of_cons
  obtain ⟨own, left_around, here, around, rfl⟩ := left_unfolds.of_cons
  rw [← target] at target_lines
  have here_all : Inlines marks
      (marksIn frame.file ((frame.file, .reference frame.indent file) :: later))
      (inner.map (fun line => OutputLine.render ⟨frame.indent, line⟩) ++ own) := by
    rw [marksIn_cons, if_pos rfl]
    exact .reference target_lines here
  have around_all : Unfolds marks ((frame.file, .reference frame.indent file) :: later) outer
      left_around := by
    refine around.congr fun other hother => ?_
    have ne : frame.file ≠ other.file := fun h => apart (h ▸ List.mem_map_of_mem hother)
    rw [marksIn_cons, if_neg ne]
  -- The indentation of the reference comes on top of that of the references around it.
  have inner_eq : inner.map (fun line =>
      OutputLine.render ⟨indentAround (frame :: outer), line⟩) =
      (inner.map fun line => OutputLine.render ⟨frame.indent, line⟩).map fun line =>
        OutputLine.render ⟨indentAround outer, line⟩ := by
    rw [List.map_map]
    refine List.map_congr_left fun line _ => ?_
    rw [Function.comp, ← render_shift]
    simp [OutputLine.shift, indentAround, Nat.add_comm]
  rw [inner_eq, ← List.append_assoc, ← List.map_append]
  exact .cons here_all around_all

/-- Nothing is left of a document that is complete. -/
theorem Unfolds.complete (unfolds : Unfolds marks later outer lines)
    (none : marksIn frame.file later = []) : Unfolds marks later (frame :: outer) lines := by
  have here : Inlines marks (marksIn frame.file later) [] := by
    rw [none]
    exact .nil
  exact .cons here unfolds

end

/-- What is left of the single document is what is left of the documents that are open. -/
theorem Stands.unfolds {marks : String → List Mark} {top frame inline : Frame}
    {opened : List Bracket} {outer : List Frame} {stream : List Entry}
    {trace : List (String × Mark)} (stands : Stands top opened frame outer inline)
    (nested : openBrackets opened stream = some [])
    (distinct : ((frame :: outer).map Frame.file ++ satellites stream).Nodup)
    (h : written rules table frame outer stream = .ok trace)
    (targets : ∀ file ∈ satellites stream, marks file = marksIn file trace) :
    ∃ lines, shown rules table inline stream = .ok lines ∧
      Unfolds marks trace (frame :: outer) (lines.map OutputLine.render) := by
  induction stream generalizing opened frame outer inline trace with
  | nil =>
    cases h
    cases nested
    cases stands with
    | top => exact ⟨[], rfl, Unfolds.nil.complete rfl⟩
  | cons entry rest ih =>
    rw [openBrackets_cons] at nested
    obtain ⟨opened', step, nested_rest⟩ := Option.bind_eq_some_iff.1 nested
    obtain ⟨fresh, distinct_around⟩ := List.nodup_cons.1 distinct
    have apart : frame.file ∉ outer.map Frame.file := fun h => fresh (List.mem_append_left _ h)
    cases entry with
    | field field =>
      obtain ⟨texts, htexts, h⟩ := bind_eq_ok.1 h
      obtain ⟨later, hlater, h⟩ := bind_eq_ok.1 h
      cases h
      have targets_later : ∀ file ∈ satellites rest, marks file = marksIn file later := by
        intro file hfile
        have ne : frame.file ≠ file := fun h => fresh (h ▸ List.mem_append_right _ hfile)
        rw [targets file hfile, marksIn_append, marksIn_textMarks, if_neg ne, List.nil_append]
      obtain ⟨lines, hlines, unfolds⟩ :=
        ih (stands.after step) nested_rest (by simpa using distinct) hlater targets_later
      refine ⟨texts.map (OutputLine.shift inline.indent) ++ lines, ?_, ?_⟩
      · rw [shown, htexts, hlines]
        rfl
      · have all := unfolds.text_append (file_after frame field) apart
          (texts.map (OutputLine.shift frame.indent))
        rw [List.map_map] at all
        rw [List.map_append, stands.indent_eq]
        simpa [Function.comp_def, shift_shift] using all
    | includeOpen path =>
      obtain ⟨later, hlater, h⟩ := bind_eq_ok.1 h
      cases h
      cases step
      have targets_later : ∀ file ∈ satelliteName path :: satellites rest,
          marks file = marksIn file later := by
        intro file hfile
        have ne : frame.file ≠ file := fun h => fresh (h ▸ List.mem_append_right _ hfile)
        rw [targets file hfile, marksIn_cons, if_neg ne]
      obtain ⟨lines, hlines, unfolds⟩ := ih (stands.file (satelliteName path)) nested_rest
        (List.perm_middle.nodup_iff.1 distinct) hlater
        fun file hfile => targets_later file (List.mem_cons_of_mem _ hfile)
      exact ⟨lines, hlines, unfolds.reference (targets_later _ (by simp)) apart⟩
    | includeClose =>
      cases stands with
      | top => cases step
      | struct => cases step
      | @file _ around_frame _ around_outer file around =>
        cases step
        have h_rest : written rules table around_frame around_outer rest = .ok trace := h
        obtain ⟨lines, hlines, unfolds⟩ := ih around nested_rest distinct_around h_rest targets
        exact ⟨lines, hlines, unfolds.complete (marksIn_eq_nil h_rest fresh)⟩

/-! ## Descriptions -/

/-- Without templates the entries follow the preface. -/
theorem schema_nil (all : Bool) (top : String) (bindings : List Binding) (configs : List Entry) :
    (schema { rules with emitAll := all } table top bindings [] configs).outcome =
      (entries { rules with emitAll := all } table ⟨top, 2, 0⟩ []
        ((documents [top] fun _ => rules.heading).write top (preface rules bindings))
        configs).outcome := by
  have lines : ⟨0, "variable:"⟩ :: bindingLines { rules with emitAll := all } bindings ++
      [⟨0, ""⟩] ++ [⟨0, "template:"⟩] ++ [⟨0, ""⟩, ⟨0, "configs:"⟩] = preface rules bindings := by
    simp [preface, bindingLines, Rules.substitute]
  simp only [schema, bodies, Logged.outcome_bind, Logged.outcome_pure, Logged.outcome_noteAll,
    ok_bind, write_write]
  rw [lines]
  exact bind_pure _

/-- The documents of a description without templates. -/
theorem schema_emitAll {top : String} {bindings : List Binding} {configs : List Entry}
    (distinct : (top :: satellites configs).Nodup) :
    (schema { rules with emitAll := true } table top bindings [] configs).outcome = do
      let trace ← schemaMarks rules table top bindings configs
      return documents (top :: satellites configs) fun file =>
        rules.heading ++ (marksIn file trace).map Mark.render := by
  have at_configs : (⟨top, 2, 0⟩ : Frame) = (⟨none, 2, 0⟩ : Site).frame top := rfl
  have marks := @written_eq rules table top ⟨none, 2, 0⟩ [] configs
  rw [List.map_nil, ← at_configs] at marks
  have referred : bodyReferences { rules with emitAll := true } [] ++
      references { rules with emitAll := true } configs = satellites configs := by
    simp [bodyReferences, references]
  have before : textMarks top (preface rules bindings) =
      textMarks top (⟨0, "variable:"⟩ :: bindingLines rules bindings ++ [⟨0, ""⟩]) ++
        textMarks top [⟨0, "template:"⟩] ++ textMarks top [⟨0, ""⟩, ⟨0, "configs:"⟩] := by
    simp [textMarks, preface]
  rw [schema_eq, schemaMarks, schemaTrace, marks, referred]
  simp only [tracedBodies, bind_assoc, pure_bind, documentsOf, eraseDups_of_nodup distinct]
  refine bind_congr fun trace => congrArg pure (List.map_congr_left fun file _ => ?_)
  simp only [linesOf_eq, List.map_append, placed_linesAt, before, List.append_nil]
  rfl

/-- The one document of a description without templates. -/
theorem schema_inline (top : String) (bindings : List Binding) (configs : List Entry) :
    (schema { rules with emitAll := false } table top bindings [] configs).outcome = do
      let lines ← shown rules table ⟨top, 2, 0⟩ configs
      return [⟨top, rules.heading ++ (preface rules bindings ++ lines).map OutputLine.render⟩] := by
  rw [schema_nil, entries_inline]
  refine bind_congr fun lines => ?_
  rw [write_write, write_documents]
  simp [documents]

/-- Documents of their own for include targets and a single document are written alike: one fails
just where the other does, and the lines of the single document are those of the top document with
each reference replaced. -/
theorem schema_satellites {top : String} {bindings : List Binding} {configs : List Entry}
    (nested : BracketsNested configs) (distinct : (top :: satellites configs).Nodup) :
    (∀ error,
      (schema { rules with emitAll := true } table top bindings [] configs).outcome =
          .error error ↔
        (schema { rules with emitAll := false } table top bindings [] configs).outcome =
          .error error) ∧
    ∀ bundle,
      (schema { rules with emitAll := true } table top bindings [] configs).outcome =
          .ok bundle →
        ∃ trace lines, schemaMarks rules table top bindings configs = .ok trace ∧
          bundle = documents (top :: satellites configs) (fun file =>
            rules.heading ++ (marksIn file trace).map Mark.render) ∧
          (∀ found, Inlines (marksIn · trace) (marksIn top trace) found ↔ found = lines) ∧
          (schema { rules with emitAll := false } table top bindings [] configs).outcome =
            .ok [⟨top, rules.heading ++ lines⟩] := by
  rw [schema_emitAll distinct, schema_inline]
  constructor
  · intro error
    rw [bind_eq_error, bind_eq_error, schemaMarks, bind_eq_error,
      shown_eq_error_iff ⟨top, 2, 0⟩ ⟨top, 2, 0⟩ []]
    simp [pure, Except.pure]
  · intro bundle h
    obtain ⟨trace, hmarks, h⟩ := bind_eq_ok.1 h
    obtain ⟨later, hwritten, hlater⟩ := bind_eq_ok.1 hmarks
    cases h
    cases hlater
    let all := textMarks top (preface rules bindings) ++ later
    have targets : ∀ file ∈ satellites configs, marksIn file all = marksIn file later := by
      intro file hfile
      have other : top ≠ file := by
        rintro rfl
        exact (List.nodup_cons.1 distinct).1 hfile
      rw [marksIn_append, marksIn_textMarks, if_neg other, List.nil_append]
    have stands : Stands ⟨top, 2, 0⟩ [] ⟨top, 2, 0⟩ [] ⟨top, 2, 0⟩ := .top
    obtain ⟨lines, hlines, unfolds⟩ := stands.unfolds nested distinct hwritten targets
    obtain ⟨inner, left, here, none, hinner⟩ := unfolds.of_cons
    cases none
    have inlines : Inlines (marksIn · all) (marksIn top all)
        ((preface rules bindings ++ lines).map OutputLine.render) := by
      simp only [indentAround, List.map_nil, List.sum_nil, render_zero, List.map_id',
        List.append_nil] at hinner
      rw [marksIn_append, marksIn_textMarks, if_pos rfl, List.map_append, hinner]
      exact here.text_append _
    refine ⟨all, _, hmarks, rfl, fun found => ⟨fun h => h.unique inlines, ?_⟩, by rw [hlines]; rfl⟩
    rintro rfl
    exact inlines

/-- A structure from an include file with another include in it, inside a structure. The help of a
field has two lines. -/
def includeInStructure : List Entry :=
  [.field { name := "BOARD", role := .structOpen, line := 1 },
    .includeOpen "cfg/Uart.dlt",
    .field { name := "UART", role := .structOpen, line := 1 },
    .field { name := "Baud", role := .plain, line := 2, length := .fixed 4, value := some "115200"
             metadata := { help := some "Bits\nper second" } },
    .includeOpen "Pins.dlt",
    .field { name := "Tx", role := .plain, line := 1, length := .fixed 1 },
    .includeClose,
    .field { name := "UART", role := .structClose, line := 3 },
    .includeClose,
    .field { name := "Rest", role := .plain, line := 2, length := .fixed 2 },
    .field { name := "BOARD", role := .structClose, line := 3 }]

theorem includeInStructure_satellites : BracketsNested includeInStructure ∧
    ("top.yaml" :: satellites includeInStructure).Nodup ∧
    (∀ error,
      (schema { emitAll := true } [] "top.yaml" [] [] includeInStructure).outcome =
          .error error ↔
        (schema { emitAll := false } [] "top.yaml" [] [] includeInStructure).outcome =
          .error error) ∧
    ∃ bundle,
      (schema { emitAll := true } [] "top.yaml" [] [] includeInStructure).outcome = .ok bundle ∧
        bundle.map (fun document => (document.file, document.lines.drop 8)) =
          [("top.yaml", ["variable:", "", "template:", "", "configs:", "  - BOARD :",
              "    - !include Uart.yaml", "    - Rest :", "        length       : 0x02"]),
            ("Uart.yaml", ["- UART :", "  - Baud :", "      help         : >", "        Bits",
              "        per second", "      length       : 0x04", "      value        : 115200",
              "  - !include Pins.yaml"]),
            ("Pins.yaml", ["- Tx :", "    length       : 0x01"])] ∧
        ∃ trace lines, schemaMarks {} [] "top.yaml" [] includeInStructure = .ok trace ∧
          bundle = documents ("top.yaml" :: satellites includeInStructure) (fun file =>
            Rules.heading {} ++ (marksIn file trace).map Mark.render) ∧
          (∀ found, Inlines (marksIn · trace) (marksIn "top.yaml" trace) found ↔
            found = lines) ∧
          (schema { emitAll := false } [] "top.yaml" [] [] includeInStructure).outcome =
            .ok [⟨"top.yaml", Rules.heading {} ++ lines⟩] := by
  have nested : BracketsNested includeInStructure := by decide
  have distinct : ("top.yaml" :: satellites includeInStructure).Nodup := by decide +kernel
  have view : (schema { emitAll := true } [] "top.yaml" [] []
      includeInStructure).outcome.toOption.map (fun bundle =>
        bundle.map fun document => (document.file, document.lines.drop 8)) = some
      [("top.yaml", ["variable:", "", "template:", "", "configs:", "  - BOARD :",
          "    - !include Uart.yaml", "    - Rest :", "        length       : 0x02"]),
        ("Uart.yaml", ["- UART :", "  - Baud :", "      help         : >", "        Bits",
          "        per second", "      length       : 0x04", "      value        : 115200",
          "  - !include Pins.yaml"]),
        ("Pins.yaml", ["- Tx :", "    length       : 0x01"])] := by
    decide +kernel
  obtain ⟨bundle, h, view⟩ := exists_eq_ok view
  obtain ⟨fails, inlined⟩ :=
    @schema_satellites {} [] "top.yaml" [] includeInStructure nested distinct
  exact ⟨nested, distinct, fails, bundle, h, view, inlined bundle h⟩

end Rendering
end BoardSchema
