import BoardSchema.Proofs.Field.Builder
import BoardSchema.Proofs.Line.Parts
/-!
Lines as a run of inputs. A pragma feeds its blocks to the builder one after the other, and every
other line is one input or none, so the entries of lines are those of their inputs in a row, and each
problem that is passed over is found at one line, or at one input of it.
-/
namespace BoardSchema
namespace Builder

/-- What a builder is fed at a time. -/
inductive Input where
  | declaration (line : Nat) (declaration : Declaration)
  | includeOpen (path : String)
  | includeClose
  | block (kind : Pragma.Kind) (line : Nat) (block : Block)

/-- A block of a pragma of this kind. -/
def applyBlock (rules : Rules) (line : Nat) : Pragma.Kind → Builder → Block → Step
  | .bsf => applyBsf rules line
  | .hdr => applyHdr line

def Input.apply (rules : Rules) (builder : Builder) : Input → Step
  | .declaration line d => builder.apply rules line (.declaration d)
  | .includeOpen path => { builder, result := .ok [.includeOpen path] }
  | .includeClose => { builder, result := .ok [.includeClose] }
  | .block kind line read => applyBlock rules line kind builder read

/-- Input after input, up to the first error. -/
def run (rules : Rules) (builder : Builder) : List Input → Step
  | [] => { builder }
  | input :: rest =>
    let first := input.apply rules builder
    match first.result with
    | .error error => { first with result := .error error }
    | .ok entries =>
      let later := run rules first.builder rest
      { later with
        problems := first.problems ++ later.problems
        result := later.result.map (entries ++ ·) }

/-- The builder behind inputs. -/
def after (rules : Rules) (builder : Builder) (inputs : List Input) : Builder :=
  inputs.foldl (fun builder input => (input.apply rules builder).builder) builder

end Builder

open Builder

def LineEvent.inputs (line : Nat) : LineEvent → List Input
  | .declaration d => [.declaration line d]
  | .includeOpen path => [.includeOpen path]
  | .includeClose => [.includeClose]
  | .bsf pragma => pragma.blocks.map (.block .bsf line)
  | .hdr pragma => pragma.blocks.map (.block .hdr line)
  | .sectionHeader _ => []
  | .unrecognized => []

/-- A line that cannot be read feeds nothing to the builder. -/
def SourceLine.inputs (line : SourceLine) : List Input :=
  match LineEvent.ofLine line with
  | .ok event => event.inputs line.number
  | .error _ => []

variable {rules : Rules} {builder last : Builder} {inputs left right : List Input}
  {problems : List CompileError} {entries : List Entry} {error : CompileError}

theorem SourceLine.inputs_of_read {line : SourceLine} {event : LineEvent}
    (read : LineEvent.ofLine line = .ok event) : line.inputs = event.inputs line.number := by
  rw [inputs, read]

theorem LineEvent.inputs_event (line : Nat) (kind : Pragma.Kind) (pragma : Pragma) :
    (kind.event pragma).inputs line = pragma.blocks.map (.block kind line) := by
  cases kind <;> rfl

/-! ## Runs -/

namespace Builder

theorem run_nil_eq_ok : run rules builder [] = ⟨last, problems, .ok entries⟩ ↔
    builder = last ∧ [] = problems ∧ [] = entries := by
  simp [run]

theorem run_cons_eq_ok {input : Input} :
    run rules builder (input :: right) = ⟨last, problems, .ok entries⟩ ↔
      ∃ middle here first there later, input.apply rules builder = ⟨middle, here, .ok first⟩ ∧
        run rules middle right = ⟨last, there, .ok later⟩ ∧
        here ++ there = problems ∧ first ++ later = entries := by
  rw [run]
  rcases step : input.apply rules builder with ⟨middle, here, error | first⟩
  · simp
  rcases rest : run rules middle right with ⟨final, there, error | later⟩
  · simp [rest, Except.map]
  · simp only [Except.map, Step.mk.injEq, Except.ok.injEq]
    constructor
    · rintro ⟨rfl, rfl, rfl⟩
      exact ⟨middle, here, first, there, later, ⟨rfl, rfl, rfl⟩, by rw [rest], rfl, rfl⟩
    · rintro ⟨_, _, _, _, _, ⟨rfl, rfl, rfl⟩, same, rfl, rfl⟩
      rw [rest] at same
      cases same
      exact ⟨rfl, rfl, rfl⟩

/-- A run stands still between any two of its inputs. -/
theorem run_append_eq_ok :
    run rules builder (left ++ right) = ⟨last, problems, .ok entries⟩ ↔
      ∃ middle here first there later, run rules builder left = ⟨middle, here, .ok first⟩ ∧
        run rules middle right = ⟨last, there, .ok later⟩ ∧
        here ++ there = problems ∧ first ++ later = entries := by
  induction left generalizing builder problems entries with
  | nil =>
    simp only [List.nil_append, run_nil_eq_ok]
    constructor
    · intro whole
      exact ⟨builder, [], [], problems, entries, ⟨rfl, rfl, rfl⟩, whole, rfl, rfl⟩
    · rintro ⟨_, _, _, _, _, ⟨rfl, rfl, rfl⟩, whole, rfl, rfl⟩
      exact whole
  | cons input left ih =>
    simp only [List.cons_append, run_cons_eq_ok, ih]
    constructor
    · rintro ⟨b, p, e, _, _, step, ⟨middle, p', e', q, e'', front, behind, rfl, rfl⟩, rfl, rfl⟩
      exact ⟨middle, _, _, q, e'', ⟨b, p, e, p', e', step, front, rfl, rfl⟩, behind,
        by simp, by simp⟩
    · rintro ⟨middle, _, _, q, e'', ⟨b, p, e, p', e', step, front, rfl, rfl⟩, behind, rfl, rfl⟩
      exact ⟨b, p, e, _, _, step, ⟨middle, p', e', q, e'', front, behind, rfl, rfl⟩,
        by simp, by simp⟩

theorem after_append : after rules builder (left ++ right) =
    after rules (after rules builder left) right := List.foldl_append

theorem after_of_run (runs : run rules builder inputs = ⟨last, problems, .ok entries⟩) :
    after rules builder inputs = last := by
  induction inputs generalizing builder problems entries with
  | nil =>
    obtain ⟨rfl, -, -⟩ := run_nil_eq_ok.1 runs
    rfl
  | cons input rest ih =>
    obtain ⟨middle, here, first, there, later, step, behind, -, -⟩ := run_cons_eq_ok.1 runs
    rw [after, List.foldl_cons, step]
    exact ih behind

/-- Whatever was passed over in a run was passed over at one of its inputs. -/
theorem mem_problems_run (runs : run rules builder inputs = ⟨last, problems, .ok entries⟩) :
    error ∈ problems ↔ ∃ left input right, inputs = left ++ input :: right ∧
      error ∈ (input.apply rules (after rules builder left)).problems := by
  induction inputs generalizing builder problems entries with
  | nil =>
    obtain ⟨-, rfl, -⟩ := run_nil_eq_ok.1 runs
    simp
  | cons first rest ih =>
    obtain ⟨middle, here, e, there, e', step, later, rfl, rfl⟩ := run_cons_eq_ok.1 runs
    have behind (left : List Input) :
        after rules builder (first :: left) = after rules middle left := by
      rw [after, List.foldl_cons, step, after]
    rw [List.mem_append, ih later]
    constructor
    · rintro (mem | ⟨left, input, right, rfl, mem⟩)
      · exact ⟨[], first, rest, rfl, by rwa [after, List.foldl_nil, step]⟩
      · exact ⟨first :: left, input, right, rfl, by rwa [behind]⟩
    · rintro ⟨left, input, right, split, mem⟩
      cases left with
      | nil =>
        cases split
        rw [after, List.foldl_nil, step] at mem
        exact .inl mem
      | cons first left =>
        cases split
        exact .inr ⟨left, input, right, rfl, by rwa [behind] at mem⟩

theorem applyBlocks_eq_run (kind : Pragma.Kind) (line : Nat) (builder : Builder)
    (blocks : List Block) : applyBlocks (applyBlock rules line kind) builder blocks =
      run rules builder (blocks.map (.block kind line)) := by
  induction blocks generalizing builder with
  | nil => rfl
  | cons block rest ih =>
    rw [applyBlocks, List.map_cons, run, Input.apply]
    cases (applyBlock rules line kind builder block).result with
    | error error => rfl
    | ok entries => rw [ih]

theorem apply_event (line : Nat) (builder : Builder) (kind : Pragma.Kind) (pragma : Pragma) :
    builder.apply rules line (kind.event pragma) =
      { run rules builder (pragma.blocks.map (.block kind line)) with
        problems := pragma.malformed ++
          (run rules builder (pragma.blocks.map (.block kind line))).problems } := by
  rw [← applyBlocks_eq_run]
  cases kind <;> rfl

/-- A line is built as its inputs are, and what is wrong with the text of a pragma is passed over
first. -/
theorem apply_eq_run (rules : Rules) (line : Nat) (builder : Builder) (event : LineEvent) :
    ∃ malformed, builder.apply rules line event =
      { run rules builder (event.inputs line) with
        problems := malformed ++ (run rules builder (event.inputs line)).problems } := by
  cases event with
  | bsf pragma => exact ⟨_, apply_event line builder .bsf pragma⟩
  | hdr pragma => exact ⟨_, apply_event line builder .hdr pragma⟩
  | declaration d => exact ⟨[], by simp [LineEvent.inputs, run, Input.apply, apply, Except.map]⟩
  | includeOpen path => exact ⟨[], by simp [LineEvent.inputs, run, Input.apply, apply, Except.map]⟩
  | includeClose => exact ⟨[], by simp [LineEvent.inputs, run, Input.apply, apply, Except.map]⟩
  | sectionHeader name => exact ⟨[], rfl⟩
  | unrecognized => exact ⟨[], rfl⟩

end Builder

/-! ## Lines -/

namespace Built

variable {lines : List SourceLine}

/-- The entries of lines are those of their inputs in a row. -/
theorem run_of_ofLinesFrom {built : Built}
    (h : (ofLinesFrom rules builder lines).outcome = .ok built) :
    ∃ last problems,
      run rules builder (lines.flatMap SourceLine.inputs) = ⟨last, problems, .ok built.entries⟩ := by
  induction lines generalizing builder built with
  | nil =>
    cases h
    exact ⟨builder, [], rfl⟩
  | cons line rest ih =>
    obtain ⟨event, first, later, read, here, there, rfl⟩ := ofLinesFrom_cons h
    obtain ⟨malformed, same⟩ := apply_eq_run rules line.number builder event
    rw [same] at here there
    obtain ⟨last, problems, behind⟩ := ih there
    rw [List.flatMap_cons, SourceLine.inputs_of_read read]
    exact ⟨last, _, run_append_eq_ok.2
      ⟨_, _, first, problems, later.entries, by rw [← here], behind, rfl, rfl⟩⟩

theorem ofLinesFrom_of_run (reads : ∀ line ∈ lines, ∃ event, LineEvent.ofLine line = .ok event)
    (runs : run rules builder (lines.flatMap SourceLine.inputs) = ⟨last, problems, .ok entries⟩) :
    ∃ built, (ofLinesFrom rules builder lines).outcome = .ok built ∧ built.entries = entries := by
  induction lines generalizing builder problems entries with
  | nil =>
    obtain ⟨-, -, rfl⟩ := run_nil_eq_ok.1 runs
    exact ⟨⟨[], []⟩, rfl, rfl⟩
  | cons line rest ih =>
    obtain ⟨⟨event, read⟩, reads⟩ := List.forall_mem_cons.1 reads
    rw [List.flatMap_cons, SourceLine.inputs_of_read read] at runs
    obtain ⟨middle, here, first, there, later, front, behind, -, rfl⟩ := run_append_eq_ok.1 runs
    obtain ⟨malformed, same⟩ := apply_eq_run rules line.number builder event
    rw [front] at same
    obtain ⟨built, hbuilt, rfl⟩ := ih reads behind
    exact ⟨_, ofLinesFrom_cons_eq_ok read (by rw [same]) (by rw [same]; exact hbuilt), rfl⟩

theorem reads_of_ofLinesFrom {built : Built}
    (h : (ofLinesFrom rules builder lines).outcome = .ok built) :
    ∀ line ∈ lines, ∃ event, LineEvent.ofLine line = .ok event := by
  induction lines generalizing builder built with
  | nil => simp
  | cons line rest ih =>
    obtain ⟨event, -, later, read, -, there, -⟩ := ofLinesFrom_cons h
    exact List.forall_mem_cons.2 ⟨⟨event, read⟩, ih there⟩

/-- Whatever was passed over was passed over at one of the lines. -/
theorem mem_problems_ofLinesFrom {built : Built}
    (h : (ofLinesFrom rules builder lines).outcome = .ok built) :
    error ∈ built.problems ↔ ∃ before line behind event, lines = before ++ line :: behind ∧
      LineEvent.ofLine line = .ok event ∧
      error ∈ ((after rules builder (before.flatMap SourceLine.inputs)).apply rules line.number
        event).problems := by
  induction lines generalizing builder built with
  | nil =>
    cases h
    simp
  | cons first rest ih =>
    obtain ⟨event, entries, later, read, here, there, rfl⟩ := ofLinesFrom_cons h
    obtain ⟨malformed, same⟩ := apply_eq_run rules first.number builder event
    have middle (before : List SourceLine) :
        after rules builder ((first :: before).flatMap SourceLine.inputs) =
          after rules (builder.apply rules first.number event).builder
            (before.flatMap SourceLine.inputs) := by
      have front : after rules builder first.inputs =
          (builder.apply rules first.number event).builder := by
        rw [SourceLine.inputs_of_read read, same]
        rw [same] at here
        exact after_of_run (by rw [← here])
      rw [List.flatMap_cons, after_append, front]
    rw [List.mem_append, ih there]
    constructor
    · rintro (mem | ⟨before, line, behind, event, rfl, read, mem⟩)
      · exact ⟨[], first, rest, event, rfl, read, mem⟩
      · exact ⟨first :: before, line, behind, event, rfl, read, by rwa [middle]⟩
    · rintro ⟨before, line, behind, event', split, read', mem⟩
      cases before with
      | nil =>
        cases split
        cases read.symm.trans read'
        exact .inl mem
      | cons first before =>
        cases split
        exact .inr ⟨before, line, behind, event', rfl, read', by rwa [middle] at mem⟩

end Built
end BoardSchema
