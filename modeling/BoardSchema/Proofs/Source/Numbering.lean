import BoardSchema.Field.Builder
import BoardSchema.Proofs.Line.Pieces
import BoardSchema.Source.Document
/-!
Numbering the lines of a source anew. What is said of lines, and the entries that they declare, bear
other line numbers then and are the same apart from that: nothing looks at the number of a line.
-/
namespace BoardSchema

variable {number : Nat → Nat}

/-! ## What bears line numbers -/

def SourceLine.renumber (number : Nat → Nat) (line : SourceLine) : SourceLine :=
  { line with number := number line.number }

def CompileError.renumber (number : Nat → Nat) : CompileError → CompileError
  | malformedPragma line key detail => malformedPragma (number line) key detail
  | malformedField line detail => malformedField (number line) detail
  | offsetRegression line name offset cursor => offsetRegression (number line) name offset cursor
  | unterminatedTemplate line name => unterminatedTemplate (number line) name
  | templateReopened line name current => templateReopened (number line) name current
  | unmatchedTemplateEnd line name => unmatchedTemplateEnd (number line) name
  | unknownTemplateReference line name => unknownTemplateReference (number line) name
  | recursiveTemplate line name => recursiveTemplate (number line) name
  | unresolvedLength line name length => unresolvedLength (number line) name length
  | bitFieldSyntax line text => bitFieldSyntax (number line) text
  | bitFieldOverflow line name last bits => bitFieldOverflow (number line) name last bits
  | unbalancedInclude line => unbalancedInclude (number line)
  | unbalancedStruct line name => unbalancedStruct (number line) name
  | unsupportedSourceFormat path why => unsupportedSourceFormat path why
  | invalidRules => invalidRules
  | file path cause => file path cause

theorem CompileError.line?_renumber (error : CompileError) :
    (error.renumber number).line? = error.line?.map number := by
  cases error <;> rfl

def Notice.renumber (number : Nat → Nat) : Notice → Notice
  | recovered error => recovered (error.renumber number)
  | repeatedStart line template => repeatedStart (number line) template
  | strayField line => strayField (number line)
  | unknownWidth list length => unknownWidth list length
  | fixupSkipped pattern name => fixupSkipped pattern name
  | fixupUnused pattern => fixupUnused pattern
  | compiled path fields templates size => compiled path fields templates size

def Pragma.renumber (number : Nat → Nat) (pragma : Pragma) : Pragma :=
  { pragma with malformed := pragma.malformed.map (·.renumber number) }

def LineEvent.renumber (number : Nat → Nat) : LineEvent → LineEvent
  | bsf pragma => bsf (pragma.renumber number)
  | hdr pragma => hdr (pragma.renumber number)
  | event => event

def Field.renumber (number : Nat → Nat) (field : Field) : Field :=
  { field with line := number field.line }

def Entry.renumber (number : Nat → Nat) : Entry → Entry
  | field declared => field (declared.renumber number)
  | includeOpen path => includeOpen path
  | includeClose => includeClose

@[simp] theorem Entry.renumber_field (declared : Field) :
    (Entry.field declared).renumber number = .field (declared.renumber number) := rfl

def Built.renumber (number : Nat → Nat) (built : Built) : Built where
  entries := built.entries.map (·.renumber number)
  problems := built.problems.map (·.renumber number)

/-! ## Outcomes -/

section

variable {α α' β β' : Type} {become : α → α'} {become' : β → β'}

/-- The same outcome of a source that is numbered anew, where `become` does so to results. -/
def renumberOutcome (number : Nat → Nat) (become : α → α') :
    Except CompileError α → Except CompileError α'
  | .error error => .error (error.renumber number)
  | .ok a => .ok (become a)

theorem renumberOutcome_bind {x : Except CompileError α} {x' : Except CompileError α'}
    {f : α → Except CompileError β} {f' : α' → Except CompileError β'}
    (first : x' = renumberOutcome number become x)
    (later : ∀ a, f' (become a) = renumberOutcome number become' (f a)) :
    (x' >>= f') = renumberOutcome number become' (x >>= f) := by
  subst first
  cases x with
  | error error => rfl
  | ok a => exact later a

namespace Logged

/-- The same computation on a source that is numbered anew. -/
def renumber (number : Nat → Nat) (become : α → α') (x : Logged α) : Logged α' where
  notices := x.notices.map (·.renumber number)
  outcome := renumberOutcome number become x.outcome

theorem renumber_bind {x : Logged α} {x' : Logged α'} {f : α → Logged β} {f' : α' → Logged β'}
    (first : x' = x.renumber number become)
    (later : ∀ a, f' (become a) = (f a).renumber number become') :
    (x' >>= f') = (x >>= f).renumber number become' := by
  subst first
  obtain ⟨notices, outcome⟩ := x
  cases outcome with
  | error error => rfl
  | ok a =>
    have left : (renumber number become ⟨notices, .ok a⟩ >>= f') =
        ⟨notices.map (·.renumber number) ++ (f' (become a)).notices, (f' (become a)).outcome⟩ := rfl
    rw [left, later, mk_ok_bind]
    simp [renumber]

theorem renumber_ofExcept (x : Except CompileError α) :
    ofExcept (renumberOutcome number become x) = (ofExcept x).renumber number become := rfl

theorem renumber_noteAll (notices : List Notice) :
    noteAll (notices.map (·.renumber number)) = (noteAll notices).renumber number id := rfl

end Logged
end

/-! ## Lines -/

theorem Pragma.scan_renumber (line : Nat) (text : List Char) :
    scan (number line) text = (scan line text).renumber number := by
  fun_induction scan line text with
  | case1 text blank =>
    rw [scan]
    split
    · rfl
    · next some => cases blank.symm.trans some
  | case2 text c more shown key body found upper value rest ended later ih =>
    rw [scan_of_blockStart? _ (by rw [shown, found]), ended]
    dsimp only
    rw [ih]
    rfl
  | case3 text c more shown key body found upper open_ended =>
    rw [scan_of_blockStart? _ (by rw [shown, found]), open_ended]
    rfl
  | case4 text c more shown found token later ih =>
    rw [scan_of_blockStart?_none _ shown found, ih]
    rfl

theorem Declaration.parse_renumber (line : Nat) (text : List Char) :
    parse (number line) text = renumberOutcome number id (parse line text) := by
  unfold parse
  dsimp only
  split
  · split
    · rfl
    · split
      · rfl
      · split
        · rfl
        · split <;> rfl
  · rfl

namespace LineEvent

theorem ofComment_renumber (line : SourceLine) (text : List Char) :
    ofComment (line.renumber number) text =
      renumberOutcome number (·.renumber number) (ofComment line text) := by
  unfold ofComment
  split
  · rw [SourceLine.renumber, Pragma.scan_renumber]
    rfl
  · rw [SourceLine.renumber, Pragma.scan_renumber]
    rfl
  · split <;> rfl
  · rfl
  · rfl

theorem ofLine_renumber (line : SourceLine) :
    ofLine (line.renumber number) = renumberOutcome number (·.renumber number) (ofLine line) := by
  have same : (line.renumber number).section? = line.section? := rfl
  unfold ofLine
  rw [same]
  split
  · rfl
  · rw [SourceLine.renumber]
    dsimp only
    split
    · exact ofComment_renumber ..
    · split
      · rw [Declaration.parse_renumber]
        cases Declaration.parse line.number _ <;> rfl
      · rfl

end LineEvent

/-! ## Entries -/

namespace Builder

def Step.renumber (number : Nat → Nat) (step : Step) : Step where
  builder := step.builder
  problems := step.problems.map (·.renumber number)
  result := renumberOutcome number (List.map (·.renumber number)) step.result

theorem headerArgs_renumber (line : Nat) (rule : HeaderRule) (tag : Option Nat)
    (args : List String) : headerArgs (number line) rule tag args =
      (headerArgs line rule tag args).map id (List.map (·.renumber number)) := by
  unfold headerArgs
  dsimp only
  split
  · split
    · rfl
    · split <;> rfl
  · split <;> rfl

theorem expandCall?_renumber (rules : Rules) (line : Nat) (tag : Option Nat) (value : List Char) :
    expandCall? rules (number line) tag value =
      (expandCall? rules line tag value).map id (List.map (·.renumber number)) := by
  unfold expandCall?
  split
  · rfl
  · split
    · rfl
    · dsimp only
      split
      · rfl
      · rw [headerArgs_renumber]
        rfl

theorem applyBsf_renumber (rules : Rules) (line : Nat) (builder : Builder) (block : Block) :
    applyBsf rules (number line) builder block =
      (applyBsf rules line builder block).renumber number := by
  unfold applyBsf
  split
  · rfl
  · split
    · rfl
    · split <;> rfl
    · dsimp only
      rw [expandCall?_renumber]
      rcases expandCall? rules line _ _ with ⟨call, problems⟩
      cases call <;> rfl
    · rfl

theorem applyHdr_renumber (line : Nat) (builder : Builder) (block : Block) :
    applyHdr (number line) builder block = (applyHdr line builder block).renumber number := by
  unfold applyHdr
  split
  · split <;> rfl
  · rfl
  · rfl

theorem applyBlocks_renumber {apply apply' : Builder → Block → Step}
    (same : ∀ builder block, apply' builder block = (apply builder block).renumber number)
    (builder : Builder) (blocks : List Block) :
    applyBlocks apply' builder blocks = (applyBlocks apply builder blocks).renumber number := by
  induction blocks generalizing builder with
  | nil => rfl
  | cons block rest ih =>
    rw [applyBlocks, applyBlocks, same]
    obtain ⟨next, problems, result⟩ := apply builder block
    cases result with
    | error error => rfl
    | ok entries =>
      simp only [Step.renumber, renumberOutcome, ih]
      obtain ⟨last, later_problems, later⟩ := applyBlocks apply next rest
      cases later <;> simp [Except.map]

theorem applyPragma_renumber {apply apply' : Builder → Block → Step}
    (same : ∀ builder block, apply' builder block = (apply builder block).renumber number)
    (builder : Builder) (pragma : Pragma) :
    applyPragma apply' builder (pragma.renumber number) =
      (applyPragma apply builder pragma).renumber number := by
  simp [applyPragma, Pragma.renumber, applyBlocks_renumber same, Step.renumber]

theorem apply_renumber (rules : Rules) (builder : Builder) (line : Nat) (event : LineEvent) :
    builder.apply rules (number line) (event.renumber number) =
      (builder.apply rules line event).renumber number := by
  cases event with
  | bsf pragma => exact applyPragma_renumber (applyBsf_renumber rules line) builder pragma
  | hdr pragma => exact applyPragma_renumber (applyHdr_renumber line) builder pragma
  | declaration => rfl
  | includeOpen => rfl
  | includeClose => rfl
  | sectionHeader => rfl
  | unrecognized => rfl

end Builder

namespace Built

theorem ofLinesFrom_renumber (rules : Rules) (builder : Builder) (lines : List SourceLine) :
    ofLinesFrom rules builder (lines.map (·.renumber number)) =
      (ofLinesFrom rules builder lines).renumber number (·.renumber number) := by
  induction lines generalizing builder with
  | nil => rfl
  | cons line rest ih =>
    have read : Logged.ofExcept (LineEvent.ofLine (line.renumber number)) =
        (Logged.ofExcept (LineEvent.ofLine line)).renumber number (·.renumber number) := by
      rw [LineEvent.ofLine_renumber]
      rfl
    simp only [List.map_cons, ofLinesFrom]
    refine Logged.renumber_bind read fun event => ?_
    have step : builder.apply rules (line.renumber number).number (event.renumber number) =
        (builder.apply rules line.number event).renumber number :=
      Builder.apply_renumber rules builder line.number event
    rw [step]
    generalize builder.apply rules line.number event = step
    have noted : Logged.noteAll ((step.renumber number).problems.map .recovered) =
        (Logged.noteAll (step.problems.map .recovered)).renumber number id := by
      rw [← Logged.renumber_noteAll]
      simp [Builder.Step.renumber, Notice.renumber, Function.comp_def]
    refine Logged.renumber_bind noted fun _ => ?_
    refine Logged.renumber_bind (Logged.renumber_ofExcept step.result) fun entries => ?_
    refine Logged.renumber_bind (ih step.builder) fun later => ?_
    simp [Logged.renumber, Built.renumber, Builder.Step.renumber, pure, Logged.pure,
      renumberOutcome]

theorem ofLines_renumber (rules : Rules) (lines : List SourceLine) :
    ofLines rules (lines.map (·.renumber number)) =
      (ofLines rules lines).renumber number (·.renumber number) :=
  ofLinesFrom_renumber rules {} lines

end Built
end BoardSchema
