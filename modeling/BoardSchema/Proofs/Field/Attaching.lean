import BoardSchema.Proofs.Field.History
/-!
Which field metadata comes to. A field, a bit member and the start of a structure take all that was
given since something last took or dropped what waited; a call and the end of a structure have no
metadata, and a page marker has its own page only. So what stands behind such an input is the same
whatever metadata was given in front of it.
-/
namespace BoardSchema
open Builder

/-- What a field is, without its place and its size. -/
structure Label where
  name : String
  role : Role
  line : Nat
  isCall : Bool
  metadata : Metadata
  deriving DecidableEq

def Field.label (field : Field) : Label :=
  ⟨field.name, field.role, field.line, field.expand.isSome, field.metadata⟩

namespace Builder

/-- The template that a call names. -/
def calledTemplate? (value : List Char) : Option String :=
  match (value.splitOn ':').map Text.trim with
  | [] => none
  | template :: _ => if template.isEmpty then none else some (String.ofList template)

/-- The field that an input declares behind the inputs in front of it. -/
def Input.label? (before : List Input) : Input → Option Label
  | .declaration line d => some ⟨d.name, .plain, line, false, waiting before⟩
  | .block .bsf line read =>
    match read.key with
    | "PAGES" => some ⟨"$ACTION", .action, line, false, { page := some read.value }⟩
    | "FIELD" => (bitMember? read.value.toList).map fun (name, _) =>
      ⟨name, .bitField, line, false, waiting before⟩
    | "SUBT" => (calledTemplate? read.value.toList).map fun template =>
      ⟨template, .plain, line, true, {}⟩
    | _ => none
  | .block .hdr line read => (Input.block .hdr line read).bound?.map fun
    | .start name _ => ⟨name, .structOpen, line, false, waiting before⟩
    | .stop name => ⟨name, .structClose, line, false, {}⟩
  | _ => none

/-- The fields that inputs declare one after the other, behind those in front of them. -/
def labels (before : List Input) : List Input → List Label
  | [] => []
  | input :: rest => (input.label? before).toList ++ labels (before ++ [input]) rest

def labelsOf (entries : List Entry) : List Label := (entries.filterMap Entry.field?).map Field.label

variable {rules : Rules} {builder last : Builder} {input : Input} {before inputs : List Input}
  {problems : List CompileError} {entries : List Entry}

theorem labelsOf_append (left right : List Entry) :
    labelsOf (left ++ right) = labelsOf left ++ labelsOf right := by
  simp [labelsOf]

theorem map_template_expandCall? (rules : Rules) (line : Nat) (tag : Option Nat)
    (value : List Char) :
    (expandCall? rules line tag value).1.map (·.template) = calledTemplate? value := by
  rw [expandCall?, calledTemplate?]
  cases (value.splitOn ':').map Text.trim with
  | nil => rfl
  | cons template args =>
    dsimp only
    split
    · rfl
    · split <;> rfl

/-- The tag of the innermost of the structures that are open. -/
def innermostTag? (opened : List (String × Option Nat)) : Option Nat := opened.head?.bind (·.2)

/-- A call becomes a field in the place of the template, and nothing waits behind it. -/
theorem applyBsf_call (rules : Rules) (line : Nat) (builder : Builder) (value : String) :
    applyBsf rules line builder ⟨"SUBT", value⟩ =
      { builder := { builder with pending := {} }
        problems := (expandCall? rules line (innermostTag? builder.embeds) value.toList).2
        result := .ok <|
          (expandCall? rules line (innermostTag? builder.embeds) value.toList).1.toList.map
            fun call => .field { name := call.template, role := .plain, line
                                 length := .symbolic "", expand := some call } } :=
  rfl

section

variable (waits : builder.pending = waiting before)
include waits

theorem labelsOf_applyBsf {line : Nat} {read : Block}
    (applied : applyBsf rules line builder read = ⟨last, problems, .ok entries⟩) :
    labelsOf entries = ((Input.block .bsf line read).label? before).toList := by
  unfold applyBsf at applied
  split at applied
  next key shown =>
    cases applied
    obtain ⟨-, word⟩ := fieldKey?_eq_some_iff.1 shown
    have no_label : (Input.block .bsf line read).label? before = none := by
      rw [Input.label?, word]
      cases key <;> rfl
    rw [no_label]
    rfl
  next no_key =>
    split at applied
    next shown =>
      cases applied
      simp [labelsOf, Input.label?, shown, Entry.field?, Field.label]
    next shown =>
      split at applied
      · cases applied
      · next member =>
        cases applied
        simp [labelsOf, Input.label?, shown, Entry.field?, Field.label, member, waits]
    next shown =>
      replace applied := (applyBsf_call rules line builder read.value).symm.trans applied
      rw [Input.label?, shown, ← map_template_expandCall? rules line (innermostTag? builder.embeds)]
      generalize expandCall? rules line (innermostTag? builder.embeds) read.value.toList = called
        at applied ⊢
      cases applied
      cases called.1 <;> simp [labelsOf, Entry.field?, Field.label]
    next no_page no_member no_call =>
      cases applied
      simp [labelsOf, Input.label?]

theorem labelsOf_applyHdr {line : Nat} {read : Block}
    (applied : applyHdr line builder read = ⟨last, problems, .ok entries⟩) :
    labelsOf entries = ((Input.block .hdr line read).label? before).toList := by
  unfold applyHdr at applied
  split at applied
  next shown =>
    rw [Input.label?, bound?_hdr shown]
    split at applied
    next wrong =>
      cases applied
      simp [labelsOf, wrong, Except.toOption]
    next starts =>
      cases applied
      simp [labelsOf, starts, Except.toOption, Entry.field?, Field.label, waits]
    next stops =>
      cases applied
      simp [labelsOf, stops, Except.toOption, Entry.field?, Field.label]
  next shown =>
    cases applied
    simp [labelsOf, Input.label?, Input.bound?, shown]
  next no_embed _ =>
    cases applied
    rw [Input.label?, Input.bound?, if_neg no_embed]
    rfl

theorem labelsOf_apply (applied : input.apply rules builder = ⟨last, problems, .ok entries⟩) :
    labelsOf entries = (input.label? before).toList := by
  cases input with
  | declaration line d =>
    cases applied
    simp [labelsOf, Input.label?, Entry.field?, Field.label, waits]
  | includeOpen path =>
    cases applied
    rfl
  | includeClose =>
    cases applied
    rfl
  | block kind line read =>
    cases kind with
    | bsf => exact labelsOf_applyBsf waits applied
    | hdr => exact labelsOf_applyHdr waits applied

/-- What a run declares is told by its inputs. -/
theorem labelsOf_run (runs : run rules builder inputs = ⟨last, problems, .ok entries⟩) :
    labelsOf entries = labels before inputs := by
  induction inputs generalizing before builder problems entries with
  | nil =>
    obtain ⟨-, -, rfl⟩ := run_nil_eq_ok.1 runs
    rfl
  | cons input rest ih =>
    obtain ⟨middle, here, first, there, later, step, behind, -, rfl⟩ := run_cons_eq_ok.1 runs
    -- Behind the first input waits what is told by the inputs up to it.
    have takes := takes_apply step
    rw [waits] at takes
    rw [labelsOf_append, labelsOf_apply waits step, ih takes.waiting behind, labels]

end

/-- Behind an input that consumes what waits, a builder is known from the bounds of structures. -/
theorem after_eq_of_consumes {before before' : List Input} (consumes : input.consumes = true)
    (bounds : before.filterMap Input.bound? = before'.filterMap Input.bound?)
    {middle middle' : Builder} {here here' : List CompileError} {front front' : List Entry}
    (runs : run rules {} (before ++ [input]) = ⟨middle, here, .ok front⟩)
    (runs' : run rules {} (before' ++ [input]) = ⟨middle', here', .ok front'⟩) :
    middle = middle' := by
  -- A builder holds what waits and what is open, and behind the input nothing waits.
  have embeds : middle.embeds = middle'.embeds := by
    rw [← after_of_run runs, ← after_of_run runs', embeds_after, embeds_after]
    simp only [List.filterMap_append, bounds]
  have pending : middle.pending = middle'.pending := by
    have nothing (key : MetaKey) (before : List Input) :
        waitingText (before ++ [input]) key = none := by
      rw [waitingText_concat, if_pos consumes]
    rw [pending_of_run runs, pending_of_run runs', waiting, waiting]
    congr 1
    funext key
    rw [nothing, nothing]
  cases middle
  cases middle'
  cases embeds
  cases pending
  rfl

end Builder

/-- The fields of lines and their metadata are told by the inputs in front of each of them, and what
is built behind an input that consumes what waits is the same behind all inputs with the same bounds
of structures, whatever metadata is among them. -/
theorem ofLines_metadata {rules : Rules} {lines : List SourceLine} {built : Built}
    (h : (Built.ofLines rules lines).outcome = .ok built) :
    labelsOf built.entries = labels [] (lines.flatMap SourceLine.inputs) ∧
    ∀ lines' built', (Built.ofLines rules lines').outcome = .ok built' →
      ∀ before before' input behind,
        lines.flatMap SourceLine.inputs = before ++ input :: behind →
        lines'.flatMap SourceLine.inputs = before' ++ input :: behind →
        input.consumes = true →
        before.filterMap Input.bound? = before'.filterMap Input.bound? →
        ∃ front front' back, built.entries = front ++ back ∧ built'.entries = front' ++ back ∧
          (run rules {} (before ++ [input])).result = .ok front ∧
          (run rules {} (before' ++ [input])).result = .ok front' := by
  obtain ⟨last, problems, runs⟩ := Built.run_of_ofLinesFrom h
  refine ⟨labelsOf_run (Metadata.eq_ofTexts Metadata.get_empty) runs, ?_⟩
  intro lines' built' h' before before' input behind split split' consumes bounds
  obtain ⟨last', problems', runs'⟩ := Built.run_of_ofLinesFrom h'
  rw [split, List.append_cons] at runs
  rw [split', List.append_cons] at runs'
  obtain ⟨middle, here, front, there, back, start, stop, -, whole⟩ := run_append_eq_ok.1 runs
  obtain ⟨middle', here', front', there', back', start', stop', -, whole'⟩ :=
    run_append_eq_ok.1 runs'
  -- Both runs stand at one builder behind the input, so what follows is one run.
  obtain rfl := after_eq_of_consumes consumes bounds start start'
  cases stop.symm.trans stop'
  exact ⟨front, front', back, whole.symm, whole'.symm, by rw [start], by rw [start']⟩

/-- A name that a call drops, and then a name and a help text of two lines for the field that
follows. -/
def speedLines (dropped : String) : List SourceLine :=
  [⟨1, "# !BSF NAME:\x7b" ++ dropped ++ "\x7d"⟩,
    ⟨2, "# !BSF SUBT:\x7bPINS\x7d"⟩,
    ⟨3, "# !BSF NAME:\x7bSpeed\x7d HELP:\x7bFirst line\x7d"⟩,
    ⟨4, "# !BSF HELP:\x7b+ second line\x7d"⟩,
    ⟨5, "MemSpeed|*|2|0x640"⟩,
    ⟨6, "Other|*|1|0"⟩]

deriving instance DecidableEq for Input

theorem speedLines_metadata : ∃ built built',
    (Built.ofLines {} (speedLines "Old")).outcome = .ok built ∧
    (Built.ofLines {} (speedLines "New")).outcome = .ok built' ∧
    labelsOf built.entries = [⟨"PINS", .plain, 2, true, {}⟩,
      ⟨"MemSpeed", .plain, 5, false,
        { name := some "Speed", help := some "First line\nsecond line" }⟩,
      ⟨"Other", .plain, 6, false, {}⟩] ∧
    ∃ front front' back, built.entries = front ++ back ∧ built'.entries = front' ++ back ∧
      front.length = 1 ∧ front'.length = 1 := by
  have count (name : String) (mem : name ∈ ["Old", "New"]) :
      (Built.ofLines {} (speedLines name)).outcome.toOption.map (·.entries.length) = some 3 := by
    revert name
    decide +kernel
  obtain ⟨built, hbuilt, -⟩ := exists_eq_ok (count "Old" (by simp))
  obtain ⟨built', hbuilt', -⟩ := exists_eq_ok (count "New" (by simp))
  have told : labels [] ((speedLines "Old").flatMap SourceLine.inputs) =
      [⟨"PINS", .plain, 2, true, {}⟩,
      ⟨"MemSpeed", .plain, 5, false,
        { name := some "Speed", help := some "First line\nsecond line" }⟩,
      ⟨"Other", .plain, 6, false, {}⟩] := by
    decide +kernel
  have split (name : String) (mem : name ∈ ["Old", "New"]) :
      (speedLines name).flatMap SourceLine.inputs = [.block .bsf 1 ⟨"NAME", name⟩] ++
        .block .bsf 2 ⟨"SUBT", "PINS"⟩ :: ((speedLines "").drop 2).flatMap SourceLine.inputs := by
    revert name
    decide +kernel
  obtain ⟨fields, apart⟩ := ofLines_metadata hbuilt
  obtain ⟨front, front', back, whole, whole', start, start'⟩ :=
    apart _ _ hbuilt' _ _ _ _ (split "Old" (by simp)) (split "New" (by simp)) rfl rfl
  refine ⟨built, built', hbuilt, hbuilt', fields.trans told, front, front', back, whole, whole',
    ?_, ?_⟩
  · cases start
    rfl
  · cases start'
    rfl

end BoardSchema
