import BoardSchema.Proofs.Field.Waiting
/-!
Faulty parts of pragmas. Each problem that is passed over comes from one part of a pragma, and lines
that are built are built without that part too. What else is built is the same, except that a call
builds an entry even if its structure has no tag, and that a call without a name, which builds none,
drops the metadata that waits all the same.
-/
namespace BoardSchema
open Builder

/-- A part of a pragma that is to be deleted from its line. -/
structure Deletion where
  before : List SourceLine
  number : Nat
  margin : Pragma.Margin
  text : Pragma.Cut
  behind : List SourceLine

namespace Deletion

def lines (d : Deletion) : List SourceLine :=
  d.before ++ d.margin.line d.number d.text.text :: d.behind

/-- The lines with the part deleted. -/
def shortened (d : Deletion) : List SourceLine :=
  d.before ++ d.margin.line d.number d.text.shortened :: d.behind

def blockInputs (d : Deletion) (blocks : List Block) : List Input :=
  blocks.map (.block d.margin.kind d.number)

def inputsBefore (d : Deletion) : List Input :=
  d.before.flatMap SourceLine.inputs ++ d.blockInputs (d.text.left.filterMap (·.item.block?))

def input? (d : Deletion) : Option Input :=
  d.text.part.block?.map (.block d.margin.kind d.number)

def inputsBehind (d : Deletion) : List Input :=
  d.blockInputs (Pragma.scan d.number d.text.behind).blocks ++ d.behind.flatMap SourceLine.inputs

/-- The builder in front of the part. -/
def builder (d : Deletion) (rules : Rules) : Builder := after rules {} d.inputsBefore

/-- What becomes of the part. -/
def step (d : Deletion) (rules : Rules) : Step :=
  match d.input? with
  | some input => input.apply rules (d.builder rules)
  | none =>
    { builder := d.builder rules, problems := (d.text.part.error? d.number).toList }

/-- The part is a block that is to put a template in. -/
def IsCall (d : Deletion) : Prop := ∃ value, d.input? = some (.block .bsf d.number ⟨"SUBT", value⟩)

/-- The part is no call, or it builds nothing and no metadata waits in front of it that would come to
a field behind it. -/
def Harmless (d : Deletion) (rules : Rules) : Prop :=
  d.IsCall → (d.step rules).result = .ok [] ∧
    ∀ key, (d.builder rules).pending.get key ≠ none → reaches key d.inputsBehind = false

variable {rules : Rules} {d : Deletion} {built : Built} {error : CompileError}

theorem inputs_margin (margin : Pragma.Margin) (number : Nat) (text : List Char) :
    (margin.line number text).inputs =
      (Pragma.scan number text).blocks.map (.block margin.kind number) := by
  rw [SourceLine.inputs_of_read (Pragma.ofLine_margin margin number text)]
  exact LineEvent.inputs_event ..

theorem step_of_input {input : Input} (fed : d.input? = some input) :
    d.step rules = input.apply rules (d.builder rules) := by
  rw [step, fed]

theorem step_of_none (fed : d.input? = none) : d.step rules =
    { builder := d.builder rules, problems := (d.text.part.error? d.number).toList } := by
  rw [step, fed]

theorem inputs_lines (d : Deletion) :
    d.lines.flatMap SourceLine.inputs = d.inputsBefore ++ (d.input?.toList ++ d.inputsBehind) := by
  simp only [lines, List.flatMap_append, List.flatMap_cons, inputs_margin, d.text.scan_text,
    inputsBefore, input?, inputsBehind, blockInputs]
  cases d.text.part.block? <;> simp

theorem inputs_shortened (d : Deletion) :
    d.shortened.flatMap SourceLine.inputs = d.inputsBefore ++ d.inputsBehind := by
  simp [shortened, inputs_margin, d.text.scan_shortened, inputsBefore, inputsBehind, blockInputs]

/-! ## What a faulty block does -/

/-- A call leaves nothing waiting. -/
theorem apply_call (rules : Rules) (line : Nat) (value : String) (builder : Builder) :
    ∃ problems entries, (Input.block .bsf line ⟨"SUBT", value⟩).apply rules builder =
      ⟨⟨{}, builder.embeds⟩, problems, .ok entries⟩ :=
  ⟨_, _, rfl⟩

/-- A block that is passed over and is no call does nothing at all. -/
theorem apply_of_problems {line : Nat} {kind : Pragma.Kind} {block : Block} {builder : Builder}
    (faulty : (applyBlock rules line kind builder block).problems ≠ [])
    (no_call : ∀ value, Input.block kind line block ≠ .block .bsf line ⟨"SUBT", value⟩) :
    ∃ problems, applyBlock rules line kind builder block = ⟨builder, problems, .ok []⟩ := by
  cases kind with
  | bsf =>
    obtain ⟨key, value⟩ := block
    simp only [applyBlock] at faulty ⊢
    unfold applyBsf at faulty
    split at faulty
    · exact absurd rfl faulty
    · split at faulty
      · exact absurd rfl faulty
      · split at faulty <;> exact absurd rfl faulty
      · next shown => exact absurd (by rw [show key = "SUBT" from shown]) (no_call value)
      · exact absurd rfl faulty
  | hdr =>
    simp only [applyBlock, applyHdr] at faulty ⊢
    split at faulty
    · split at faulty
      · exact ⟨_, rfl⟩
      · exact absurd rfl faulty
      · exact absurd rfl faulty
    · exact absurd rfl faulty
    · exact absurd rfl faulty

/-! ## Deleting a faulty part -/

theorem builder_of_run {rest : List Input} {last : Builder} {problems : List CompileError}
    {entries : List Entry}
    (runs : run rules {} (d.inputsBefore ++ rest) = ⟨last, problems, .ok entries⟩) :
    ∃ here first there later, run rules {} d.inputsBefore = ⟨d.builder rules, here, .ok first⟩ ∧
      run rules (d.builder rules) rest = ⟨last, there, .ok later⟩ ∧ first ++ later = entries := by
  obtain ⟨middle, here, first, there, later, front, behind, -, same⟩ := run_append_eq_ok.1 runs
  obtain rfl : d.builder rules = middle := after_of_run front
  exact ⟨here, first, there, later, front, behind, same⟩

theorem reads_shortened (h : (Built.ofLines rules d.lines).outcome = .ok built) :
    ∀ line ∈ d.shortened, ∃ event, LineEvent.ofLine line = .ok event := by
  have reads := Built.reads_of_ofLinesFrom h
  simp only [lines, shortened, List.forall_mem_append, List.forall_mem_cons] at reads ⊢
  exact ⟨reads.1, ⟨_, Pragma.ofLine_margin ..⟩, reads.2.2⟩

/-- Without the part the lines behind it are built from what waits in front of it. -/
theorem ofLines_shortened (h : (Built.ofLines rules d.lines).outcome = .ok built)
    {here : List CompileError} {first : List Entry}
    (front : run rules {} d.inputsBefore = ⟨d.builder rules, here, .ok first⟩)
    {last : Builder} {there : List CompileError} {later : List Entry}
    (behind : run rules (d.builder rules) d.inputsBehind = ⟨last, there, .ok later⟩) :
    ∃ built', (Built.ofLines rules d.shortened).outcome = .ok built' ∧
      built'.entries = first ++ later := by
  have runs : run rules {} (d.shortened.flatMap SourceLine.inputs) =
      ⟨last, here ++ there, .ok (first ++ later)⟩ := by
    rw [inputs_shortened]
    exact run_append_eq_ok.2 ⟨_, _, _, _, _, front, behind, rfl, rfl⟩
  exact Built.ofLinesFrom_of_run (reads_shortened h) runs

/-- In a builder in which nothing waits, all that waited in front of the call is missing. -/
theorem harmless_iff_of_call (call : d.IsCall) {own : List Entry}
    (own_step : (d.step rules).result = .ok own) : d.Harmless rules ↔ own = [] ∧
      ∀ key, ({} : Metadata).get key ≠ (d.builder rules).pending.get key →
        reaches key d.inputsBehind = false := by
  have waits (key : MetaKey) : (({} : Metadata).get key ≠ (d.builder rules).pending.get key) ↔
      (d.builder rules).pending.get key ≠ none := by
    rw [show ({} : Metadata).get key = none from Metadata.get_empty key]
    exact ne_comm
  simp [Harmless, call, own_step, waits]

/-- What stands behind a call is built with nothing waiting, and without the call with what waits in
front of it. -/
theorem call_iff (h : (Built.ofLines rules d.lines).outcome = .ok built) (call : d.IsCall) :
    ∃ built', (Built.ofLines rules d.shortened).outcome = .ok built' ∧
      (built.entries = built'.entries ↔ d.Harmless rules) := by
  obtain ⟨value, fed⟩ := call
  obtain ⟨last, problems, runs⟩ := Built.run_of_ofLinesFrom h
  rw [inputs_lines, fed, Option.toList_some, List.singleton_append] at runs
  obtain ⟨here, first, there, later, front, behind, whole⟩ := builder_of_run runs
  obtain ⟨middle, p, own, q, rest, step, later, -, rfl⟩ := run_cons_eq_ok.1 behind
  obtain ⟨p', own', called⟩ := apply_call rules d.number value (d.builder rules)
  cases called.symm.trans step
  obtain ⟨last', rest', behind', length, same⟩ := run_waiting (d.builder rules).pending later
  obtain ⟨built', hbuilt', entries⟩ := ofLines_shortened h front behind'
  refine ⟨built', hbuilt', ?_⟩
  have own_step : (d.step rules).result = .ok own := by
    rw [step_of_input fed]
    exact congrArg Step.result called
  rw [← whole, entries, List.append_right_inj, harmless_iff_of_call ⟨value, fed⟩ own_step, ← same]
  constructor
  · -- With an entry of its own the call makes the entries more than they are without it.
    intro equal
    have own_nil : own = [] := by
      have lengths := congrArg List.length equal
      rw [List.length_append, length] at lengths
      exact List.eq_nil_of_length_eq_zero (by omega)
    exact ⟨own_nil, by rwa [own_nil] at equal⟩
  · rintro ⟨rfl, equal⟩
    exact equal

/-- Every other faulty part leaves the builder as it is. -/
theorem exact_of_no_call (h : (Built.ofLines rules d.lines).outcome = .ok built)
    (faulty : (d.step rules).problems ≠ []) (no_call : ¬d.IsCall) :
    (d.step rules).builder = d.builder rules ∧
    ∃ built', (Built.ofLines rules d.shortened).outcome = .ok built' ∧
      built.entries = built'.entries := by
  obtain ⟨last, problems, runs⟩ := Built.run_of_ofLinesFrom h
  rw [inputs_lines] at runs
  obtain ⟨here, first, there, later, front, behind, whole⟩ := builder_of_run runs
  cases fed : d.input? with
  | none =>
    rw [fed] at behind
    obtain ⟨built', hbuilt', entries⟩ := ofLines_shortened h front behind
    exact ⟨by rw [step_of_none fed], built', hbuilt', whole.symm.trans entries.symm⟩
  | some input =>
    rw [fed] at behind
    rw [step_of_input fed] at faulty ⊢
    obtain ⟨block, -, rfl⟩ := Option.map_eq_some_iff.1 fed
    obtain ⟨problems', nothing⟩ := apply_of_problems faulty fun value same =>
      no_call ⟨value, fed.trans (congrArg some same)⟩
    obtain ⟨middle, p, own, q, rest, step, later, -, rfl⟩ := run_cons_eq_ok.1 behind
    cases nothing.symm.trans step
    obtain ⟨built', hbuilt', entries⟩ := ofLines_shortened h front later
    exact ⟨congrArg Step.builder nothing, built', hbuilt', whole.symm.trans entries.symm⟩

/-! ## Where problems come from -/

/-- The inputs of one of the lines, from the builder in front of it. -/
theorem run_line {before behind : List SourceLine} {line : SourceLine}
    (h : (Built.ofLines rules (before ++ line :: behind)).outcome = .ok built) :
    ∃ last problems entries, run rules (after rules {} (before.flatMap SourceLine.inputs))
      line.inputs = ⟨last, problems, .ok entries⟩ := by
  obtain ⟨last, problems, runs⟩ := Built.run_of_ofLinesFrom h
  rw [List.flatMap_append, List.flatMap_cons] at runs
  obtain ⟨middle, _, _, _, _, front, rest, -, -⟩ := run_append_eq_ok.1 runs
  obtain ⟨last, problems, entries, _, _, here, -, -, -⟩ := run_append_eq_ok.1 rest
  rw [after_of_run front]
  exact ⟨last, problems, entries, here⟩

/-- Only in pragmas something is passed over. -/
theorem exists_event_of_problems {event : LineEvent} {line : Nat} {builder : Builder}
    (mem : error ∈ (builder.apply rules line event).problems) :
    ∃ kind pragma, event = Pragma.Kind.event kind pragma := by
  cases event with
  | bsf pragma => exact ⟨.bsf, pragma, rfl⟩
  | hdr pragma => exact ⟨.hdr, pragma, rfl⟩
  | declaration d => cases mem
  | includeOpen path => cases mem
  | includeClose => cases mem
  | sectionHeader name => cases mem
  | unrecognized => cases mem

/-- What is passed over at a line is passed over at a part of its pragma. -/
theorem exists_deletion {before behind : List SourceLine} {line : SourceLine} {event : LineEvent}
    (h : (Built.ofLines rules (before ++ line :: behind)).outcome = .ok built)
    (read : LineEvent.ofLine line = .ok event)
    (mem : error ∈ ((after rules {} (before.flatMap SourceLine.inputs)).apply rules line.number
      event).problems) :
    ∃ d : Deletion, d.lines = before ++ line :: behind ∧ error ∈ (d.step rules).problems := by
  obtain ⟨kind, pragma, rfl⟩ := exists_event_of_problems mem
  obtain ⟨margin, text, rfl, same, rfl⟩ := Pragma.exists_margin read
  rw [apply_event] at mem
  rcases List.mem_append.1 mem with mem | mem
  · -- A token that is no block, or a block that is left open: nothing of it is fed to the builder.
    obtain ⟨cut, rfl, wrong⟩ := Pragma.Cut.exists_of_malformed mem
    have fed : input? ⟨before, line.number, margin, cut, behind⟩ = none := by
      rw [input?, Pragma.Part.block?_of_error? wrong, Option.map_none]
    refine ⟨⟨before, line.number, margin, cut, behind⟩, by simp only [lines, same], ?_⟩
    rw [step_of_none fed]
    simp [wrong]
  · -- A block: the builder met it behind the inputs of the lines and blocks in front of it.
    obtain ⟨last, problems, entries, here⟩ := run_line h
    rw [SourceLine.inputs_of_read read, LineEvent.inputs_event] at here
    rw [here, mem_problems_run here] at mem
    obtain ⟨left, input, right, split, mem⟩ := mem
    obtain ⟨blocks, more, found, rfl, behind_eq⟩ := List.map_eq_append_iff.1 split
    obtain ⟨block, rest, rfl, rfl, -⟩ := List.map_eq_cons_iff.1 behind_eq
    obtain ⟨cut, rfl, shown, rfl⟩ := Pragma.Cut.exists_of_block found
    have fed : input? ⟨before, line.number, margin, cut, behind⟩ =
        some (.block margin.kind line.number block) := by
      rw [input?, shown, Option.map_some]
    refine ⟨⟨before, line.number, margin, cut, behind⟩, by simp only [lines, same], ?_⟩
    rw [step_of_input fed, builder, inputsBefore, after_append]
    exact mem

/-- What is passed over at a part is passed over at its line. -/
theorem mem_problems_apply (h : (Built.ofLines rules d.lines).outcome = .ok built)
    (mem : error ∈ (d.step rules).problems) :
    error ∈ ((after rules {} (d.before.flatMap SourceLine.inputs)).apply rules d.number
      (d.margin.kind.event (Pragma.scan d.number d.text.text))).problems := by
  rw [apply_event]
  cases fed : d.input? with
  | none =>
    rw [step_of_none fed] at mem
    have wrong : error ∈ (Pragma.scan d.number d.text.text).malformed := by
      rw [d.text.scan_text]
      exact List.mem_append_right _ (List.mem_append_left _ mem)
    exact List.mem_append_left _ wrong
  | some input =>
    rw [step_of_input fed, builder, inputsBefore, after_append] at mem
    obtain ⟨block, shown, rfl⟩ := Option.map_eq_some_iff.1 fed
    obtain ⟨last, problems, entries, here⟩ := run_line h
    rw [inputs_margin] at here
    refine List.mem_append_right _ ?_
    rw [here]
    refine (mem_problems_run here).2
      ⟨_, _, d.blockInputs (Pragma.scan d.number d.text.behind).blocks, ?_, mem⟩
    simp [d.text.scan_text, shown, blockInputs]

theorem mem_problems_iff {lines : List SourceLine}
    (h : (Built.ofLines rules lines).outcome = .ok built) :
    error ∈ built.problems ↔ ∃ d : Deletion, d.lines = lines ∧ error ∈ (d.step rules).problems := by
  rw [Built.mem_problems_ofLinesFrom h]
  constructor
  · rintro ⟨before, line, behind, event, rfl, read, mem⟩
    exact exists_deletion h read mem
  · rintro ⟨d, rfl, mem⟩
    exact ⟨d.before, _, d.behind, _, rfl, Pragma.ofLine_margin .., mem_problems_apply h mem⟩

end Deletion

/-- The problems that are recorded are those of single parts of pragmas. None of these parts changes
which structures are open, and without it the lines are built too: to the same entries if the part is
no call, and else if and only if the call builds nothing and no metadata that it drops would have
come to a field. -/
theorem ofLines_deletion {rules : Rules} {lines : List SourceLine} {built : Built}
    (h : (Built.ofLines rules lines).outcome = .ok built) :
    (∀ error, error ∈ built.problems ↔
      ∃ d : Deletion, d.lines = lines ∧ error ∈ (d.step rules).problems) ∧
    ∀ d : Deletion, d.lines = lines → (d.step rules).problems ≠ [] →
      (d.step rules).builder.embeds = (d.builder rules).embeds ∧
      (¬d.IsCall → (d.step rules).builder.pending = (d.builder rules).pending) ∧
      ∃ built', (Built.ofLines rules d.shortened).outcome = .ok built' ∧
        (built.entries = built'.entries ↔ d.Harmless rules) := by
  refine ⟨fun error => Deletion.mem_problems_iff h, ?_⟩
  rintro d rfl faulty
  by_cases call : d.IsCall
  · obtain ⟨value, fed⟩ := call
    refine ⟨by rw [Deletion.step_of_input fed]; rfl, fun no_call => absurd ⟨value, fed⟩ no_call, ?_⟩
    exact Deletion.call_iff h ⟨value, fed⟩
  · obtain ⟨same, built', hbuilt', entries⟩ := Deletion.exact_of_no_call h faulty call
    exact ⟨by rw [same], fun _ => by rw [same], built', hbuilt',
      iff_of_true entries fun is_call => absurd is_call call⟩

/-- A line with a name, one with a bound of a structure that is none, and a field. -/
def badBound : Deletion where
  before := [⟨1, "# !BSF NAME:\x7bSpeed\x7d"⟩]
  number := 2
  margin := ⟨.hdr, [], [' '], Pragma.blanks_nil, List.all_eq_true.1 (by decide)⟩
  text :=
    { lead := [' ']
      left := []
      part := .item (.block "EMBED".toList "S".toList
        ⟨by decide, List.all_eq_true.1 (by decide)⟩ ⟨by decide, by decide⟩)
      behind := []
      blank := List.all_eq_true.1 (by decide)
      apart := List.forall_mem_nil _
      ends := Pragma.Part.endsAt_of_block rfl _ }
  behind := [⟨3, "A|*|1|0"⟩]

/-- The names of fields, each with the text that waited for it under the key `NAME`. -/
def namedFields (lines : List SourceLine) : Option (List (String × Option String)) :=
  (Built.ofLines {} lines).outcome.toOption.map fun built =>
    (built.entries.filterMap Entry.field?).map fun field => (field.name, field.metadata.name)

/-- The field has its name with the bound and without it. -/
theorem badBound_deletion : ∃ built built',
    (Built.ofLines {} [⟨1, "# !BSF NAME:\x7bSpeed\x7d"⟩, ⟨2, "# !HDR EMBED:\x7bS\x7d"⟩,
      ⟨3, "A|*|1|0"⟩]).outcome = .ok built ∧
    .malformedPragma 2 "EMBED" "expected `NAME[:TAG_xxx]:START|END`, found `S`" ∈ built.problems ∧
    (Built.ofLines {} [⟨1, "# !BSF NAME:\x7bSpeed\x7d"⟩, ⟨2, "# !HDR "⟩,
      ⟨3, "A|*|1|0"⟩]).outcome = .ok built' ∧
    built.entries = built'.entries := by
  have whole : badBound.lines = [⟨1, "# !BSF NAME:\x7bSpeed\x7d"⟩,
      ⟨2, "# !HDR EMBED:\x7bS\x7d"⟩, ⟨3, "A|*|1|0"⟩] := by decide
  have shortened : badBound.shortened = [⟨1, "# !BSF NAME:\x7bSpeed\x7d"⟩, ⟨2, "# !HDR "⟩,
      ⟨3, "A|*|1|0"⟩] := by decide
  have shown : namedFields badBound.lines = some [("A", some "Speed")] := by decide +kernel
  have problems : (badBound.step {}).problems =
      [.malformedPragma 2 "EMBED" "expected `NAME[:TAG_xxx]:START|END`, found `S`"] := by
    decide +kernel
  have no_call : ¬badBound.IsCall := by
    rintro ⟨value, fed⟩
    cases fed
  obtain ⟨built, hbuilt, -⟩ := exists_eq_ok shown
  obtain ⟨recorded, exact⟩ := ofLines_deletion hbuilt
  obtain ⟨-, -, built', hbuilt', entries⟩ := exact badBound rfl (by simp [problems])
  rw [← whole, ← shortened]
  exact ⟨built, built', hbuilt, (recorded _).2 ⟨badBound, rfl, by simp [problems]⟩, hbuilt',
    entries.2 fun call => absurd call no_call⟩

/-- A name that waits, a call, and a field. -/
def namedCall (value : List Char) (isValue : Pragma.IsValue value) : Deletion where
  before := []
  number := 1
  margin := ⟨.bsf, [], [' '], Pragma.blanks_nil, List.all_eq_true.1 (by decide)⟩
  text :=
    { lead := [' ']
      left := [⟨.block "NAME".toList "Speed".toList ⟨by decide, List.all_eq_true.1 (by decide)⟩
        ⟨by decide, by decide⟩, [' '], List.all_eq_true.1 (by decide)⟩]
      part := .item (.block "SUBT".toList value ⟨by decide, List.all_eq_true.1 (by decide)⟩ isValue)
      behind := []
      blank := List.all_eq_true.1 (by decide)
      apart := by simp [Pragma.Item.block?]
      ends := Pragma.Part.endsAt_of_block rfl _ }
  behind := [⟨2, "A|*|1|0"⟩]

/-- A call without the name of a template. -/
def emptyCall : Deletion := namedCall [] ⟨by decide, by decide⟩

/-- A call of a header outside of all structures. -/
def taglessCall : Deletion := namedCall "CFGHDR_TMPL:A:TAG".toList ⟨by decide, by decide⟩

theorem exists_of_namedFields {d : Deletion} {named named' : List (String × Option String)}
    (whole : namedFields d.lines = some named) (short : namedFields d.shortened = some named')
    (ne : named ≠ named') : ∃ built built', (Built.ofLines {} d.lines).outcome = .ok built ∧
      (Built.ofLines {} d.shortened).outcome = .ok built' ∧ built.entries ≠ built'.entries := by
  obtain ⟨built, hbuilt, rfl⟩ := exists_eq_ok whole
  obtain ⟨built', hbuilt', rfl⟩ := exists_eq_ok short
  exact ⟨built, built', hbuilt, hbuilt', fun same => ne (by rw [same])⟩

/-- The call without a name takes the name that waits from the field, and the call of a header builds
an entry. -/
theorem faultyCalls_not_skipped :
    (emptyCall.lines = [⟨1, "# !BSF NAME:\x7bSpeed\x7d SUBT:\x7b\x7d"⟩, ⟨2, "A|*|1|0"⟩] ∧
      (emptyCall.step {}).problems = [.malformedPragma 1 "SUBT" "missing template name"] ∧
      ∃ built built', (Built.ofLines {} emptyCall.lines).outcome = .ok built ∧
        (Built.ofLines {} emptyCall.shortened).outcome = .ok built' ∧
        built.entries ≠ built'.entries) ∧
    taglessCall.lines = [⟨1, "# !BSF NAME:\x7bSpeed\x7d SUBT:\x7bCFGHDR_TMPL:A:TAG\x7d"⟩,
        ⟨2, "A|*|1|0"⟩] ∧
      (taglessCall.step {}).problems = [.malformedPragma 1 "SUBT"
        "header template `CFGHDR_TMPL` used outside of a tagged `EMBED` block"] ∧
      ∃ built built', (Built.ofLines {} taglessCall.lines).outcome = .ok built ∧
        (Built.ofLines {} taglessCall.shortened).outcome = .ok built' ∧
        built.entries ≠ built'.entries := by
  refine ⟨⟨by decide, by decide +kernel, ?_⟩, by decide, by decide +kernel, ?_⟩
  · have whole : namedFields emptyCall.lines = some [("A", none)] := by decide +kernel
    have short : namedFields emptyCall.shortened = some [("A", some "Speed")] := by decide +kernel
    exact exists_of_namedFields whole short (by decide)
  · have whole : namedFields taglessCall.lines = some [("CFGHDR_TMPL", none), ("A", none)] := by
      decide +kernel
    have short : namedFields taglessCall.shortened = some [("A", some "Speed")] := by
      decide +kernel
    exact exists_of_namedFields whole short (by decide)

end BoardSchema
