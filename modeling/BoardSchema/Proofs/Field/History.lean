import BoardSchema.Proofs.Field.Waiting
import Mathlib.Data.List.DropRight
/-!
What a builder has met, told from its inputs alone. The text that waits under a key is made of the
values given for it since something last took what waited, and the structures that are open are told
by the bounds of structures. So what is built behind an input that takes what waits does not depend
on the metadata in front of it.
-/
namespace BoardSchema

/-- The word under which a pragma gives the text of a key. -/
def MetaKey.word (key : MetaKey) : String := String.ofList (key.label.toList.map Char.toUpper)

/-- The pragma in which the text of a key is given. -/
def MetaKey.pragma : MetaKey → Pragma.Kind
  | .layout => .hdr
  | _ => .bsf

/-- A record of texts by their keys. -/
def Metadata.ofTexts (text : MetaKey → Option String) : Metadata where
  name := text .name
  kind := text .kind
  page := text .page
  choices := text .choices
  condition := text .condition
  help := text .help
  order := text .order
  marker := text .marker
  layout := text .layout

@[simp] theorem Metadata.get_ofTexts (text : MetaKey → Option String) (key : MetaKey) :
    (ofTexts text).get key = text key := by
  cases key <;> rfl

theorem Metadata.eq_ofTexts {metadata : Metadata} {text : MetaKey → Option String}
    (same : ∀ key, metadata.get key = text key) : metadata = ofTexts text :=
  ext_get fun key => by rw [same, get_ofTexts]

namespace Builder

/-- The value that an input gives for a key. -/
def Input.value? (key : MetaKey) : Input → Option String
  | .block kind _ read => if kind = key.pragma ∧ read.key = key.word then some read.value else none
  | _ => none

/-- The bound of a structure that an input is. -/
def Input.bound? : Input → Option Embed
  | .block .hdr _ read =>
    if read.key = "EMBED" then (embed read.value.toList).toOption else none
  | _ => none

/-- An input behind which nothing waits: a field or the start of a structure, which takes what
waits, or a call, which drops it. -/
def Input.consumes : Input → Bool
  | .declaration .. => true
  | .block .bsf _ read => read.key = "FIELD" || read.key = "SUBT"
  | .block .hdr line read =>
    match (Input.block .hdr line read).bound? with
    | some (.start ..) => true
    | _ => false
  | _ => false

/-- A text with one more value: a plain value takes its place, and one that starts with `+` goes on
behind it on a new line. -/
def joinText (text : Option String) (value : String) : Option String :=
  match value.toList with
  | '+' :: rest =>
    let more := String.ofList (Text.trimStart rest)
    some (text.elim more (· ++ "\n" ++ more))
  | _ => some value

/-- The text under a key that waits behind inputs. -/
def waitingText (inputs : List Input) (key : MetaKey) : Option String :=
  let recent := inputs.rtakeWhile fun input => !input.consumes
  (recent.filterMap (Input.value? key)).foldl joinText none

def waiting (inputs : List Input) : Metadata := .ofTexts (waitingText inputs)

variable {rules : Rules} {builder last : Builder} {input : Input} {inputs : List Input}
  {problems : List CompileError} {entries : List Entry} {key : MetaKey}

theorem waitingText_concat : waitingText (inputs ++ [input]) key =
    if input.consumes then none
    else (input.value? key).elim (waitingText inputs key) (joinText (waitingText inputs key)) := by
  cases consumes : input.consumes with
  | true => simp [waitingText, consumes]
  | false =>
    -- The input goes on the row of those since something last took what waits.
    rw [waitingText, List.rtakeWhile_concat_pos _ _ _ (by simp [consumes])]
    cases value : input.value? key <;> simp [waitingText, value]

theorem joinText_plain {value : String} (plain : ∀ rest, value.toList ≠ '+' :: rest)
    (text : Option String) : joinText text value = some value := by
  unfold joinText
  split
  · next shown => exact absurd shown (plain _)
  · rfl

theorem get_addMetadata (metadata : Metadata) (key other : MetaKey) (value : String) :
    (addMetadata metadata key value).get other =
      if other = key then joinText (metadata.get key) value else metadata.get other := by
  split
  · next same =>
    subst same
    unfold addMetadata
    split
    · next shown => cases text : metadata.get other <;> simp [joinText, shown]
    · next plain => rw [joinText_plain plain, Metadata.get_set_self]
  · next ne => rw [get_addMetadata_of_ne ne]

theorem fieldKey?_eq_some_iff {word : String} :
    fieldKey? word = some key ↔ .bsf = key.pragma ∧ word = key.word := by
  constructor
  · intro shown
    unfold fieldKey? at shown
    split at shown <;> cases shown <;> decide
  · rintro ⟨kind, rfl⟩
    cases key <;> first | rfl | cases kind

theorem value?_bsf {line : Nat} {read : Block} : (Input.block .bsf line read).value? key =
    if fieldKey? read.key = some key then some read.value else none := by
  simp only [Input.value?, fieldKey?_eq_some_iff]

/-- The metadata behind an input, where `pending` waits in front of it. -/
def Takes (input : Input) (pending pending' : Metadata) : Prop :=
  ∀ key, pending'.get key = if input.consumes then none
    else (input.value? key).elim (pending.get key) (joinText (pending.get key))

theorem Takes.empty (consumes : input.consumes = true) (pending : Metadata) :
    Takes input pending {} := fun key => by
  rw [if_pos consumes]
  exact Metadata.get_empty key

theorem Takes.same (keeps : input.consumes = false) (no_value : ∀ key, input.value? key = none)
    (pending : Metadata) : Takes input pending pending := fun key => by
  simp [keeps, no_value key]

theorem Takes.add {added : MetaKey} {value : String} (keeps : input.consumes = false)
    (values : ∀ key, input.value? key = if key = added then some value else none)
    (pending : Metadata) : Takes input pending (addMetadata pending added value) := fun key => by
  rw [keeps, values, get_addMetadata]
  by_cases same : key = added <;> simp [same]

theorem takes_applyBsf {line : Nat} {read : Block}
    (applied : applyBsf rules line builder read = ⟨last, problems, .ok entries⟩) :
    Takes (.block .bsf line read) builder.pending last.pending := by
  unfold applyBsf at applied
  split at applied
  next added shown =>
    cases applied
    refine .add ?_ (fun key => ?_) _
    · -- The words of keys are other words than those of blocks that make an entry.
      have no_member : read.key ≠ "FIELD" := fun same => by rw [same] at shown; cases shown
      have no_call : read.key ≠ "SUBT" := fun same => by rw [same] at shown; cases shown
      simp [Input.consumes, no_member, no_call]
    · rw [value?_bsf, shown]
      simp [eq_comm]
  next no_key =>
    have no_value (key : MetaKey) : (Input.block .bsf line read).value? key = none := by
      rw [value?_bsf, no_key, if_neg (by simp)]
    split at applied
    next shown =>
      cases applied
      exact .same (by simp [Input.consumes, shown]) no_value _
    next shown =>
      have consumes : (Input.block .bsf line read).consumes = true := by
        simp [Input.consumes, shown]
      split at applied
      · cases applied
      · cases applied
        exact .empty consumes _
    next shown =>
      cases applied
      exact .empty (by simp [Input.consumes, shown]) _
    next no_page no_member no_call =>
      cases applied
      exact .same (by simpa [Input.consumes] using ⟨no_member, no_call⟩) no_value _

theorem takes_applyHdr {line : Nat} {read : Block}
    (applied : applyHdr line builder read = ⟨last, problems, .ok entries⟩) :
    Takes (.block .hdr line read) builder.pending last.pending := by
  unfold applyHdr at applied
  split at applied
  next shown =>
    -- A bound has a word that is no key's.
    have no_value (key : MetaKey) : (Input.block .hdr line read).value? key = none := by
      cases key <;> simp [Input.value?, MetaKey.pragma, shown]; decide
    split at applied
    next detail wrong =>
      cases applied
      exact .same (by simp [Input.consumes, Input.bound?, shown, wrong, Except.toOption]) no_value _
    next name tag starts =>
      cases applied
      exact .empty (by simp [Input.consumes, Input.bound?, shown, starts, Except.toOption]) _
    next name stops =>
      cases applied
      exact .same (by simp [Input.consumes, Input.bound?, shown, stops, Except.toOption]) no_value _
  next shown =>
    cases applied
    refine .add (by simp [Input.consumes, Input.bound?, shown]) (fun key => ?_) _
    cases key <;> simp [Input.value?, MetaKey.pragma, shown]; decide
  next no_embed no_struct =>
    cases applied
    refine .same (by rw [Input.consumes, Input.bound?, if_neg no_embed]) (fun key => ?_) _
    cases key <;> simp [Input.value?, MetaKey.pragma]
    exact no_struct

theorem takes_apply (applied : input.apply rules builder = ⟨last, problems, .ok entries⟩) :
    Takes input builder.pending last.pending := by
  cases input with
  | declaration line d =>
    cases applied
    exact .empty rfl _
  | includeOpen path =>
    cases applied
    exact .same rfl (fun _ => rfl) _
  | includeClose =>
    cases applied
    exact .same rfl (fun _ => rfl) _
  | block kind line read =>
    cases kind with
    | bsf => exact takes_applyBsf applied
    | hdr => exact takes_applyHdr applied

/-- One more input turns what waits behind the inputs in front of it into what waits behind it. -/
theorem Takes.waiting {pending : Metadata} (takes : Takes input (waiting inputs) pending) :
    pending = Builder.waiting (inputs ++ [input]) :=
  Metadata.eq_ofTexts fun key => by
    rw [takes key, waitingText_concat, Builder.waiting, Metadata.get_ofTexts]

/-- What waits behind a run is told by its inputs. -/
theorem pending_of_run (runs : run rules {} inputs = ⟨last, problems, .ok entries⟩) :
    last.pending = waiting inputs := by
  -- From the end: the last input acts on what waits behind all inputs in front of it.
  induction inputs using List.reverseRecOn generalizing last problems entries with
  | nil =>
    obtain ⟨rfl, -, -⟩ := run_nil_eq_ok.1 runs
    exact Metadata.eq_ofTexts Metadata.get_empty
  | append_singleton front input ih =>
    obtain ⟨middle, here, first, there, later, before, behind, -, -⟩ := run_append_eq_ok.1 runs
    obtain ⟨middle', _, _, _, _, step, stop, -, -⟩ := run_cons_eq_ok.1 behind
    obtain ⟨rfl, -, -⟩ := run_nil_eq_ok.1 stop
    have takes := takes_apply step
    rw [ih before] at takes
    exact takes.waiting

/-! ## Open structures -/

/-- The structures that a builder holds open behind a bound. -/
def Embed.leaves (embeds : List (String × Option Nat)) : Embed → List (String × Option Nat)
  | .start name tag => (name, tag) :: embeds
  | .stop name => closeEmbed embeds name

theorem bound?_hdr {line : Nat} {read : Block} (bounds : read.key = "EMBED") :
    (Input.block .hdr line read).bound? = (embed read.value.toList).toOption :=
  if_pos bounds

theorem embeds_apply (rules : Rules) (builder : Builder) (input : Input) :
    (input.apply rules builder).builder.embeds =
      input.bound?.elim builder.embeds (Embed.leaves builder.embeds) := by
  cases input with
  | declaration line d => rfl
  | includeOpen path => rfl
  | includeClose => rfl
  | block kind line read =>
    cases kind with
    | bsf =>
      simp only [Input.apply, applyBlock, Input.bound?, Option.elim_none]
      unfold applyBsf
      split
      · rfl
      · split
        · rfl
        · split <;> rfl
        · rfl
        · rfl
    | hdr =>
      simp only [Input.apply, applyBlock]
      unfold applyHdr
      split
      · next bounds =>
        rw [bound?_hdr bounds]
        split <;> next shown => rw [shown]; rfl
      · next other =>
        simp [Input.bound?, other]
      · next no_embed _ =>
        rw [Input.bound?, if_neg no_embed]
        rfl

/-- Which structures are open is told by the bounds of structures. -/
theorem embeds_after (rules : Rules) (builder : Builder) (inputs : List Input) :
    (after rules builder inputs).embeds =
      (inputs.filterMap Input.bound?).foldl Embed.leaves builder.embeds := by
  induction inputs generalizing builder with
  | nil => rfl
  | cons input rest ih =>
    rw [after, List.foldl_cons, ← after, ih, embeds_apply]
    cases bound : input.bound? <;> simp [bound]

end Builder

/-! ## The place of an input -/

namespace Built
open Builder

variable {rules : Rules} {lines : List SourceLine} {built : Built} {input : Input}
  {left right : List Input}

/-- What is made of an input stands behind what is made of the inputs in front of it. -/
theorem exists_own (h : (ofLines rules lines).outcome = .ok built)
    (stands : lines.flatMap SourceLine.inputs = left ++ input :: right) :
    ∃ front own back, (run rules {} left).result = .ok front ∧
      (input.apply rules (after rules {} left)).result = .ok own ∧
      built.entries = front ++ (own ++ back) := by
  obtain ⟨last, problems, runs⟩ := run_of_ofLinesFrom h
  rw [stands] at runs
  obtain ⟨middle, here, front, there, later, before, behind, -, whole⟩ := run_append_eq_ok.1 runs
  obtain ⟨next, p, own, q, back, step, -, -, rfl⟩ := run_cons_eq_ok.1 behind
  refine ⟨front, own, back, by rw [before], ?_, whole.symm⟩
  rw [after_of_run before, step]

/-- What is passed over at an input is recorded. -/
theorem problems_infix {builder : Builder}
    (h : (ofLinesFrom rules builder lines).outcome = .ok built)
    (stands : lines.flatMap SourceLine.inputs = left ++ input :: right) :
    (input.apply rules (after rules builder left)).problems <:+: built.problems := by
  induction lines generalizing builder built left with
  | nil => simp at stands
  | cons line rest ih =>
    obtain ⟨event, entries, later, read, here, there, rfl⟩ := ofLinesFrom_cons h
    obtain ⟨malformed, same⟩ := apply_eq_run rules line.number builder event
    rcases ran : run rules builder (event.inputs line.number) with ⟨middle, problems, result⟩
    rw [ran] at same
    rw [same] at here there ⊢
    obtain rfl : result = .ok entries := here
    rw [List.flatMap_cons, SourceLine.inputs_of_read read] at stands
    have at_rest (front : List Input) (split : left = event.inputs line.number ++ front)
        (stands : rest.flatMap SourceLine.inputs = front ++ input :: right) :
        (input.apply rules (after rules builder left)).problems <:+:
          (malformed ++ problems) ++ later.problems := by
      rw [split, after_append, after_of_run ran]
      exact (ih there stands).trans (List.suffix_append _ _).isInfix
    rcases List.append_eq_append_iff.1 stands with ⟨front, split, stands⟩ | ⟨own, split, stands⟩
    · exact at_rest front split stands
    · cases own with
      | nil => exact at_rest [] (by simpa using split.symm) stands.symm
      | cons first more =>
        -- The input is one of this line.
        cases stands
        rw [split] at ran
        obtain ⟨_, p, _, _, _, before, behind, rfl, -⟩ := run_append_eq_ok.1 ran
        obtain ⟨_, own, _, q, _, step, -, rfl, -⟩ := run_cons_eq_ok.1 behind
        rw [after_of_run before, step]
        exact ⟨malformed ++ p, q ++ later.problems, by simp⟩

end Built
end BoardSchema
