import BoardSchema.Proofs.Field.Inputs
/-!
Metadata that waits for a field. An input adds to it, hands it to a field, drops it or leaves it, and
which of these it does can be told from the input alone. So two builders that differ in what waits
build the same entries if and only if no text in which they differ reaches a field.
-/
namespace BoardSchema

/-- A record of texts is known by its texts. -/
theorem Metadata.ext_get {m m' : Metadata} (same : ∀ key, m.get key = m'.get key) : m = m' := by
  have name := same .name
  have kind := same .kind
  have page := same .page
  have choices := same .choices
  have condition := same .condition
  have help := same .help
  have order := same .order
  have marker := same .marker
  have layout := same .layout
  cases m
  cases m'
  simp_all [Metadata.get]

namespace Builder

/-- What an input does with the metadata that waits. -/
inductive Use where
  | leave
  | add (key : MetaKey) (value : String)
  | take
  | drop

/-- A value that goes on with the text in front of it. -/
def continues (value : String) : Bool := value.toList.head? = some '+'

def Use.pending : Use → Metadata → Metadata
  | leave, waiting => waiting
  | add key value, waiting => addMetadata waiting key value
  | take, _ => {}
  | drop, _ => {}

def bsfUse (block : Block) : Use :=
  match fieldKey? block.key with
  | some key => .add key block.value
  | none =>
    match block.key with
    | "FIELD" => if (bitMember? block.value.toList).isSome then .take else .leave
    | "SUBT" => .drop
    | _ => .leave

def hdrUse (block : Block) : Use :=
  match block.key with
  | "EMBED" =>
    match embed block.value.toList with
    | .ok (.start _ _) => .take
    | _ => .leave
  | "STRUCT" => .add .layout block.value
  | _ => .leave

def Input.use : Input → Use
  | .declaration .. => .take
  | .includeOpen _ => .leave
  | .includeClose => .leave
  | .block .bsf _ read => bsfUse read
  | .block .hdr _ read => hdrUse read

/-- Whether a text that waits under a key comes to a field. -/
def reaches (key : MetaKey) : List Input → Bool
  | [] => false
  | input :: rest =>
    match input.use with
    | .leave => reaches key rest
    | .add other value => (other ≠ key || continues value) && reaches key rest
    | .take => true
    | .drop => false

/-! ## Adding to what waits -/

section

variable {waiting waiting' : Metadata} {key other : MetaKey} {value : String}

theorem addMetadata_eq_set (waiting : Metadata) (key : MetaKey) (value : String) :
    ∃ text, addMetadata waiting key value = waiting.set key text := by
  unfold addMetadata
  split
  · split <;> exact ⟨_, rfl⟩
  · exact ⟨_, rfl⟩

theorem get_addMetadata_of_ne (ne : other ≠ key) :
    (addMetadata waiting key value).get other = waiting.get other := by
  obtain ⟨text, same⟩ := addMetadata_eq_set waiting key value
  rw [same, Metadata.get_set_of_ne _ _ ne]

/-- A plain value makes what waited before it forgotten. -/
theorem get_addMetadata_of_plain (plain : continues value = false) :
    (addMetadata waiting key value).get key = some value := by
  unfold addMetadata
  split
  · next rest shown => simp [continues, shown] at plain
  · simp

/-- A value that goes on keeps what waited before it. -/
theorem get_addMetadata_of_continues (goes_on : continues value = true) :
    (addMetadata waiting key value).get key = (addMetadata waiting' key value).get key ↔
      waiting.get key = waiting'.get key := by
  obtain ⟨rest, shown⟩ : ∃ rest, value.toList = '+' :: rest := by
    rw [← List.head?_eq_some_iff]
    simpa [continues] using goes_on
  have longer (text more : String) : text ++ "\n" ++ more ≠ more := by
    intro same
    have lengths := congrArg String.length same
    simp only [String.length_append] at lengths
    have : "\n".length = 1 := by decide
    omega
  simp only [addMetadata, shown]
  cases waiting.get key <;> cases waiting'.get key
  · simp
  · simp [(longer _ _).symm]
  · simp [longer]
  · simp [← String.toList_inj]

end

/-! ## What an input does -/

/-- A step that uses what waits in one way: it hands it to a field that is known apart from it, or
else goes on as it would with anything else waiting. -/
def Uses (use : Use) (step : Metadata → Step) : Prop :=
  (use = .take ∧ ∃ (embeds : List (String × Option Nat)) (field : Field), ∀ waiting,
    step waiting = ⟨⟨{}, embeds⟩, [], .ok [.field { field with metadata := waiting }]⟩) ∨
  (use ≠ .take ∧ ∃ embeds problems result, ∀ waiting,
    step waiting = ⟨⟨use.pending waiting, embeds⟩, problems, result⟩)

section

variable (rules : Rules) (line : Nat) (embeds : List (String × Option Nat)) (block : Block)

theorem uses_applyBsf :
    Uses (bsfUse block) fun waiting => applyBsf rules line ⟨waiting, embeds⟩ block := by
  unfold applyBsf
  split
  next key shown =>
    have use : bsfUse block = .add key block.value := by rw [bsfUse, shown]
    exact use ▸ .inr ⟨by simp, embeds, [], _, fun waiting => rfl⟩
  next no_key =>
  split
  next shown =>
    have use : bsfUse block = .leave := by simp [bsfUse, shown, fieldKey?]
    exact use ▸ .inr ⟨by simp, embeds, [], _, fun waiting => rfl⟩
  next shown =>
    split
    next no_member =>
      have use : bsfUse block = .leave := by simp [bsfUse, shown, fieldKey?, no_member]
      exact use ▸ .inr ⟨by simp, embeds, [], _, fun waiting => rfl⟩
    next name width member =>
      have use : bsfUse block = .take := by simp [bsfUse, shown, fieldKey?, member]
      exact use ▸ .inl ⟨rfl, embeds, { name, role := .bitField, line, length := width },
        fun waiting => rfl⟩
  next shown =>
    have use : bsfUse block = .drop := by simp [bsfUse, shown, fieldKey?]
    let called := expandCall? rules line (embeds.head?.bind (·.2)) block.value.toList
    exact use ▸ .inr ⟨by simp, embeds, called.2, .ok (called.1.toList.map fun call => .field
      { name := call.template, role := .plain, line, length := .symbolic "", expand := some call }),
      fun waiting => rfl⟩
  next no_page no_member no_call =>
    have use : bsfUse block = .leave := by simp [bsfUse, no_key]
    exact use ▸ .inr ⟨by simp, embeds, [], _, fun waiting => rfl⟩

theorem uses_applyHdr :
    Uses (hdrUse block) fun waiting => applyHdr line ⟨waiting, embeds⟩ block := by
  unfold applyHdr
  split
  next shown =>
    split
    next detail wrong =>
      have use : hdrUse block = .leave := by simp [hdrUse, shown, wrong]
      exact use ▸ .inr ⟨by simp, embeds, _, _, fun waiting => rfl⟩
    next name tag starts =>
      have use : hdrUse block = .take := by simp [hdrUse, shown, starts]
      exact use ▸ .inl ⟨rfl, (name, tag) :: embeds, { name, role := .structOpen, line, tag },
        fun waiting => rfl⟩
    next name stops =>
      have use : hdrUse block = .leave := by simp [hdrUse, shown, stops]
      exact use ▸ .inr ⟨by simp, closeEmbed embeds name, [], _, fun waiting => rfl⟩
  next shown =>
    have use : hdrUse block = .add .layout block.value := by simp [hdrUse, shown]
    exact use ▸ .inr ⟨by simp, embeds, [], _, fun waiting => rfl⟩
  next no_embed no_struct =>
    have use : hdrUse block = .leave := by simp [hdrUse]
    exact use ▸ .inr ⟨by simp, embeds, [], _, fun waiting => rfl⟩

theorem uses_apply (input : Input) :
    Uses input.use fun waiting => input.apply rules ⟨waiting, embeds⟩ := by
  cases input with
  | declaration line d =>
    exact .inl ⟨rfl, embeds, ⟨d.name, .plain, line, d.offset, none, d.length, some d.value, {}, none,
      none, none⟩, fun waiting => rfl⟩
  | includeOpen path => exact .inr ⟨by simp [Input.use], embeds, [], _, fun waiting => rfl⟩
  | includeClose => exact .inr ⟨by simp [Input.use], embeds, [], _, fun waiting => rfl⟩
  | block kind line block =>
    cases kind with
    | bsf => exact uses_applyBsf rules line embeds block
    | hdr => exact uses_applyHdr line embeds block

end

/-! ## What waits and what is built -/

section

variable {rules : Rules} {input : Input} {rest inputs : List Input} {waiting waiting' : Metadata}
  {key : MetaKey} {embeds : List (String × Option Nat)} {last : Builder}
  {problems : List CompileError} {entries : List Entry}

theorem reaches_of_take (takes : input.use = .take) : reaches key (input :: rest) = true := by
  rw [reaches, takes]

/-- A text that is handed on reaches a field behind an input if it does so from there. -/
theorem reaches_cons_iff (keeps : input.use ≠ .take) :
    ((input.use.pending waiting).get key ≠ (input.use.pending waiting').get key →
      reaches key rest = false) ↔
    (waiting.get key ≠ waiting'.get key → reaches key (input :: rest) = false) := by
  rw [reaches]
  cases use : input.use with
  | leave => exact Iff.rfl
  | take => exact absurd use keeps
  | drop => simp [Use.pending]
  | add other value =>
    simp only [Use.pending]
    by_cases same : key = other
    · subst same
      cases goes_on : continues value with
      | false => simp [get_addMetadata_of_plain goes_on]
      | true => simp [get_addMetadata_of_continues goes_on]
    · simp [get_addMetadata_of_ne same, Ne.symm same]

/-- With other metadata waiting, as many entries are built, and the same ones if no text in which the
metadata differ comes to a field. -/
theorem run_waiting (waiting' : Metadata)
    (runs : run rules ⟨waiting, embeds⟩ inputs = ⟨last, problems, .ok entries⟩) :
    ∃ last' entries', run rules ⟨waiting', embeds⟩ inputs = ⟨last', problems, .ok entries'⟩ ∧
      entries'.length = entries.length ∧
      (entries = entries' ↔
        ∀ key, waiting.get key ≠ waiting'.get key → reaches key inputs = false) := by
  induction inputs generalizing waiting waiting' embeds problems entries with
  | nil =>
    obtain ⟨rfl, rfl, rfl⟩ := run_nil_eq_ok.1 runs
    exact ⟨_, [], rfl, rfl, by simp [reaches]⟩
  | cons input rest ih =>
    obtain ⟨middle, here, first, there, later, step, behind, rfl, rfl⟩ := run_cons_eq_ok.1 runs
    rcases uses_apply rules embeds input with
      ⟨takes, embeds', field, steps⟩ | ⟨keeps, embeds', problems, result, steps⟩
    · -- Behind the field nothing waits in either run.
      cases (steps waiting).symm.trans step
      refine ⟨last, _, run_cons_eq_ok.2 ⟨_, _, _, _, _, steps waiting', behind, rfl, rfl⟩, by simp,
        ?_⟩
      have told_apart : waiting = waiting' ↔ ∀ key, waiting.get key = waiting'.get key :=
        ⟨fun same key => by rw [same], Metadata.ext_get⟩
      simp [reaches_of_take takes, told_apart]
    · cases (steps waiting).symm.trans step
      obtain ⟨last', later', behind', length, same⟩ :=
        ih (input.use.pending waiting') behind
      refine ⟨last', _, run_cons_eq_ok.2 ⟨_, _, _, _, _, steps waiting', behind', rfl, rfl⟩,
        by simp [length], ?_⟩
      rw [List.append_right_inj, same]
      exact forall_congr' fun key => reaches_cons_iff keeps

end

end Builder
end BoardSchema
