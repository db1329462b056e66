import BoardSchema.Proofs.Field.History
import BoardSchema.Proofs.Line.Columns
import BoardSchema.Proofs.Text.OneLine
/-!
What lines are built into. The names and the calls of fields are cut out of one line each. Metadata
has texts of several lines: a value with a plus sign in front goes on behind the text that waits under
its key, on a line of its own.
-/
namespace BoardSchema

/-! ## Parts of a line -/

/-- A call with a name and arguments of one line each. -/
structure ExpandCall.Unbroken (call : ExpandCall) : Prop where
  template : OneLine call.template
  args : ∀ arg ∈ call.args, OneLine arg

theorem ExpandCall.Unbroken.oneLine_text {call : ExpandCall} (unbroken : call.Unbroken) :
    OneLine call.text := by
  have args : OneLine (", ".intercalate call.args) := .intercalate (by decide) unbroken.args
  simp only [ExpandCall.text, OneLine.append_iff]
  exact ⟨⟨⟨unbroken.template, by decide⟩, args⟩, by decide⟩

/-- The names, paths and blocks on a line are of one line. -/
def LineEvent.Unbroken : LineEvent → Prop
  | .declaration d => OneLine d.name
  | .includeOpen path => OneLine path
  | .bsf pragma => ∀ block ∈ pragma.blocks, OneLine block.value
  | .hdr pragma => ∀ block ∈ pragma.blocks, OneLine block.value
  | .includeClose => True
  | .sectionHeader _ => True
  | .unrecognized => True

theorem Pragma.value_subset {line : Nat} {text : List Char} {block : Block}
    (mem : block ∈ (scan line text).blocks) : block.value.toList ⊆ text := by
  obtain ⟨blocks, rest, read⟩ := List.append_of_mem mem
  obtain ⟨cut, whole, part, -⟩ := Cut.exists_of_block read
  have within : cut.part.text ⊆ text := by
    intro c inside
    rw [← whole, Cut.text, Cut.around]
    simp [inside]
  refine List.Subset.trans ?_ within
  cases item : cut.part with
  | opened last =>
    rw [item] at part
    cases part
  | item found =>
    rw [item] at part
    cases found with
    | stray => cases part
    | block key value =>
      cases part
      intro c inside
      have inside : c ∈ value := Text.trim_subset _ (by simpa using inside)
      simp [Part.text, Item.text, inside]

theorem LineEvent.includePath?_subset {text : List Char} {path : String}
    (found : includePath? text = some path) : path.toList ⊆ text := by
  unfold includePath? at found
  split at found
  · cases found
  · next rest shown =>
    have behind : rest ⊆ text := by
      have whole := List.isPrefixOf?_eq_some_iff_append_eq.1 shown
      intro c mem
      exact Text.trimStart_subset text (whole ▸ List.mem_append_right _ mem)
    dsimp only at found
    split at found
    · cases found
    · cases found
      intro c mem
      have mem : c ∈ Text.trimMark '"' (Text.trim rest) := by simpa using mem
      exact behind (Text.trim_subset _ (Text.trimMark_subset _ _ mem))

theorem LineEvent.unbroken_pragma {line : SourceLine} (kind : Pragma.Kind) {pragma : Pragma}
    (one : OneLine line.text) (read : ofLine line = .ok (kind.event pragma)) :
    ∀ block ∈ pragma.blocks, OneLine block.value := by
  obtain ⟨margin, text, -, whole, rfl⟩ := Pragma.exists_margin read
  intro block mem inside
  refine one ?_
  rw [← whole, Pragma.Margin.line, String.toList_ofList]
  simp [Pragma.value_subset mem inside]

/-- The path that a line opens is a part of the line. -/
theorem LineEvent.subset_of_includeOpen {line : SourceLine} {path : String}
    (read : ofLine line = .ok (.includeOpen path)) : path.toList ⊆ line.text.toList := by
  refine List.Subset.trans ?_ (Text.trim_subset line.text.toList)
  unfold ofLine at read
  split at read
  · cases read
  · split at read
    · next comment trimmed =>
      rw [trimmed]
      refine List.Subset.trans ?_ (List.subset_cons_self ..)
      refine List.Subset.trans ?_ (Text.trimStart_subset comment)
      unfold ofComment at read
      split at read
      · cases read
      · cases read
      · next rest marked =>
        rw [marked]
        split at read
        · next found =>
          cases read
          exact fun c mem => by simp [includePath?_subset found mem]
        · cases read
      · cases read
      · cases read
    · split at read
      · cases parsed : Declaration.parse line.number (Text.trim line.text.toList) <;>
          simp [parsed, Except.map] at read
      · cases read

theorem LineEvent.unbroken_ofLine {line : SourceLine} {event : LineEvent}
    (one : OneLine line.text) (read : ofLine line = .ok event) : event.Unbroken := by
  cases event with
  | declaration declaration =>
    obtain ⟨-, -, space, stands⟩ := ofLine_eq_declaration_iff.1 read
    exact stands.isName.not_mem (by decide)
  | bsf pragma => exact unbroken_pragma .bsf one read
  | hdr pragma => exact unbroken_pragma .hdr one read
  | includeOpen path => exact fun mem => one (subset_of_includeOpen read mem)
  | includeClose => trivial
  | sectionHeader name => trivial
  | unrecognized => trivial

/-! ## Fields -/

/-- The name of a field is of one line, and so is its call if it has one. -/
structure Field.Unbroken (field : Field) : Prop where
  name : OneLine field.name
  expand : ∀ call ∈ field.expand, call.Unbroken

def Entry.Unbroken : Entry → Prop
  | .field f => f.Unbroken
  | .includeOpen path => OneLine path
  | .includeClose => True

namespace Builder

variable {rules : Rules} {builder last : Builder} {line : Nat} {read : Block}
  {problems : List CompileError} {entries : List Entry} {value : List Char}

theorem oneLine_argument {text : List Char} (none : '\n' ∉ text) : OneLine (argument text) := by
  unfold argument
  split
  · next digits tag found =>
    obtain ⟨behind, start, found⟩ := Option.bind_eq_some_iff.1 found
    obtain ⟨number, -, same⟩ := Option.map_eq_some_iff.1 found
    cases same
    have whole := List.isPrefixOf?_eq_some_iff_append_eq.1 start
    have digits : '\n' ∉ digits := fun mem => none (whole ▸ List.mem_append_right _ mem)
    simpa [OneLine] using digits
  · exact OneLine.ofList_iff.2 none

theorem oneLine_headerArgs (line : Nat) (rule : HeaderRule) (tag : Option Nat) {args : List String}
    (each : ∀ arg ∈ args, OneLine arg) :
    ∀ arg ∈ (headerArgs line rule tag args).1, OneLine arg := by
  unfold headerArgs
  intro arg mem
  cases tag with
  | none =>
    dsimp only at mem
    split at mem <;> exact each arg mem
  | some tag =>
    dsimp only at mem
    split at mem
    · obtain ⟨source, found, rfl⟩ := List.mem_map.1 mem
      split
      · exact .hex 3 tag
      · exact each source found
    · split at mem
      · exact each arg mem
      · rcases List.mem_append.1 mem with mem | mem
        · exact each arg (List.mem_of_mem_take mem)
        · rcases List.mem_cons.1 mem with rfl | mem
          · exact .hex 3 tag
          · exact each arg (List.mem_of_mem_drop mem)

/-- The parts of a value between colons. -/
theorem not_mem_parts (none : '\n' ∉ value) :
    ∀ part ∈ (value.splitOn ':').map Text.trim, '\n' ∉ part := by
  intro part mem inside
  obtain ⟨whole, found, rfl⟩ := List.mem_map.1 mem
  exact none (Text.subset_of_mem_splitOn found (Text.trim_subset _ inside))

theorem unbroken_expandCall? (rules : Rules) (line : Nat) (tag : Option Nat)
    (none : '\n' ∉ value) : ∀ call ∈ (expandCall? rules line tag value).1, call.Unbroken := by
  have parts := not_mem_parts none
  unfold expandCall?
  split
  · exact nofun
  · next template args shown =>
    rw [shown] at parts
    obtain ⟨template_one, args_one⟩ := List.forall_mem_cons.1 parts
    have each : ∀ arg ∈ args.map argument, OneLine arg := by
      intro arg mem
      obtain ⟨text, found, rfl⟩ := List.mem_map.1 mem
      exact oneLine_argument (args_one text found)
    split
    · exact nofun
    · dsimp only
      split
      · rintro call ⟨⟩
        exact ⟨OneLine.ofList_iff.2 template_one, each⟩
      · next rule _ =>
        rintro call ⟨⟩
        exact ⟨OneLine.ofList_iff.2 template_one, oneLine_headerArgs line rule tag each⟩

theorem oneLine_bitMember? {name : String} {width : Length} (none : '\n' ∉ value)
    (member : bitMember? value = some (name, width)) : OneLine name := by
  obtain ⟨⟨front, behind⟩, cut, member⟩ := Option.bind_eq_some_iff.1 member
  obtain ⟨within, -⟩ := Text.subset_of_cutAt? cut
  dsimp only at member
  split at member
  · cases member
  · cases member
    exact OneLine.ofList_iff.2 fun mem => none (within (Text.trim_subset _ mem))

/-- The name of a structure that a value bounds. -/
def Embed.name : Embed → String
  | .start name _ => name
  | .stop name => name

theorem oneLine_embed {bound : Embed} (none : '\n' ∉ value) (bounds : embed value = .ok bound) :
    OneLine bound.name := by
  have parts := not_mem_parts none
  have named {name : List Char} (mem : name ∈ (value.splitOn ':').map Text.trim) :
      OneLine (String.ofList name) := OneLine.ofList_iff.2 (parts name mem)
  unfold embed at bounds
  dsimp only at bounds
  split at bounds
  · next name word shown =>
    have name_one := named (shown ▸ List.mem_cons_self : name ∈ _)
    split at bounds
    · cases bounds
    · split at bounds <;> cases bounds <;> exact name_one
  · next name tag word shown =>
    have name_one := named (shown ▸ List.mem_cons_self : name ∈ _)
    split at bounds
    · split at bounds
      · cases bounds
      · split at bounds <;> cases bounds <;> exact name_one
    · cases bounds
  · cases bounds

/-- What a builder is fed is of one line. -/
def Input.Unbroken : Input → Prop
  | .declaration _ d => OneLine d.name
  | .includeOpen path => OneLine path
  | .includeClose => True
  | .block _ _ read => OneLine read.value

theorem unbroken_applyBsf (one : OneLine read.value)
    (applied : (applyBsf rules line builder read).result = .ok entries) :
    ∀ entry ∈ entries, entry.Unbroken := by
  unfold applyBsf at applied
  split at applied
  · cases applied
    exact List.forall_mem_nil _
  · split at applied
    · cases applied
      have named : OneLine "$ACTION" := by decide
      exact List.forall_mem_singleton.2 ⟨named, nofun⟩
    · split at applied
      · cases applied
      · next name width member =>
        cases applied
        exact List.forall_mem_singleton.2 ⟨oneLine_bitMember? one member, nofun⟩
    · cases applied
      intro entry mem
      obtain ⟨call, found, rfl⟩ := List.mem_map.1 mem
      have unbroken := unbroken_expandCall? rules line (builder.embeds.head?.bind (·.2)) one call
        (Option.mem_toList.1 found)
      refine ⟨unbroken.template, ?_⟩
      rintro _ ⟨⟩
      exact unbroken
    · cases applied
      exact List.forall_mem_nil _

theorem unbroken_applyHdr (one : OneLine read.value)
    (applied : (applyHdr line builder read).result = .ok entries) :
    ∀ entry ∈ entries, entry.Unbroken := by
  unfold applyHdr at applied
  split at applied
  · split at applied
    · cases applied
      exact List.forall_mem_nil _
    · next bounds =>
      cases applied
      exact List.forall_mem_singleton.2 ⟨oneLine_embed one bounds, nofun⟩
    · next bounds =>
      cases applied
      exact List.forall_mem_singleton.2 ⟨oneLine_embed one bounds, nofun⟩
  · cases applied
    exact List.forall_mem_nil _
  · cases applied
    exact List.forall_mem_nil _

theorem Input.unbroken_apply {input : Input} (one : input.Unbroken)
    (applied : (input.apply rules builder).result = .ok entries) :
    ∀ entry ∈ entries, entry.Unbroken := by
  cases input with
  | declaration line d =>
    cases applied
    exact List.forall_mem_singleton.2 ⟨one, nofun⟩
  | includeOpen path =>
    cases applied
    exact List.forall_mem_singleton.2 one
  | includeClose =>
    cases applied
    exact List.forall_mem_singleton.2 trivial
  | block kind line read =>
    cases kind with
    | bsf => exact unbroken_applyBsf one applied
    | hdr => exact unbroken_applyHdr one applied

theorem unbroken_run {inputs : List Input} (one : ∀ input ∈ inputs, input.Unbroken)
    (runs : run rules builder inputs = ⟨last, problems, .ok entries⟩) :
    ∀ entry ∈ entries, entry.Unbroken := by
  induction inputs generalizing builder problems entries with
  | nil =>
    obtain ⟨-, -, rfl⟩ := run_nil_eq_ok.1 runs
    exact List.forall_mem_nil _
  | cons input rest ih =>
    obtain ⟨here, behind⟩ := List.forall_mem_cons.1 one
    obtain ⟨middle, _, first, _, later, step, runs_behind, -, rfl⟩ := run_cons_eq_ok.1 runs
    exact List.forall_mem_append.2
      ⟨Input.unbroken_apply here (by rw [step]), ih behind runs_behind⟩

end Builder

open Builder

theorem LineEvent.Unbroken.inputs {event : LineEvent} (unbroken : event.Unbroken) (line : Nat) :
    ∀ input ∈ event.inputs line, input.Unbroken := by
  cases event with
  | declaration d => exact List.forall_mem_singleton.2 unbroken
  | includeOpen path => exact List.forall_mem_singleton.2 unbroken
  | includeClose => exact List.forall_mem_singleton.2 trivial
  | bsf pragma => exact List.forall_mem_map.2 unbroken
  | hdr pragma => exact List.forall_mem_map.2 unbroken
  | sectionHeader name => exact List.forall_mem_nil _
  | unrecognized => exact List.forall_mem_nil _

/-- Lines of one line each feed texts of one line to the builder. -/
theorem unbroken_inputs {lines : List SourceLine} (one : ∀ line ∈ lines, OneLine line.text) :
    ∀ input ∈ lines.flatMap SourceLine.inputs, input.Unbroken := by
  intro input mem
  obtain ⟨line, here, mem⟩ := List.mem_flatMap.1 mem
  unfold SourceLine.inputs at mem
  split at mem
  · next event read =>
    exact (LineEvent.unbroken_ofLine (one line here) read).inputs _ input mem
  · cases mem

theorem Built.unbroken_ofLines {rules : Rules} {lines : List SourceLine} {built : Built}
    (one : ∀ line ∈ lines, OneLine line.text) (h : (ofLines rules lines).outcome = .ok built) :
    ∀ entry ∈ built.entries, entry.Unbroken := by
  obtain ⟨last, problems, runs⟩ := run_of_ofLinesFrom h
  exact unbroken_run (unbroken_inputs one) runs

/-! ## Metadata -/

namespace Builder

/-- The values given for a key since something last took what waits. -/
def given (inputs : List Input) (key : MetaKey) : List String :=
  (inputs.rtakeWhile fun input => !input.consumes).filterMap (Input.value? key)

/-- Texts below each other with one more value: what follows a plus sign goes below them, and a
plain value takes their place. -/
def stackText (texts : List String) (value : String) : List String :=
  match value.toList with
  | '+' :: rest => texts ++ [String.ofList (Text.trimStart rest)]
  | _ => [value]

/-- The texts below each other that wait under a key. -/
def waitingTexts (inputs : List Input) (key : MetaKey) : List String :=
  (given inputs key).foldl stackText []

/-- Texts below each other as one text, if there are any. -/
def joined? (texts : List String) : Option String :=
  if texts = [] then none else some ("\n".intercalate texts)

theorem joinText_joined? (texts : List String) (value : String) :
    joinText (joined? texts) value = joined? (stackText texts value) := by
  by_cases plus : ∃ rest, value.toList = '+' :: rest
  · obtain ⟨rest, plus⟩ := plus
    by_cases first : texts = []
    · simp [joinText, stackText, plus, joined?, first]
    · simp [joinText, stackText, plus, joined?, first, String.intercalate_append_of_ne_nil]
  · have plain (rest : List Char) : value.toList ≠ '+' :: rest := fun shown => plus ⟨rest, shown⟩
    have alone : stackText texts value = [value] := by
      unfold stackText
      split
      · next shown => exact absurd shown (plain _)
      · rfl
    rw [alone, joinText_plain plain]
    simp [joined?]

/-- What waits under a key is made of texts below each other. -/
theorem waitingText_eq (inputs : List Input) (key : MetaKey) :
    waitingText inputs key = joined? (waitingTexts inputs key) := by
  have same : waitingText inputs key = (given inputs key).foldl joinText (joined? []) := rfl
  rw [same]
  exact List.foldl_hom joined? joinText_joined?

theorem oneLine_waitingTexts {inputs : List Input} (one : ∀ input ∈ inputs, input.Unbroken)
    (key : MetaKey) : ∀ text ∈ waitingTexts inputs key, OneLine text := by
  have values : ∀ value ∈ given inputs key, OneLine value := by
    intro value mem
    obtain ⟨input, mem, found⟩ := List.mem_filterMap.1 mem
    have unbroken := one input ((List.rtakeWhile_suffix _ _).subset mem)
    cases input with
    | block kind line read =>
      obtain ⟨-, same⟩ := Option.ite_none_right_eq_some.1 found
      cases same
      exact unbroken
    | declaration => cases found
    | includeOpen => cases found
    | includeClose => cases found
  have stacked (texts : List String) (each : ∀ text ∈ texts, OneLine text) :
      ∀ text ∈ (given inputs key).foldl stackText texts, OneLine text := by
    generalize given inputs key = rest at values
    induction rest generalizing texts with
    | nil => exact each
    | cons value rest ih =>
      obtain ⟨one, values⟩ := List.forall_mem_cons.1 values
      refine ih _ ?_ values
      unfold stackText
      split
      · next behind plus =>
        refine List.forall_mem_append.2 ⟨each, List.forall_mem_singleton.2 ?_⟩
        refine OneLine.ofList_iff.2 fun mem => one ?_
        rw [plus]
        exact List.mem_cons_of_mem _ (Text.trimStart_subset _ mem)
      · exact List.forall_mem_singleton.2 one
  exact stacked [] (List.forall_mem_nil _)

end Builder
end BoardSchema
