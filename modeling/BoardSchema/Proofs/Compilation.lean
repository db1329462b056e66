import BoardSchema.Compilation
/-!
What a compilation that succeeds went through. Every template was laid out leniently and the
configuration strictly, and every field of both was rendered, which a field with a call only is if
the template of the call is known.
-/
namespace BoardSchema

/-- The templates of all calls in a stream are known. -/
def Known (table : TemplateTable) (entries : List Entry) : Prop :=
  ∀ field, .field field ∈ entries → ∀ call ∈ field.expand, call.template ∈ table.names

variable {rules : Rules} {table : TemplateTable}

theorem Field.known_of_lines {field : Field} {lines : List OutputLine}
    (h : (field.lines rules table).outcome = .ok lines) :
    ∀ call ∈ field.expand, call.template ∈ table.names := by
  intro call expand
  simp only [Field.lines, Option.mem_def.1 expand] at h
  split at h
  · cases h
  · next known =>
    obtain ⟨template, found⟩ := Option.ne_none_iff_exists'.1 (by simpa using known)
    exact TemplateTable.name_of_get? found

namespace Rendering

theorem known_of_entries {frame : Frame} {outer : List Frame} {bundle result : Bundle}
    {stream : List Entry}
    (h : (entries rules table frame outer bundle stream).outcome = .ok result) :
    Known table stream := by
  induction stream generalizing frame outer bundle with
  | nil => simp [Known]
  | cons entry rest ih =>
    have cons : Known table [entry] → Known table rest → Known table (entry :: rest) := by
      intro first tail field hfield
      rcases List.mem_cons.1 hfield with rfl | hfield
      · exact first field (by simp)
      · exact tail field hfield
    cases entry with
    | field field =>
      obtain ⟨lines, hlines, h⟩ := Logged.outcome_bind_eq_ok.1 h
      refine cons (fun found hfound => ?_) (ih h)
      cases List.mem_singleton.1 hfound
      exact Field.known_of_lines hlines
    | includeOpen path =>
      refine cons (by simp [Known]) ?_
      simp only [entries] at h
      split at h <;> exact ih h
    | includeClose =>
      refine cons (by simp [Known]) ?_
      simp only [entries] at h
      split at h <;> exact ih h

theorem known_of_bodies {top : String} {referenced : List String} {bundle result : Bundle}
    {templates : List (Template × List Entry)}
    (h : (bodies rules table top referenced bundle templates).outcome = .ok result) :
    ∀ body ∈ templates, Known table body.2 := by
  induction templates generalizing referenced bundle with
  | nil => simp
  | cons first rest ih =>
    simp only [bodies] at h
    split at h <;>
    · obtain ⟨_, hbody, h⟩ := Logged.outcome_bind_eq_ok.1 h
      exact List.forall_mem_cons.2 ⟨known_of_entries hbody, ih h⟩

theorem known_of_schema {top : String} {bindings : List Binding}
    {templates : List (Template × List Entry)} {configs : List Entry} {result : Bundle}
    (h : (schema rules table top bindings templates configs).outcome = .ok result) :
    (∀ body ∈ templates, Known table body.2) ∧ Known table configs := by
  obtain ⟨_, htemplates, h⟩ := Logged.outcome_bind_eq_ok.1 h
  obtain ⟨_, hconfigs, -⟩ := Logged.outcome_bind_eq_ok.1 h
  exact ⟨known_of_bodies htemplates, known_of_entries hconfigs⟩

end Rendering

theorem Document.path_of_ofText {name text : String} {document : Document}
    (read : ofText name text = .ok document) : document.path = name := by
  simp only [ofText] at read
  split at read <;> cases read
  rfl

namespace Compilation

/-- The schema of templates with their bodies. -/
def schemaOf (bodies : List (Template × List Entry)) : List TemplateSchema :=
  bodies.map fun (template, fields) => ⟨template.name, template.file, fields⟩

theorem layoutBody_eq_ok {template : Template} {built : Built}
    (h : (template.layoutBody rules).outcome = .ok built) : ∃ shown names layout,
      (Built.ofLines rules template.body).outcome = .ok shown ∧
      (Layout.ofEntries rules .lenient { stem := rules.paddingPrefix } shown.entries).outcome =
        .ok (layout, names) ∧ layout.entries = built.entries := by
  obtain ⟨shown, hshown, h⟩ := Logged.outcome_bind_eq_ok.1 h
  obtain ⟨entries, hentries, h⟩ := Logged.outcome_bind_eq_ok.1 h
  obtain ⟨⟨layout, names⟩, hlayout, hentries⟩ := Logged.outcome_bind_eq_ok.1 hentries
  cases h
  cases hentries
  exact ⟨shown, names, layout, hshown, hlayout, rfl⟩

/-- The bodies are those of the templates, in order. -/
theorem names_schemaOf {bodies : List (Template × List Entry)} {problems : List CompileError}
    (h : (layoutBodies rules table).outcome = .ok (bodies, problems)) :
    (schemaOf bodies).map TemplateSchema.name = table.names := by
  induction table generalizing bodies problems with
  | nil =>
    cases h
    rfl
  | cons template rest ih =>
    obtain ⟨built, -, h⟩ := Logged.outcome_bind_eq_ok.1 h
    obtain ⟨⟨bodies', problems'⟩, hrest, h⟩ := Logged.outcome_bind_eq_ok.1 h
    cases h
    exact congrArg (template.name :: ·) (ih hrest)

/-- Every template has its body, and every body is that of a template. -/
theorem bodies_of_layoutBodies {problems : List CompileError}
    (h : (layoutBodies rules table).outcome = .ok (bodies, problems)) :
    (∀ template ∈ table, ∃ built, (template.layoutBody rules).outcome = .ok built ∧
      (template, built.entries) ∈ bodies) ∧
    ∀ body ∈ bodies, body.1 ∈ table ∧ ∃ built,
      (body.1.layoutBody rules).outcome = .ok built ∧ built.entries = body.2 := by
  induction table generalizing bodies problems with
  | nil =>
    cases h
    exact ⟨List.forall_mem_nil _, List.forall_mem_nil _⟩
  | cons first rest ih =>
    obtain ⟨built, shown, h⟩ := Logged.outcome_bind_eq_ok.1 h
    obtain ⟨⟨bodies', problems'⟩, rest_shown, h⟩ := Logged.outcome_bind_eq_ok.1 h
    cases h
    obtain ⟨templates, bodies⟩ := ih rest_shown
    refine ⟨List.forall_mem_cons.2 ⟨⟨built, shown, List.mem_cons_self⟩, fun template mem => ?_⟩,
      List.forall_mem_cons.2 ⟨⟨List.mem_cons_self, built, shown, rfl⟩, fun body mem => ?_⟩⟩
    · obtain ⟨built, own, mem⟩ := templates template mem
      exact ⟨built, own, List.mem_cons_of_mem _ mem⟩
    · obtain ⟨mem, own⟩ := bodies body mem
      exact ⟨List.mem_cons_of_mem _ mem, own⟩

/-- A text that can be read is compiled as its document. -/
theorem ofText_eq_ofDocument {name text : String} {document : Document}
    (read : Document.ofText name text = .ok document) :
    ofText rules name text = ofDocument rules document := by
  rw [ofText, read]
  rfl

/-- What a compilation was made from. -/
structure Comes (rules : Rules) (name text : String) (compilation : Compilation)
    (document : Document) (table : TemplateTable) (built : Built)
    (bodies : List (Template × List Entry)) (layout : Layout) : Prop where
  read : Document.ofText name text = .ok document
  collected : (TemplateTable.collect (document.region .template)).outcome = .ok table
  builds : (Built.ofLines rules (document.region .config)).outcome = .ok built
  shown : ∃ problems, (layoutBodies rules table).outcome = .ok (bodies, problems)
  laid : ∃ pool, (Layout.ofEntries rules (.strict (table.expandedSize rules))
    (paddingNames rules built.entries) built.entries).outcome = .ok (layout, pool)
  rendered : ∃ bundle, (Rendering.schema rules table (topFile document.path) document.bindings
    bodies layout.entries).outcome = .ok bundle
  schema_eq : compilation.schema =
    ⟨layout.size, document.bindings, schemaOf bodies, layout.entries⟩

theorem exists_rendered {name text : String} {compilation : Compilation}
    (h : (ofText rules name text).outcome = .ok compilation) : ∃ document table built bodies layout,
      Comes rules name text compilation document table built bodies layout ∧
      (Rendering.schema rules table (topFile document.path) document.bindings bodies
        layout.entries).outcome = .ok compilation.documents := by
  obtain ⟨document, hdocument, h⟩ := Logged.outcome_bind_eq_ok.1 h
  obtain ⟨table, htable, h⟩ := Logged.outcome_bind_eq_ok.1 h
  obtain ⟨built, hbuilt, h⟩ := Logged.outcome_bind_eq_ok.1 h
  obtain ⟨⟨bodies, problems⟩, hbodies, h⟩ := Logged.outcome_bind_eq_ok.1 h
  obtain ⟨⟨layout, pool⟩, hlayout, h⟩ := Logged.outcome_bind_eq_ok.1 h
  obtain ⟨documents, hdocuments, h⟩ := Logged.outcome_bind_eq_ok.1 h
  obtain ⟨_, -, h⟩ := Logged.outcome_bind_eq_ok.1 h
  cases h
  exact ⟨document, table, built, bodies, layout, ⟨hdocument, htable, hbuilt, ⟨problems, hbodies⟩,
    ⟨pool, hlayout⟩, ⟨documents, hdocuments⟩, rfl⟩, hdocuments⟩

theorem exists_comes {name text : String} {compilation : Compilation}
    (h : (ofText rules name text).outcome = .ok compilation) : ∃ document table built bodies layout,
      Comes rules name text compilation document table built bodies layout := by
  obtain ⟨document, table, built, bodies, layout, comes, -⟩ := exists_rendered h
  exact ⟨document, table, built, bodies, layout, comes⟩

end Compilation
end BoardSchema
