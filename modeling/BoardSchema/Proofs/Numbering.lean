import BoardSchema.Proofs.Compilation
import BoardSchema.Proofs.Template.Numbering
/-!
Compiling lines that are numbered anew. The documents stay the same, and what bears line numbers is
the same apart from these. So of two texts whose regions say the same, wherever their lines stand,
either both compile, to the same documents, or both fail for the same reason.
-/
namespace BoardSchema

variable {number : Nat → Nat} {rules : Rules} {table : TemplateTable}

/-! ## Lines of fields -/

theorem Fixup.adjustAll_renumber (name : String) (fixups : List Fixup) (length : Nat) :
    adjustAll name fixups length = (adjustAll name fixups length).renumber number id := by
  induction fixups generalizing length with
  | nil => rfl
  | cons fixup rest ih =>
    simp only [adjustAll]
    split
    · split
      · exact ih _
      · refine Logged.renumber_bind (?_ : Logged.note _ = (Logged.note _).renumber number id)
          fun _ => ih _
        rfl
    · exact ih _

theorem annotateList_renumber (value : String) (length : Nat) :
    annotateList value length = (annotateList value length).renumber number id := by
  unfold annotateList
  dsimp only
  split
  · rfl
  · split
    · rfl
    · split <;> rfl

namespace Field

theorem lengthText?_renumber (field : Field) :
    lengthText? rules (field.renumber number) =
      (lengthText? rules field).renumber number id := by
  have role : (field.renumber number).role = field.role := rfl
  have length : (field.renumber number).length = field.length := rfl
  unfold lengthText?
  rw [role, length]
  split
  · rfl
  · exact Logged.renumber_bind (Fixup.adjustAll_renumber ..) fun bytes => rfl
  · rfl
  · rfl
  · rfl
  · rfl
  · rfl

theorem valueLines_renumber (bytes : Option Nat) (value : Option String) :
    valueLines bytes value = (valueLines bytes value).renumber number id := by
  cases value with
  | none => rfl
  | some value =>
    cases bytes with
    | none => rfl
    | some bytes => exact Logged.renumber_bind (annotateList_renumber ..) fun value => rfl

theorem lines_renumber (field : Field) :
    (field.renumber number).lines rules (table.renumber number) =
      (field.lines rules table).renumber number id := by
  have call : (field.renumber number).expand = field.expand := rfl
  have role : (field.renumber number).role = field.role := rfl
  unfold lines
  rw [call, role]
  cases field.expand with
  | some call =>
    simp only [TemplateTable.get?_renumber, Option.isNone_map]
    split <;> rfl
  | none =>
    dsimp only
    split
    · rfl
    · refine Logged.renumber_bind (lengthText?_renumber field) fun length => ?_
      exact Logged.renumber_bind (valueLines_renumber ..) fun value => rfl

end Field

/-! ## Documents -/

namespace Rendering

theorem entries_renumber (frame : Frame) (outer : List Frame) (bundle : Bundle)
    (stream : List Entry) :
    entries rules (table.renumber number) frame outer bundle (stream.map (·.renumber number)) =
      (entries rules table frame outer bundle stream).renumber number id := by
  induction stream generalizing frame outer bundle with
  | nil => rfl
  | cons entry rest ih =>
    cases entry with
    | field field => exact Logged.renumber_bind (Field.lines_renumber field) fun lines => ih _ _ _
    | includeOpen path =>
      simp only [List.map_cons, Entry.renumber, entries]
      split <;> exact ih _ _ _
    | includeClose =>
      simp only [List.map_cons, Entry.renumber, entries]
      split <;> exact ih _ _ _

/-- Templates with their bodies. -/
def renumberBodies (number : Nat → Nat) (bodies : List (Template × List Entry)) :
    List (Template × List Entry) :=
  bodies.map fun (template, body) => (template.renumber number, body.map (·.renumber number))

theorem bodies_renumber (top : String) (referenced : List String) (bundle : Bundle)
    (templates : List (Template × List Entry)) :
    bodies rules (table.renumber number) top referenced bundle (renumberBodies number templates) =
      (bodies rules table top referenced bundle templates).renumber number id := by
  induction templates generalizing referenced bundle with
  | nil => rfl
  | cons first rest ih =>
    obtain ⟨template, body⟩ := first
    change (if (rules.emitAll && template.file ≠ Template.topLevel) = true then _ else _) =
      Logged.renumber number id
        (if (rules.emitAll && template.file ≠ Template.topLevel) = true then _ else _)
    split
    · exact Logged.renumber_bind (entries_renumber ..) fun bundle => ih _ _
    · exact Logged.renumber_bind (entries_renumber ..) fun bundle => ih _ _

theorem filterMap_field?_renumber (entries : List Entry) :
    (entries.map (·.renumber number)).filterMap Entry.field? =
      (entries.filterMap Entry.field?).map (·.renumber number) := by
  rw [List.filterMap_map, List.map_filterMap]
  refine List.filterMap_congr fun entry _ => ?_
  cases entry <;> rfl

theorem unusedFixups_renumber (fields : List Field) :
    unusedFixups rules (fields.map (·.renumber number)) = unusedFixups rules fields := by
  simp only [unusedFixups, List.any_map]
  rfl

theorem schema_renumber (top : String) (bindings : List Binding)
    (templates : List (Template × List Entry)) (configs : List Entry) :
    schema rules (table.renumber number) top bindings (renumberBodies number templates)
        (configs.map (·.renumber number)) =
      (schema rules table top bindings templates configs).renumber number id := by
  refine Logged.renumber_bind (bodies_renumber ..) fun bundle => ?_
  refine Logged.renumber_bind (entries_renumber ..) fun bundle => ?_
  have fields : ((renumberBodies number templates).flatMap (·.2) ++
        configs.map (·.renumber number)).filterMap Entry.field? =
      ((templates.flatMap (·.2) ++ configs).filterMap Entry.field?).map (·.renumber number) := by
    rw [← filterMap_field?_renumber, List.map_append, List.map_flatMap, renumberBodies,
      List.flatMap_map]
  dsimp only
  rw [fields, unusedFixups_renumber]
  refine Logged.renumber_bind (?_ : Logged.noteAll _ = Logged.renumber number id _) fun _ => rfl
  rw [← Logged.renumber_noteAll, List.map_map]
  rfl

end Rendering

/-! ## Regions -/

theorem SourceLine.section?_renumber (line : SourceLine) :
    (line.renumber number).section? = line.section? := rfl

namespace Document

/-- The same description with its lines numbered anew. -/
def renumber (number : Nat → Nat) (document : Document) : Document :=
  { document with lines := document.lines.map (·.renumber number) }

theorem regionFrom_renumber (region current : Region) (lines : List SourceLine) :
    regionFrom region current (lines.map (·.renumber number)) =
      (regionFrom region current lines).map (·.renumber number) := by
  induction lines generalizing current with
  | nil => rfl
  | cons line rest ih =>
    simp only [List.map_cons, regionFrom, SourceLine.section?_renumber]
    split
    · exact ih _
    · split
      · exact congrArg (line.renumber number :: ·) (ih _)
      · exact ih _

theorem region_renumber (document : Document) (region : Region) :
    (document.renumber number).region region =
      (document.region region).map (·.renumber number) :=
  regionFrom_renumber ..

theorem bindings_renumber (document : Document) :
    (document.renumber number).bindings = document.bindings := by
  unfold bindings
  rw [region_renumber, List.filterMap_map]
  rfl

end Document

/-! ## Compilations -/

def TemplateSchema.renumber (number : Nat → Nat) (schema : TemplateSchema) : TemplateSchema :=
  { schema with fields := schema.fields.map (·.renumber number) }

def Schema.renumber (number : Nat → Nat) (schema : Schema) : Schema :=
  { schema with
    templates := schema.templates.map (·.renumber number)
    configs := schema.configs.map (·.renumber number) }

namespace Compilation

def renumber (number : Nat → Nat) (compilation : Compilation) : Compilation where
  documents := compilation.documents
  problems := compilation.problems.map (·.renumber number)
  schema := compilation.schema.renumber number

theorem layoutBodies_renumber (zero : number 0 = 0) (table : TemplateTable) :
    layoutBodies rules (table.renumber number) =
      (layoutBodies rules table).renumber number fun (bodies, problems) =>
        (Rendering.renumberBodies number bodies, problems.map (·.renumber number)) := by
  induction table with
  | nil => rfl
  | cons template rest ih =>
    refine Logged.renumber_bind (template.layoutBody_renumber zero rules) fun built => ?_
    refine Logged.renumber_bind ih fun (bodies, problems) => ?_
    refine congrArg (fun problems => pure (_, problems)) ?_
    exact List.map_append.symm

theorem paddingNames_renumber (entries : List Entry) :
    paddingNames rules (entries.map (·.renumber number)) = paddingNames rules entries := by
  unfold paddingNames
  rw [Rendering.filterMap_field?_renumber, List.foldl_map]
  rfl

theorem ofDocument_renumber (zero : number 0 = 0) (rules : Rules) (document : Document) :
    ofDocument rules (document.renumber number) =
      (ofDocument rules document).renumber number (·.renumber number) := by
  unfold ofDocument
  rw [Document.bindings_renumber, Document.region_renumber, Document.region_renumber]
  refine Logged.renumber_bind (TemplateTable.collect_renumber _) fun table => ?_
  refine Logged.renumber_bind (Built.ofLines_renumber rules _) fun built => ?_
  refine Logged.renumber_bind (layoutBodies_renumber zero table) fun (bodies, problems) => ?_
  have entries : (built.renumber number).entries = built.entries.map (·.renumber number) := rfl
  rw [entries, paddingNames_renumber]
  refine Logged.renumber_bind (Layout.ofEntries_renumber
    (.strict fun call line => TemplateTable.expandedSize_renumber zero call line) zero rules _
    built.entries) fun (layout, _) => ?_
  refine Logged.renumber_bind (Rendering.schema_renumber ..) fun documents => ?_
  have count : ((layout.renumber number).entries.filterMap Entry.field?).length =
      (layout.entries.filterMap Entry.field?).length := by
    simp only [Layout.renumber, Rendering.filterMap_field?_renumber, List.length_map]
  have length : (table.renumber number).length = table.length := List.length_map _
  have templates : (Rendering.renumberBodies number bodies).map (fun (template, fields) =>
        (⟨template.name, template.file, fields⟩ : TemplateSchema)) =
      (bodies.map fun (template, fields) => ⟨template.name, template.file, fields⟩).map
        (TemplateSchema.renumber number) := by
    rw [Rendering.renumberBodies, List.map_map, List.map_map]
    rfl
  rw [count, length, templates]
  refine Logged.renumber_bind (?_ : Logged.note _ = (Logged.note _).renumber number id) fun _ => ?_
  · rfl
  · refine congrArg (fun problems => pure (Compilation.mk _ problems _)) ?_
    exact List.map_append.symm

end Compilation

/-! ## Texts whose regions say the same -/

/-- Lines that say the same are equal once their numbers are forgotten. -/
theorem SourceLine.map_renumber_eq {lines lines' : List SourceLine}
    (same : lines.map SourceLine.text = lines'.map SourceLine.text) :
    lines.map (·.renumber fun _ => 0) = lines'.map (·.renumber fun _ => 0) := by
  have forget (lines : List SourceLine) : lines.map (·.renumber fun _ => 0) =
      (lines.map SourceLine.text).map (⟨0, ·⟩) := by
    rw [List.map_map]
    rfl
  rw [forget, forget, same]

namespace Document

/-- What the lines of a region say. -/
def texts (document : Document) (region : Region) : List String :=
  (document.region region).map SourceLine.text

/-- The regions that are read say the same, on whatever lines. -/
def SameTexts (document document' : Document) : Prop :=
  document.texts .defines = document'.texts .defines ∧
    document.texts .template = document'.texts .template ∧
    document.texts .config = document'.texts .config

instance (document document' : Document) : Decidable (document.SameTexts document') :=
  inferInstanceAs (Decidable (_ ∧ _ ∧ _))

end Document

namespace Compilation

variable {name text text' : String} {document document' : Document}

theorem ofDocument_congr (path : document.path = document'.path)
    (defines : document.region .defines = document'.region .defines)
    (templates : document.region .template = document'.region .template)
    (configs : document.region .config = document'.region .config) :
    ofDocument rules document = ofDocument rules document' := by
  unfold ofDocument Document.bindings
  rw [path, defines, templates, configs]

/-- With the lines forgotten, all that comes of a text depends on what its regions say. -/
theorem ofText_forgotten (rules : Rules) (read : Document.ofText name text = .ok document)
    (read' : Document.ofText name text' = .ok document') (same : document.SameTexts document') :
    (ofText rules name text).renumber (fun _ => 0) (·.renumber fun _ => 0) =
      (ofText rules name text').renumber (fun _ => 0) (·.renumber fun _ => 0) := by
  have region_eq {region : Region} (same : document.texts region = document'.texts region) :
      (document.renumber fun _ => 0).region region =
        (document'.renumber fun _ => 0).region region := by
    rw [Document.region_renumber, Document.region_renumber, SourceLine.map_renumber_eq same]
  rw [ofText_eq_ofDocument read, ofText_eq_ofDocument read', ← ofDocument_renumber rfl,
    ← ofDocument_renumber rfl]
  exact ofDocument_congr
    ((Document.path_of_ofText read).trans (Document.path_of_ofText read').symm)
    (region_eq same.1) (region_eq same.2.1) (region_eq same.2.2)

/-- Two texts whose regions say the same, on whatever lines, compile to the same documents and to
schemas that differ in line numbers at most, or else fail with errors that only differ in the line.
-/
theorem ofText_same_regions (rules : Rules) (read : Document.ofText name text = .ok document)
    (read' : Document.ofText name text' = .ok document') (same : document.SameTexts document') :
    (∃ compilation compilation', (ofText rules name text).outcome = .ok compilation ∧
      (ofText rules name text').outcome = .ok compilation' ∧
      compilation.documents = compilation'.documents ∧
      compilation.schema.size = compilation'.schema.size ∧
      compilation.schema.renumber (fun _ => 0) = compilation'.schema.renumber (fun _ => 0)) ∨
    ∃ error error', (ofText rules name text).outcome = .error error ∧
      (ofText rules name text').outcome = .error error' ∧
      error.renumber (fun _ => 0) = error'.renumber fun _ => 0 := by
  have outcomes := congrArg Logged.outcome (ofText_forgotten rules read read' same)
  simp only [Logged.renumber] at outcomes
  cases h : (ofText rules name text).outcome with
  | error error =>
    cases h' : (ofText rules name text').outcome with
    | error error' =>
      rw [h, h'] at outcomes
      exact .inr ⟨error, error', rfl, rfl, Except.error.inj outcomes⟩
    | ok compilation' =>
      rw [h, h'] at outcomes
      cases outcomes
  | ok compilation =>
    cases h' : (ofText rules name text').outcome with
    | error error' =>
      rw [h, h'] at outcomes
      cases outcomes
    | ok compilation' =>
      rw [h, h'] at outcomes
      have same : compilation.renumber (fun _ => 0) = compilation'.renumber fun _ => 0 :=
        Except.ok.inj outcomes
      have documents : compilation.documents = compilation'.documents :=
        (Compilation.mk.inj same).1
      have schemas : compilation.schema.renumber (fun _ => 0) =
          compilation'.schema.renumber fun _ => 0 := congrArg schema same
      have size : compilation.schema.size = compilation'.schema.size :=
        (Schema.mk.inj schemas).1
      exact .inl ⟨compilation, compilation', rfl, rfl, documents, size, schemas⟩

/-- A description with its sections one after the other. -/
def sectionsInOrder : String := "\n".intercalate
  ["[Defines]", "X = 1", "[PcdsDynamicVpd.Upd]", "A|0|2|1", "B|8|1|0"]

/-- The same with the sections in another order and in pieces, and with another between them. -/
def sectionsInPieces : String := "\n".intercalate
  ["[pcdsdynamicvpd.upd]", "A|0|2|1", "[Other]", "C|0|2|1", "[Defines]", "X = 1",
    "[PcdsDynamicVpd.Upd]", "B|8|1|0"]

theorem sectionsInOrder_sectionsInPieces : ∃ document document',
    Document.ofText "board.dsc" sectionsInOrder = .ok document ∧
    Document.ofText "board.dsc" sectionsInPieces = .ok document' ∧
    document.SameTexts document' ∧
    ((∃ compilation compilation',
      (ofText {} "board.dsc" sectionsInOrder).outcome = .ok compilation ∧
      (ofText {} "board.dsc" sectionsInPieces).outcome = .ok compilation' ∧
      compilation.documents = compilation'.documents ∧
      compilation.schema.size = compilation'.schema.size ∧
      compilation.schema.renumber (fun _ => 0) = compilation'.schema.renumber (fun _ => 0)) ∨
    ∃ error error', (ofText {} "board.dsc" sectionsInOrder).outcome = .error error ∧
      (ofText {} "board.dsc" sectionsInPieces).outcome = .error error' ∧
      error.renumber (fun _ => 0) = error'.renumber fun _ => 0) := by
  have both : (Document.ofText "board.dsc" sectionsInOrder).toOption.map (fun document =>
      (Document.ofText "board.dsc" sectionsInPieces).toOption.map fun document' =>
        decide (document.SameTexts document')) = some (some true) := by decide +kernel
  obtain ⟨document, read, both⟩ := exists_eq_ok both
  obtain ⟨document', read', same⟩ := exists_eq_ok both
  have same := of_decide_eq_true same
  exact ⟨document, document', read, read', same, ofText_same_regions {} read read' same⟩

end Compilation
end BoardSchema
