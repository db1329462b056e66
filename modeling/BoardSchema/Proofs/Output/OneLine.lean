import BoardSchema.Proofs.Field.Attaching
import BoardSchema.Proofs.Files.Path
import BoardSchema.Proofs.Layout.Derivation
import BoardSchema.Proofs.Names
import BoardSchema.Proofs.Output.Blocks
import BoardSchema.Proofs.Output.Corrections
import BoardSchema.Proofs.Output.Indentation
import BoardSchema.Proofs.Source.Unbroken
/-!
Every line that is put out is one line. The texts that come to the renderer are of one line each, but
for metadata, and metadata is cut into lines where it is shown. So a document has the lines that were
rendered into it, and no text of a description or of the rules can bring in others.
-/
namespace BoardSchema

/-! ## Fields -/

@[simp] theorem OutputLine.oneLine_render {line : OutputLine} :
    OneLine line.render ↔ OneLine line.text := by
  simp [render, List.mem_replicate]

theorem Field.oneLine_keys (field : Field) : ∀ key ∈ field.keys, OneLine key := by
  have labels (key : MetaKey) : OneLine key.label := by cases key <;> decide
  intro key mem
  simp only [keys, List.mem_append, List.mem_map] at mem
  rcases mem with (⟨entry, -, rfl⟩ | mem) | mem
  · exact labels entry.1
  · split at mem
    · exact List.mem_singleton.1 mem ▸ by decide
    · cases mem
  · split at mem
    · exact List.mem_singleton.1 mem ▸ by decide
    · cases mem

/-- Whatever text a key has, it is shown in lines. -/
theorem Field.oneLine_keyLines {key : String} (one : OneLine key) (text : String) :
    ∀ line ∈ keyLines key text, OneLine line.text := by
  have label : OneLine (Text.padRight keyWidth key ++ " : ") :=
    OneLine.append_iff.2 ⟨one.padRight keyWidth, by decide⟩
  unfold keyLines
  dsimp only
  split
  · refine List.forall_mem_cons.2 ⟨OneLine.append_iff.2 ⟨label, by decide⟩, ?_⟩
    refine List.forall_mem_map.2 fun line mem => ?_
    exact OneLine.ofList_iff.2 (Text.lineFeed_not_mem mem)
  · next alone => exact List.forall_mem_singleton.2 (OneLine.append_iff.2 ⟨label, alone⟩)

theorem Field.oneLine_lines {rules : Rules} {table : TemplateTable} {field : Field}
    {lines : List OutputLine} (unbroken : field.Unbroken)
    (shown : (field.lines rules table).outcome = .ok lines) :
    ∀ line ∈ lines, OneLine line.text := by
  cases expand : field.expand with
  | some call =>
    simp only [Field.lines, expand] at shown
    split at shown
    · cases shown
    · cases shown
      have text := (unbroken.expand call expand).oneLine_text
      refine List.forall_mem_singleton.2 ?_
      simp only [OneLine.append_iff]
      exact ⟨⟨by decide, text⟩, by decide⟩
  | none =>
    by_cases closes : field.role = .structClose
    · simp only [Field.lines, expand, if_pos closes] at shown
      cases shown
      exact List.forall_mem_nil _
    · obtain ⟨texts, keys, outcome⟩ := @exists_keyTexts rules table field expand closes
      cases outcome.symm.trans shown
      refine List.forall_mem_cons.2 ⟨?_, fun line mem => ?_⟩
      · simp only [OneLine.append_iff]
        exact ⟨⟨by decide, unbroken.name⟩, by decide⟩
      · obtain ⟨text, here, mem⟩ := List.mem_flatMap.1 mem
        have key : text.1 ∈ field.keys := keys ▸ List.mem_map_of_mem here
        exact oneLine_keyLines (field.oneLine_keys _ key) _ line mem

theorem oneLine_satelliteName {path : String} (one : OneLine path) :
    OneLine (satelliteName path) := by
  refine OneLine.append_iff.2 ⟨?_, by decide⟩
  cases found : (Path.stem? path.toList).filter (· ≠ ['.', '.']) with
  | none => decide
  | some stem => exact one.of_subset (Path.subset_of_stem? (Option.filter_eq_some_iff.1 found).1)

/-! ## Documents -/

namespace Rendering

variable {rules : Rules} {table : TemplateTable} {top : String} {site : Site} {outer : List Site}
  {stream : List Entry} {trace : List TracedLine} {templates : List (Template × List Entry)}

/-- Every line that is written is one line. -/
def OneLined (trace : List TracedLine) : Prop := ∀ line ∈ trace, OneLine line.mark.render

theorem OneLined.append {left right : List TracedLine} (first : OneLined left)
    (later : OneLined right) : OneLined (left ++ right) :=
  List.forall_mem_append.2 ⟨first, later⟩

theorem oneLined_linesAt (path : Option String) {lines : List OutputLine}
    (each : ∀ line ∈ lines, OneLine line.text) : OneLined (linesAt path lines) := by
  refine List.forall_mem_map.2 (List.forall_mem_map.2 fun line mem => ?_)
  exact OutputLine.oneLine_render.2 (each line mem)

theorem oneLined_line (path : Option String) {line : OutputLine} (one : OneLine line.text) :
    OneLined (linesAt path [line]) :=
  oneLined_linesAt path (List.forall_mem_singleton.2 one)

theorem oneLined_traced (unbroken : ∀ entry ∈ stream, entry.Unbroken)
    (h : traced rules table site outer stream = .ok trace) : OneLined trace := by
  induction stream generalizing site outer trace with
  | nil =>
    cases h
    exact List.forall_mem_nil _
  | cons entry rest ih =>
    obtain ⟨here, behind⟩ := List.forall_mem_cons.1 unbroken
    cases entry with
    | field field =>
      obtain ⟨lines, shown, h⟩ := bind_eq_ok.1 h
      obtain ⟨later, rest_shown, h⟩ := bind_eq_ok.1 h
      cases h
      have own : OneLined (linesAt site.path (lines.map (OutputLine.shift site.indent))) :=
        oneLined_linesAt site.path (List.forall_mem_map.2 (Field.oneLine_lines here shown))
      exact own.append (ih behind rest_shown)
    | includeOpen path =>
      simp only [traced] at h
      split at h
      · obtain ⟨later, rest_shown, h⟩ := bind_eq_ok.1 h
        cases h
        refine OneLined.append (List.forall_mem_singleton.2 ?_) (ih behind rest_shown)
        refine OutputLine.oneLine_render.2 (OneLine.append_iff.2 ⟨by decide, ?_⟩)
        exact oneLine_satelliteName here
      · exact ih behind h
    | includeClose =>
      simp only [traced] at h
      split at h <;> exact ih behind h

theorem oneLined_tracedBodies {referenced : List String}
    (unbroken : ∀ body ∈ templates, body.1.Unbroken ∧ ∀ entry ∈ body.2, entry.Unbroken)
    (h : tracedBodies rules table referenced templates = .ok trace) : OneLined trace := by
  induction templates generalizing referenced trace with
  | nil =>
    cases h
    exact List.forall_mem_nil _
  | cons body rest ih =>
    obtain ⟨⟨template, entries⟩, behind⟩ := List.forall_mem_cons.1 unbroken
    have title (path : Option String) (indent : Nat) :
        OneLined (linesAt path [⟨indent, body.1.name ++ ": >"⟩]) :=
      oneLined_line path (OneLine.append_iff.2 ⟨template.name, by decide⟩)
    have blank (path : Option String) : OneLined (linesAt path [⟨0, ""⟩]) :=
      oneLined_line path (by decide)
    simp only [tracedBodies] at h
    split at h
    · next path found =>
      obtain ⟨own, own_shown, h⟩ := bind_eq_ok.1 h
      obtain ⟨later, rest_shown, h⟩ := bind_eq_ok.1 h
      cases h
      have file : OneLine path := by
        obtain ⟨-, same⟩ := Option.ite_none_right_eq_some.1 found
        cases same
        exact template.file
      refine .append (.append (.append (.append ?_ (title _ _)) ?_) (blank _)) (ih behind rest_shown)
      · split
        · exact List.forall_mem_nil _
        · exact oneLined_line none
            (OneLine.append_iff.2 ⟨by decide, oneLine_satelliteName file⟩)
      · exact oneLined_traced entries own_shown
    · obtain ⟨own, own_shown, h⟩ := bind_eq_ok.1 h
      obtain ⟨later, rest_shown, h⟩ := bind_eq_ok.1 h
      cases h
      exact .append (.append (.append (title _ _) (oneLined_traced entries own_shown)) (blank _))
        (ih behind rest_shown)

theorem oneLined_schemaTrace (unbroken : rules.Unbroken) {bindings : List Binding}
    {configs : List Entry}
    (named : ∀ binding ∈ bindings, OneLine binding.name ∧ OneLine binding.value)
    (bodies : ∀ body ∈ templates, body.1.Unbroken ∧ ∀ entry ∈ body.2, entry.Unbroken)
    (entries : ∀ entry ∈ configs, entry.Unbroken)
    (h : schemaTrace rules table bindings templates configs = .ok trace) : OneLined trace := by
  obtain ⟨shown, templates_shown, h⟩ := bind_eq_ok.1 h
  obtain ⟨own, configs_shown, h⟩ := bind_eq_ok.1 h
  cases h
  have plain (lines : List OutputLine) (each : ∀ line ∈ lines, OneLine line.text) :
      OneLined (linesAt none lines) := oneLined_linesAt none each
  refine .append (.append (.append (.append (plain _ ?_) (plain _ (by decide))) ?_)
    (plain _ (by decide))) (oneLined_traced entries configs_shown)
  · refine List.forall_mem_cons.2 ⟨by decide, List.forall_mem_append.2 ⟨?_, by decide⟩⟩
    refine List.forall_mem_map.2 fun binding mem => ?_
    obtain ⟨name, value⟩ := named binding mem
    simp only [OneLine.append_iff]
    exact ⟨⟨name.padRight nameWidth, by decide⟩, unbroken.oneLine_substitute value⟩
  · exact oneLined_tracedBodies bodies templates_shown

theorem oneLine_heading (rules : Rules) : ∀ line ∈ rules.heading, OneLine line := by
  refine List.forall_mem_append.2 ⟨List.forall_mem_map.2 fun line mem => ?_, by decide⟩
  exact OneLine.ofList_iff.2 (Text.lineFeed_not_mem mem)

theorem oneLine_documentsOf {referred : List String} (oneLined : OneLined trace) :
    ∀ document ∈ documentsOf rules top referred trace,
      document.lines ≠ [] ∧ ∀ line ∈ document.lines, OneLine line := by
  refine List.forall_mem_map.2 fun file _ => ⟨by simp [Rules.heading], ?_⟩
  refine List.forall_mem_append.2 ⟨oneLine_heading rules, List.forall_mem_map.2 fun line mem => ?_⟩
  exact oneLined line (List.mem_filter.1 mem).1

end Rendering

/-- A document of lines has just these lines, and behind the last line feed nothing. -/
theorem OutputDocument.splitOn_text {document : OutputDocument} (some_line : document.lines ≠ [])
    (each : ∀ line ∈ document.lines, OneLine line) :
    document.text.toList.splitOn '\n' = document.lines.map String.toList ++ [[]] := by
  have cut : (['\n'].intercalate (document.lines.map String.toList)).splitOn '\n' =
      document.lines.map String.toList :=
    List.splitOn_intercalate '\n' (List.forall_mem_map.2 each) (by simpa using some_line)
  have whole : document.text.toList =
      ['\n'].intercalate (document.lines.map String.toList) ++ '\n' :: [] := by
    simp [text, String.toList_intercalate]
  rw [whole, List.splitOn_append_cons_self, cut]
  rfl

/-! ## Blocks -/

/-- A field that is shown has its metadata right below its name. -/
theorem Field.exists_lines_metadata (rules : Rules) (table : TemplateTable) {field : Field}
    (no_call : field.expand = none) (stays : field.role ≠ .structClose) :
    ∃ behind, (field.lines rules table).outcome =
      .ok (⟨0, "- " ++ field.name ++ " :"⟩ :: metadataLines rules field.metadata ++ behind) := by
  obtain ⟨length, lengthText, -⟩ := exists_lengthText? rules field
  obtain ⟨value, valueText, -⟩ := exists_valueText (length.bind (·.2)) field.value
  exact ⟨_, by rw [lines_eq no_call stays lengthText valueText, List.append_assoc]⟩

namespace Rendering

variable {rules : Rules} {table : TemplateTable} {top : String} {site : Site} {outer : List Site}
  {stream : List Entry} {trace : List TracedLine} {templates : List (Template × List Entry)}

/-- The lines of a field stand one behind the other, shifted alike. -/
theorem exists_infix_traced {field : Field} (mem : .field field ∈ stream)
    (h : traced rules table site outer stream = .ok trace) :
    ∃ (site : Site) (lines : List OutputLine), (field.lines rules table).outcome = .ok lines ∧
      linesAt site.path (lines.map (OutputLine.shift site.indent)) <:+: trace := by
  obtain ⟨before, after, rfl⟩ := List.append_of_mem mem
  obtain ⟨site', outer', front, back, -, after, rfl⟩ := traced_append h
  obtain ⟨lines, shown, after⟩ := bind_eq_ok.1 after
  obtain ⟨later, -, after⟩ := bind_eq_ok.1 after
  cases after
  exact ⟨site', lines, shown, front, later, List.append_assoc ..⟩

theorem exists_infix_tracedBodies {referenced : List String} {body : Template × List Entry}
    (mem : body ∈ templates)
    (h : tracedBodies rules table referenced templates = .ok trace) : ∃ site own,
      traced rules table site [] body.2 = .ok own ∧ own <:+: trace := by
  induction templates generalizing referenced trace with
  | nil => cases mem
  | cons first rest ih =>
    simp only [tracedBodies] at h
    split at h <;>
    · obtain ⟨own, own_shown, h⟩ := bind_eq_ok.1 h
      obtain ⟨later, rest_shown, h⟩ := bind_eq_ok.1 h
      cases h
      rcases List.mem_cons.1 mem with rfl | mem
      · exact ⟨_, own, own_shown, (List.infix_append ..).trans (List.prefix_append ..).isInfix⟩
      · obtain ⟨site, own, shown, inside⟩ := ih mem rest_shown
        exact ⟨site, own, shown, inside.trans (List.suffix_append ..).isInfix⟩

theorem exists_infix_schemaTrace {bindings : List Binding} {configs : List Entry}
    (mem : stream ∈ configs :: templates.map Prod.snd)
    (h : schemaTrace rules table bindings templates configs = .ok trace) : ∃ site own,
      traced rules table site [] stream = .ok own ∧ own <:+: trace := by
  obtain ⟨shown, templates_shown, h⟩ := bind_eq_ok.1 h
  obtain ⟨entries, configs_shown, h⟩ := bind_eq_ok.1 h
  cases h
  rcases List.mem_cons.1 mem with rfl | mem
  · exact ⟨_, entries, configs_shown, (List.suffix_append ..).isInfix⟩
  · obtain ⟨body, here, rfl⟩ := List.mem_map.1 mem
    obtain ⟨site, own, own_shown, inside⟩ := exists_infix_tracedBodies here templates_shown
    refine ⟨site, own, own_shown, inside.trans ?_⟩
    exact (List.infix_append ..).trans (List.prefix_append ..).isInfix

/-- Lines that are written one behind the other are so in their document. -/
theorem exists_infix_documentsOf {path : Option String} {referred : List String}
    {lines : List OutputLine} (housed : Housed top referred trace) (some_line : lines ≠ [])
    (inside : linesAt path lines <:+: trace) :
    ∃ document ∈ documentsOf rules top referred trace,
      lines.map OutputLine.render <:+: document.lines := by
  obtain ⟨line, mem⟩ := List.exists_mem_of_ne_nil lines some_line
  have here : documentOf top path ∈ referred :=
    housed ⟨path, .text line⟩ (inside.subset (by simpa [linesAt] using mem))
  refine ⟨_, List.mem_map_of_mem (List.mem_eraseDups.2 here), ?_⟩
  rw [← linesOf_linesAt top path]
  exact ((inside.filter _).map _).trans (List.suffix_append ..).isInfix

end Rendering

namespace Builder

variable {rules : Rules} {lines : List SourceLine} {built : Built} {input : Input}
  {before behind : List Input} {label : Label}

/-- What an input declares is among the entries. -/
theorem exists_labelled (h : (Built.ofLines rules lines).outcome = .ok built)
    (stands : lines.flatMap SourceLine.inputs = before ++ input :: behind)
    (declares : input.label? before = some label) :
    ∃ source, .field source ∈ built.entries ∧ source.label = label := by
  obtain ⟨last, problems, runs⟩ := Built.run_of_ofLinesFrom h
  rw [stands] at runs
  obtain ⟨middle, here, front, there, later, start, runs, -, whole⟩ := run_append_eq_ok.1 runs
  obtain ⟨next, p, own, q, back, step, -, -, rfl⟩ := run_cons_eq_ok.1 runs
  have labels := labelsOf_apply (pending_of_run start) step
  rw [declares, labelsOf, Option.toList_some, List.map_eq_singleton_iff] at labels
  obtain ⟨source, fields, named⟩ := labels
  have mem : source ∈ own.filterMap Entry.field? := fields ▸ List.mem_singleton_self source
  obtain ⟨entry, mem, shown⟩ := List.mem_filterMap.1 mem
  cases entry with
  | field field =>
    cases shown
    exact ⟨source, by simp [← whole, mem], named⟩
  | includeOpen => cases shown
  | includeClose => cases shown

/-- A field, a structure and a bit member take all that waits. -/
theorem metadata_of_label (declares : input.label? before = some label)
    (no_call : label.isCall = false) (role : label.role ∈ [.plain, .structOpen, .bitField]) :
    label.metadata = waiting before := by
  cases input with
  | declaration line d =>
    cases declares
    rfl
  | includeOpen => cases declares
  | includeClose => cases declares
  | block kind line read =>
    cases kind with
    | bsf =>
      simp only [Input.label?] at declares
      split at declares
      · cases declares
        simp at role
      · obtain ⟨member, -, rfl⟩ := Option.map_eq_some_iff.1 declares
        rfl
      · obtain ⟨template, -, rfl⟩ := Option.map_eq_some_iff.1 declares
        cases no_call
      · cases declares
    | hdr =>
      obtain ⟨bound, -, rfl⟩ := Option.map_eq_some_iff.1 declares
      cases bound with
      | start name tag => rfl
      | stop name => simp at role

end Builder

/-! ## Compilations -/

namespace Compilation

variable {rules : Rules} {name text : String} {compilation : Compilation} {document : Document}
  {table : TemplateTable} {built : Built} {bodies : List (Template × List Entry)} {layout : Layout}

/-- Each field, structure and bit member that lines declare is shown with the texts that wait for it
under every key, each on a line of its own. A field that bits are packed into has its metadata at
their marker. -/
def ShowsBlocks (rules : Rules) (documents : Bundle) (lines : List SourceLine) : Prop :=
  ∀ before input behind, lines.flatMap SourceLine.inputs = before ++ input :: behind →
    ∀ label ∈ input.label? before, label.isCall = false →
      label.role ∈ [.plain, .structOpen, .bitField] →
      ∃ document ∈ documents, ∃ indent, ∃ shown ∈ [label.name, rules.bitGroupTag],
        (⟨indent, "- " ++ shown ++ " :"⟩ :: Builder.blocks rules indent before).map
          OutputLine.render <:+: document.lines

open Rendering in
theorem showsBlocks_of_traced {lines : List SourceLine} {sizing : Sizing} {names pool : NamePool}
    {top : String} {referred : List String} {site : Site} {own trace : List TracedLine}
    (unbroken : rules.Unbroken) (one : ∀ line ∈ lines, OneLine line.text)
    (builds : (Built.ofLines rules lines).outcome = .ok built)
    (laid : (Layout.ofEntries rules sizing names built.entries).outcome = .ok (layout, pool))
    (housed : Housed top referred trace)
    (rendered : traced rules table site [] layout.entries = .ok own) (inside : own <:+: trace) :
    ShowsBlocks rules (documentsOf rules top referred trace) lines := by
  intro before input behind stands label declares no_call role
  obtain ⟨source, declared, rfl⟩ := Builder.exists_labelled builds stands declares
  have waits := Builder.metadata_of_label declares no_call role
  -- What shows the metadata is the declared field or the marker of bits that are packed into it.
  obtain ⟨result, mem, keeps⟩ := Layout.exists_keeps laid declared
  have no_call : result.expand = none := by simpa [keeps.expand, Field.label] using no_call
  have stays : result.role ≠ .structClose := by
    rw [keeps.role]
    rintro closes
    simp [Field.label, closes] at role
  obtain ⟨back, lines_eq⟩ := Field.exists_lines_metadata rules table no_call stays
  obtain ⟨site, shown, outcome, within⟩ := exists_infix_traced mem rendered
  cases lines_eq.symm.trans outcome
  obtain ⟨document, found, within⟩ := exists_infix_documentsOf housed (by simp) (within.trans inside)
  refine ⟨document, found, site.indent, result.name, ?_, List.IsInfix.trans ?_ within⟩
  · rcases keeps.name with same | same <;> simp [same, Field.label]
  · -- The name and the metadata are the first lines of those of the field.
    have each : ∀ input ∈ before, input.Unbroken := fun input mem =>
      unbroken_inputs one input (stands ▸ List.mem_append_left _ mem)
    rw [← Field.metadataLines_waiting unbroken each, ← waits, Field.label, ← keeps.metadata]
    simp only [List.map_append]
    exact (List.prefix_append ..).isInfix

/-- Templates and configurations are laid out as texts of one line. -/
theorem Comes.unbroken
    (comes : Comes rules name text compilation document table built bodies layout)
    (unbroken : rules.Unbroken) :
    (∀ body ∈ bodies, body.1.Unbroken ∧ ∀ entry ∈ body.2, entry.Unbroken) ∧
      ∀ entry ∈ layout.entries, entry.Unbroken := by
  obtain ⟨problems, shown⟩ := comes.shown
  obtain ⟨pool, laid⟩ := comes.laid
  have lines := Document.oneLine_region comes.read
  have templates := TemplateTable.unbroken_collect (lines .template) comes.collected
  refine ⟨fun body mem => ?_, ?_⟩
  · obtain ⟨here, built, own, same⟩ := (bodies_of_layoutBodies shown).2 body mem
    obtain ⟨declared, names, layout, builds, laid, entries⟩ := layoutBody_eq_ok own
    have template := templates _ here
    rw [← same, ← entries]
    exact ⟨template, Layout.unbroken_ofEntries (Built.unpadded_ofLines builds)
      unbroken.bitGroupTag unbroken.paddingPrefix (Built.unbroken_ofLines template.body builds) laid⟩
  · refine Layout.unbroken_ofEntries (Built.unpadded_ofLines comes.builds) unbroken.bitGroupTag ?_
      (Built.unbroken_ofLines (lines .config) comes.builds) laid
    rw [stem_paddingNames]
    exact unbroken.paddingPrefix

/-- No text brings in lines. Every line of a document is one line, so the document as written has
just its lines, and the texts of metadata stand on lines of their own. -/
theorem ofText_oneLine (unbroken : rules.Unbroken)
    (h : (ofText rules name text).outcome = .ok compilation) :
    (∀ document ∈ compilation.documents, (∀ line ∈ document.lines, OneLine line) ∧
      document.text.toList.splitOn '\n' = document.lines.map String.toList ++ [[]]) ∧
    ∃ document table, Document.ofText name text = .ok document ∧
      (TemplateTable.collect (document.region .template)).outcome = .ok table ∧
      ∀ lines ∈ document.region .config :: table.map Template.body,
        ShowsBlocks rules compilation.documents lines := by
  obtain ⟨document, table, built, bodies, layout, comes, rendered⟩ := exists_rendered h
  obtain ⟨problems, shown⟩ := comes.shown
  obtain ⟨pool, laid⟩ := comes.laid
  rw [Rendering.schema_eq] at rendered
  obtain ⟨trace, traces, rendered⟩ := bind_eq_ok.1 rendered
  rw [← Except.ok.inj rendered]
  refine ⟨fun document mem => ?_, document, table, comes.read, comes.collected, ?_⟩
  · obtain ⟨templates, configs⟩ := comes.unbroken unbroken
    have oneLined := Rendering.oneLined_schemaTrace unbroken (Document.oneLine_bindings comes.read)
      templates configs traces
    obtain ⟨some_line, each⟩ := Rendering.oneLine_documentsOf oneLined document mem
    exact ⟨each, document.splitOn_text some_line each⟩
  · have lines := Document.oneLine_region comes.read
    have templates := TemplateTable.unbroken_collect (lines .template) comes.collected
    have housed : Rendering.Housed (topFile document.path) _ trace :=
      Rendering.housed_schemaTrace traces
    refine List.forall_mem_cons.2 ⟨?_, List.forall_mem_map.2 fun template mem => ?_⟩
    · obtain ⟨site, own, own_shown, inside⟩ :=
        Rendering.exists_infix_schemaTrace List.mem_cons_self traces
      exact showsBlocks_of_traced unbroken (lines .config) comes.builds laid housed own_shown inside
    · obtain ⟨built, own, found⟩ := (bodies_of_layoutBodies shown).1 template mem
      obtain ⟨declared, names, layout, builds, laid, entries⟩ := layoutBody_eq_ok own
      obtain ⟨site, own, own_shown, inside⟩ := Rendering.exists_infix_schemaTrace
        (List.mem_cons_of_mem _ (List.mem_map_of_mem found)) traces
      rw [← entries] at own_shown
      exact showsBlocks_of_traced unbroken (templates template mem).body builds laid housed
        own_shown inside

/-- A bit with a condition that goes on. -/
def twoConditions : String :=
  "\n".intercalate ["[PcdsDynamicVpd.Upd]", "Flags|*|1|0",
    "# !BSF CONDITION:\x7bgCfgData.Mode == TRUE\x7d",
    "# !BSF CONDITION:\x7b+ && gCfgData.On == TRUE\x7d", "# !BSF FIELD:\x7bOn:1\x7d"]

def inFrontOfBit : List Builder.Input :=
  [.declaration 2 ⟨"Flags", .auto, .fixed 1, "0"⟩,
    .block .bsf 3 ⟨"CONDITION", "gCfgData.Mode == TRUE"⟩,
    .block .bsf 4 ⟨"CONDITION", "+ && gCfgData.On == TRUE"⟩]

theorem twoConditions_oneLine : ∃ compilation,
    (ofText {} "t.dsc" twoConditions).outcome = .ok compilation ∧
    (∀ document ∈ compilation.documents, (∀ line ∈ document.lines, OneLine line) ∧
      document.text.toList.splitOn '\n' = document.lines.map String.toList ++ [[]]) ∧
    ∃ document ∈ compilation.documents, ∃ indent, ∃ shown ∈ ["On", "$STRUCT"],
      [⟨indent, "- " ++ shown ++ " :"⟩, ⟨indent + 4, "condition    : >"⟩,
        ⟨indent + 6, "Mode == 1"⟩, ⟨indent + 6, "&& On == 1"⟩].map OutputLine.render <:+:
          document.lines := by
  have compiled : (ofText {} "t.dsc" twoConditions).outcome.toOption.map (·.documents.length) =
      some 1 := by
    decide +kernel
  have told : (Document.ofText "t.dsc" twoConditions).toOption.map (fun document =>
      (document.region .config).flatMap SourceLine.inputs) =
        some (inFrontOfBit ++ [.block .bsf 5 ⟨"FIELD", "On:1"⟩]) := by
    decide +kernel
  obtain ⟨compilation, h, -⟩ := exists_eq_ok compiled
  have unbroken : Rules.Unbroken {} := ⟨by decide, by decide, by decide, by decide⟩
  obtain ⟨each, document, table, read, -, shows⟩ := ofText_oneLine unbroken h
  obtain ⟨document', read', stands⟩ := exists_eq_ok told
  cases read.symm.trans read'
  exact ⟨compilation, h, each, shows _ List.mem_cons_self _ _ _ stands
    ⟨"On", .bitField, 5, false, _⟩ rfl rfl (by decide)⟩

end Compilation
end BoardSchema
