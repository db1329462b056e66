import BoardSchema.Proofs.Compilation
import BoardSchema.Proofs.Layout.Spots
import BoardSchema.Proofs.Output.Documents
import BoardSchema.Proofs.Output.Lengths
import BoardSchema.Proofs.Template.Leaves
/-!
What fixups do to a configuration. Each declared byte field is shown once, with its length corrected
for the name that it is put out under. That is its own name unless bits are packed into it: then its
length stands at the marker of its container, and fixups for its own name do not reach it.
-/
namespace BoardSchema

open Layout

/-- Fixups that go for one name exactly if they go for another give the same length. -/
theorem Corrects.congr {name other : String} {fixups : List Fixup} {length result : Nat}
    (corrects : Corrects name fixups length result)
    (alike : ∀ fixup ∈ fixups, fixup.pattern.Matches name ↔ fixup.pattern.Matches other) :
    Corrects other fixups length result := by
  induction corrects with
  | nil => exact .nil
  | adjust named sum_eq fits _ ih =>
    obtain ⟨first, rest⟩ := List.forall_mem_cons.1 alike
    exact .adjust (first.1 named) sum_eq fits (ih rest)
  | skip leaves _ ih =>
    obtain ⟨first, rest⟩ := List.forall_mem_cons.1 alike
    exact .skip (fun named => leaves (first.2 named)) (ih rest)

namespace Layout

theorem map_field_spotsFrom (before entries : List Entry) :
    (spotsFrom before entries).map Spot.field = plainFields entries := by
  induction entries generalizing before with
  | nil => rfl
  | cons entry rest ih =>
    rw [spotsFrom, List.map_append, ih, plainFields, plainFields, List.filterMap_cons]
    cases entry.plain? <;> rfl

theorem Spot.PutsOut.length_eq {rules : Rules} {source : Field} {spot : Spot}
    (putsOut : spot.PutsOut rules source) : spot.field.length = source.length := by
  cases putsOut with
  | itself offset field_eq => rw [field_eq]
  | marker offset _ _ _ _ _ field_eq => rw [field_eq]

end Layout

namespace Rendering

variable {rules : Rules} {table : TemplateTable}

theorem traced_append {site : Site} {outer : List Site} {before after : List Entry}
    {trace : List TracedLine}
    (rendered : traced rules table site outer (before ++ after) = .ok trace) :
    ∃ site' outer' front back, traced rules table site outer before = .ok front ∧
      traced rules table site' outer' after = .ok back ∧ trace = front ++ back := by
  induction before generalizing site outer trace with
  | nil => exact ⟨site, outer, [], trace, rfl, rendered, rfl⟩
  | cons entry rest ih =>
    cases entry with
    | field field =>
      obtain ⟨lines, outcome, rendered⟩ := bind_eq_ok.1 rendered
      obtain ⟨later, rendered, shown⟩ := bind_eq_ok.1 rendered
      obtain ⟨site', outer', front, back, before, after, rfl⟩ := ih rendered
      cases shown
      exact ⟨site', outer', _, back, by rw [traced, outcome, ok_bind, before]; rfl, after,
        (List.append_assoc ..).symm⟩
    | includeOpen path =>
      by_cases all : rules.emitAll = true
      · simp only [List.cons_append, traced, all, if_true] at rendered ⊢
        obtain ⟨later, rendered, shown⟩ := bind_eq_ok.1 rendered
        obtain ⟨site', outer', front, back, before, after, rfl⟩ := ih rendered
        cases shown
        exact ⟨site', outer', _, back, by rw [before]; rfl, after, rfl⟩
      · simp only [List.cons_append, traced, if_neg all] at rendered ⊢
        exact ih rendered
    | includeClose =>
      cases all : rules.emitAll with
      | true =>
        cases outer <;> simp only [List.cons_append, traced, all] at rendered ⊢ <;>
          exact ih rendered
      | false =>
        simp only [List.cons_append, traced, all] at rendered ⊢
        exact ih rendered

theorem linesOf_linesAt (top : String) (path : Option String) (lines : List OutputLine) :
    linesOf top (documentOf top path) (linesAt path lines) = lines.map OutputLine.render := by
  simp [linesOf, linesAt, List.filter_map, Function.comp_def, Mark.render]

/-- One of the documents shows these lines at a spot of the configuration, right behind what it
shows of the description before that. -/
def ShowsAt (rules : Rules) (table : TemplateTable) (top : String) (documents : Bundle)
    (intro : List TracedLine) (spot : Spot) (lines : List OutputLine) : Prop :=
  ∃ (site : Site) (front : List TracedLine) (below : List String),
    traced rules table ⟨none, 2, 0⟩ [] spot.before = .ok front ∧
      ⟨documentOf top site.path,
        rules.heading ++ linesOf top (documentOf top site.path) (intro ++ front) ++
          lines.map (fun line => (line.shift site.indent).render) ++ below⟩ ∈ documents

variable {top : String}

theorem exists_trace {bindings : List Binding} {templates : List (Template × List Entry)}
    {configs : List Entry} {documents : Bundle}
    (rendered : (schema rules table top bindings templates configs).outcome = .ok documents) :
    ∃ referred intro trace, documents = documentsOf rules top referred (intro ++ trace) ∧
      traced rules table ⟨none, 2, 0⟩ [] configs = .ok trace ∧
      Housed top referred (intro ++ trace) := by
  rw [schema_eq] at rendered
  obtain ⟨whole, traces, rendered⟩ := bind_eq_ok.1 rendered
  have housed : Housed top _ whole := housed_schemaTrace traces
  cases rendered
  obtain ⟨shown, -, traces⟩ := bind_eq_ok.1 traces
  obtain ⟨trace, configs_shown, traces⟩ := bind_eq_ok.1 traces
  cases traces
  exact ⟨_, _, trace, rfl, configs_shown, by simpa using housed⟩

theorem exists_showsAt {configs : List Entry} {referred : List String}
    {intro trace : List TracedLine} (housed : Housed top referred (intro ++ trace))
    (rendered : traced rules table ⟨none, 2, 0⟩ [] configs = .ok trace) {spot : Spot} {n : Nat}
    (mem : spot ∈ spots configs) (length : spot.field.length = .fixed n) :
    ∃ bytes text,
      ShowsAt rules table top (documentsOf rules top referred (intro ++ trace)) intro spot
        (spot.field.byteLines rules bytes text) ∧
      Corrects spot.field.name rules.fixups n bytes := by
  obtain ⟨whole, plain⟩ := mem_spots mem
  have role := role_of_isPlain plain
  have no_call : spot.field.expand = none := by simpa [Field.isPlain, role] using plain
  obtain ⟨bytes, text, lines, corrects, -⟩ :=
    Field.lines_plain rules table no_call role length
  rw [whole] at rendered
  obtain ⟨site, outer, front, back, before, after, rfl⟩ := traced_append rendered
  obtain ⟨own, outcome, after⟩ := bind_eq_ok.1 after
  obtain ⟨later, -, shown⟩ := bind_eq_ok.1 after
  cases lines.symm.trans outcome
  cases shown
  refine ⟨bytes, text, ⟨site, front, linesOf top (documentOf top site.path) later, before, ?_⟩,
    corrects⟩
  have here : documentOf top site.path ∈ referred :=
    housed ⟨site.path, .text (OutputLine.shift site.indent ⟨0, "- " ++ spot.field.name ++ " :"⟩)⟩
      (by simp [linesAt, Field.byteLines])
  refine List.mem_map.2 ⟨_, List.mem_eraseDups.2 here, ?_⟩
  have own : linesOf top (documentOf top site.path) (linesAt site.path
      ((spot.field.byteLines rules bytes text).map (OutputLine.shift site.indent))) =
        (spot.field.byteLines rules bytes text).map fun line =>
          (line.shift site.indent).render := by
    rw [linesOf_linesAt, List.map_map]
    rfl
  simp only [linesOf_append, own, List.append_assoc]

end Rendering

/-! ## Fixups that are left over -/

namespace Logged

/-- The last notices of the second part of a sequence are the last ones of the sequence. -/
theorem suffix_bind {α β : Type} {x : Logged α} {f : α → Logged β} {a : α} {tail : List Notice}
    (ok : x.outcome = .ok a) (suffix : tail <:+ (f a).notices) : tail <:+ (x >>= f).notices := by
  obtain ⟨notices, outcome⟩ := x
  cases ok
  rw [mk_ok_bind]
  exact suffix.trans (List.suffix_append ..)

end Logged

namespace Rendering

variable {rules : Rules} {table : TemplateTable} {top : String}

theorem mem_unusedFixups_iff {fields : List Field} {fixup : Fixup} :
    fixup ∈ unusedFixups rules fields ↔ fixup ∈ rules.fixups ∧
      ∀ field ∈ fields, field.isCorrected → ¬fixup.pattern.Matches field.name := by
  simp [unusedFixups]

/-- The fixups of a description that no byte field answers to. -/
def leftOver (rules : Rules) (templates : List (Template × List Entry)) (configs : List Entry) :
    List Fixup :=
  unusedFixups rules ((templates.flatMap (·.2) ++ configs).filterMap Entry.field?)

theorem schema_notices {bindings : List Binding} {templates : List (Template × List Entry)}
    {configs : List Entry} {documents : Bundle}
    (rendered : (schema rules table top bindings templates configs).outcome = .ok documents) :
    (leftOver rules templates configs).map (fun fixup => .fixupUnused fixup.pattern.text) <:+
      (schema rules table top bindings templates configs).notices := by
  obtain ⟨shown, bodies_shown, rendered⟩ := Logged.outcome_bind_eq_ok.1 rendered
  obtain ⟨bundle, configs_shown, rendered⟩ := Logged.outcome_bind_eq_ok.1 rendered
  have last (notices : List Notice) :
      (Logged.noteAll notices >>= fun _ => pure bundle).notices = notices :=
    List.append_nil notices
  refine Logged.suffix_bind bodies_shown (Logged.suffix_bind configs_shown ?_)
  rw [last]
  exact List.suffix_rfl

end Rendering

namespace Compilation

variable {rules : Rules} {name text : String} {compilation : Compilation} {document : Document}
  {table : TemplateTable} {built : Built} {bodies : List (Template × List Entry)} {layout : Layout}

theorem Comes.notices
    (comes : Comes rules name text compilation document table built bodies layout) :
    (Rendering.leftOver rules bodies layout.entries).map
        (fun fixup => .fixupUnused fixup.pattern.text) ++
      [.compiled name (layout.entries.filterMap Entry.field?).length table.length layout.size] <:+
      (ofText rules name text).notices := by
  obtain ⟨problems, shown⟩ := comes.shown
  obtain ⟨pool, laid⟩ := comes.laid
  obtain ⟨bundle, rendered⟩ := comes.rendered
  have left := Rendering.schema_notices rendered
  rw [ofText_eq_ofDocument comes.read, ofDocument]
  refine Logged.suffix_bind comes.collected (Logged.suffix_bind comes.builds ?_)
  refine Logged.suffix_bind shown (Logged.suffix_bind laid ?_)
  dsimp only
  rw [Document.path_of_ofText comes.read] at left rendered ⊢
  generalize Rendering.schema rules table (topFile name) document.bindings bodies layout.entries =
    schema at left rendered ⊢
  obtain ⟨notices, outcome⟩ := schema
  cases rendered
  obtain ⟨earlier, rfl⟩ := left
  rw [Logged.mk_ok_bind]
  exact ⟨earlier, (List.append_assoc ..).symm⟩

section

variable {size : ExpandCall → Nat → Logged Nat} {names pool : NamePool} {entries : List Entry}
  {field : Field}

theorem exists_fixed_of_isPlain
    (laid : (Layout.ofEntries rules (.strict size) names entries).outcome = .ok (layout, pool))
    (mem : .field field ∈ layout.entries) (plain : field.isPlain) :
    ∃ n, field.length = .fixed n := by
  have role := role_of_isPlain plain
  have here : field ∈ byteFields layout.entries :=
    List.mem_filterMap.2 ⟨_, mem, by simp [Entry.byteField?, role]⟩
  obtain ⟨n, length, -⟩ := (Layout.exists_bytes laid).2 field here
  exact ⟨n, length⟩

/-- In a strict layout every byte field that stands for itself has a length to be corrected. -/
theorem isCorrected_of_isPlain
    (laid : (Layout.ofEntries rules (.strict size) names entries).outcome = .ok (layout, pool))
    (mem : .field field ∈ layout.entries) (plain : field.isPlain) : field.isCorrected := by
  obtain ⟨n, length⟩ := exists_fixed_of_isPlain laid mem plain
  simpa [Field.isCorrected, Field.isPlain, length, Length.fixed?] using plain

end

/-- A fixup is left over if no byte field is put out under a name that it is for. -/
theorem Comes.mem_leftOver_iff
    (comes : Comes rules name text compilation document table built bodies layout)
    {fixup : Fixup} : fixup ∈ Rendering.leftOver rules bodies layout.entries ↔
      fixup ∈ rules.fixups ∧
      (∀ spot ∈ spots layout.entries, ¬fixup.pattern.Matches spot.field.name) ∧
      ∀ body ∈ bodies, ∀ field, .field field ∈ body.2 → field.isCorrected →
        ¬fixup.pattern.Matches field.name := by
  obtain ⟨pool, laid⟩ := comes.laid
  rw [Rendering.leftOver, Rendering.mem_unusedFixups_iff]
  refine and_congr_right fun _ => ?_
  constructor
  · intro apart
    refine ⟨fun spot mem => ?_, fun body mem field here corrected => ?_⟩
    · obtain ⟨whole, plain⟩ := mem_spots mem
      have here : Entry.field spot.field ∈ layout.entries := by simp [whole]
      refine apart spot.field ?_ (isCorrected_of_isPlain laid here plain)
      exact List.mem_filterMap.2 ⟨_, List.mem_append_right _ here, rfl⟩
    · refine apart field ?_ corrected
      exact List.mem_filterMap.2
        ⟨_, List.mem_append_left _ (List.mem_flatMap.2 ⟨body, mem, here⟩), rfl⟩
  · rintro ⟨at_spots, in_bodies⟩ field mem corrected
    obtain ⟨entry, here, shown⟩ := List.mem_filterMap.1 mem
    obtain rfl : entry = .field field := by cases entry <;> simp_all [Entry.field?]
    rcases List.mem_append.1 here with here | here
    · obtain ⟨body, mem, here⟩ := List.mem_flatMap.1 here
      exact in_bodies body mem field here corrected
    · have plain : field.isPlain := by
        simp only [Field.isCorrected, Bool.and_eq_true] at corrected
        simpa [Field.isPlain] using corrected.1
      have found : field ∈ plainFields layout.entries :=
        List.mem_filterMap.2 ⟨_, here, if_pos plain⟩
      rw [← map_field_spotsFrom []] at found
      obtain ⟨spot, at_spot, rfl⟩ := List.mem_map.1 found
      exact at_spots spot at_spot

/-! ## Configurations -/

/-- A declared byte field is shown at a spot with so many bytes: its length, corrected for the name
that it is put out under. They are the length corrected for its own name if the fixups do not tell
the two names apart. -/
structure ShownAs (rules : Rules) (table : TemplateTable) (top : String) (documents : Bundle)
    (intro : List Rendering.TracedLine) (source : Field) (spot : Spot) (bytes : Nat) : Prop where
  putsOut : spot.PutsOut rules source
  shown : ∃ text, Rendering.ShowsAt rules table top documents intro spot
    (spot.field.byteLines rules bytes text)
  corrects : ∃ n, source.length = .fixed n ∧ Corrects spot.field.name rules.fixups n bytes ∧
    ((∀ fixup ∈ rules.fixups,
        fixup.pattern.Matches spot.field.name ↔ fixup.pattern.Matches source.name) →
      Corrects source.name rules.fixups n bytes)

/-- What fixups do to the configuration of a compilation. Its declared byte fields stand at the
spots of the layout, one at each, and the fixups that are reported as left over are those for no
name that a byte field is put out under. -/
structure Corrected (rules : Rules) (name text : String) (compilation : Compilation)
    (table : TemplateTable) (built : Built) (bodies : List (Template × List Entry))
    (layout : Layout) (shown : List Spot) : Prop where
  perm : shown.Perm (spots layout.entries)
  fields : ∃ intro, List.Forall₂ (fun source spot => ∃ bytes, ShownAs rules table (topFile name)
    compilation.documents intro source spot bytes) (plainFields built.entries) shown
  reported : (Rendering.leftOver rules bodies layout.entries).map
        (fun fixup => .fixupUnused fixup.pattern.text) ++
      [.compiled name (layout.entries.filterMap Entry.field?).length table.length layout.size] <:+
    (ofText rules name text).notices
  leftOver : ∀ fixup, fixup ∈ Rendering.leftOver rules bodies layout.entries ↔
    fixup ∈ rules.fixups ∧ (∀ spot ∈ shown, ¬fixup.pattern.Matches spot.field.name) ∧
      ∀ body ∈ bodies, ∀ field, .field field ∈ body.2 → field.isCorrected →
        ¬fixup.pattern.Matches field.name

theorem ofText_corrected (h : (ofText rules name text).outcome = .ok compilation) :
    ∃ document table built bodies layout shown,
      Comes rules name text compilation document table built bodies layout ∧
      Corrected rules name text compilation table built bodies layout shown := by
  obtain ⟨document, table, built, bodies, layout, comes, rendered⟩ := exists_rendered h
  obtain ⟨pool, laid⟩ := comes.laid
  obtain ⟨shown, perm, putsOut⟩ := exists_spots (Built.unpadded_ofLines comes.builds) laid
  obtain ⟨referred, intro, trace, documents, traces, housed⟩ := Rendering.exists_trace rendered
  rw [Document.path_of_ofText comes.read] at documents housed
  have shownAs {source : Field} {spot : Spot} (putsOut : spot.PutsOut rules source)
      (mem : spot ∈ spots layout.entries) : ∃ bytes, ShownAs rules table (topFile name)
        compilation.documents intro source spot bytes := by
    obtain ⟨whole, plain⟩ := mem_spots mem
    obtain ⟨n, length⟩ := exists_fixed_of_isPlain laid (by simp [whole]) plain
    obtain ⟨bytes, text, showsAt, corrects⟩ := Rendering.exists_showsAt housed traces mem length
    rw [← documents] at showsAt
    exact ⟨bytes, putsOut, ⟨text, showsAt⟩, n, putsOut.length_eq ▸ length, corrects,
      corrects.congr⟩
  have at_spots := (List.forall₂_and_left shown (plainFields built.entries)).2
    ⟨fun spot mem => perm.subset mem, putsOut.flip⟩
  refine ⟨document, table, built, bodies, layout, shown, comes, perm,
    ⟨intro, at_spots.flip.imp fun source spot both => shownAs both.2 both.1⟩, comes.notices, ?_⟩
  intro fixup
  simp only [comes.mem_leftOver_iff, perm.mem_iff]

/-- A byte field that a bit is packed into. -/
def bitInFlags : String :=
  "\n".intercalate ["[PcdsDynamicVpd.Upd]", "Flags|*|1|0", "# !BSF FIELD:\x7bA:1\x7d"]

def flagLines : List SourceLine :=
  [⟨2, "Flags|*|1|0"⟩, ⟨3, "# !BSF FIELD:\x7bA:1\x7d"⟩]

def widerFlags : Rules := { fixups := [⟨.exact "Flags", 1⟩] }

/-- The field is put out as a marker, which the fixup for its name is not for. -/
theorem bitInFlags_corrected : ∃ compilation document table built bodies layout shown,
    (ofText widerFlags "t.dsc" bitInFlags).outcome = .ok compilation ∧
    Comes widerFlags "t.dsc" bitInFlags compilation document table built bodies layout ∧
    Corrected widerFlags "t.dsc" bitInFlags compilation table built bodies layout shown ∧
    shown.map (·.field.name) = ["$STRUCT"] ∧
    ⟨.exact "Flags", 1⟩ ∈ Rendering.leftOver widerFlags bodies layout.entries := by
  have compiled : (ofText widerFlags "t.dsc" bitInFlags).outcome.toOption.map (fun compilation =>
      (compilation.schema.templates.length,
        (plainFields compilation.schema.configs).map Field.name)) = some (0, ["$STRUCT"]) := by
    decide +kernel
  obtain ⟨compilation, h, view⟩ := exists_eq_ok compiled
  obtain ⟨document, table, built, bodies, layout, shown, comes, corrected⟩ := ofText_corrected h
  simp only [comes.schema_eq, schemaOf, List.length_map, Prod.mk.injEq, List.length_eq_zero_iff]
    at view
  obtain ⟨rfl, names⟩ := view
  have named : shown.map (·.field.name) = ["$STRUCT"] := by
    rw [← map_field_spotsFrom [], List.map_map] at names
    have perm := corrected.perm.map (Field.name ∘ Spot.field)
    exact List.perm_singleton.1 (names ▸ perm)
  refine ⟨compilation, document, table, built, [], layout, shown, h, comes, corrected, named, ?_⟩
  refine (corrected.leftOver _).2 ⟨by decide, fun spot mem => ?_, by simp⟩
  have name : spot.field.name ∈ shown.map (·.field.name) := List.mem_map_of_mem mem
  rw [named, List.mem_singleton] at name
  rw [name]
  decide

/-- The length of the field stays 1 although the fixup for its name makes it 2, and the fixup is
reported as one that is for no field. -/
theorem bitInFlags_missed :
    (Document.ofText "t.dsc" bitInFlags).toOption.map (·.region .config) = some flagLines ∧
    (Built.ofLines widerFlags flagLines).outcome.toOption.map
        (fun built => (plainFields built.entries).map fun field => (field.name, field.length)) =
      some [("Flags", .fixed 1)] ∧
    Corrects "Flags" widerFlags.fixups 1 2 ∧
    (ofText widerFlags "t.dsc" bitInFlags).outcome.toOption.map (fun compilation =>
        compilation.documents.map fun document => document.lines.drop 13) =
      some [["  - Flags :", "    - $STRUCT :", "        length       : 0x01",
        "        value        : 0", "    - A :", "        length       : 1b",
        "        value        : 0x0"]] ∧
    .fixupUnused "Flags" ∈ (ofText widerFlags "t.dsc" bitInFlags).notices := by
  have corrects : Corrects "Flags" widerFlags.fixups 1 2 :=
    .adjust (by decide) (by decide) (by decide) .nil
  refine ⟨?_, ?_, corrects, ?_, ?_⟩ <;> decide +kernel

end Compilation
end BoardSchema
