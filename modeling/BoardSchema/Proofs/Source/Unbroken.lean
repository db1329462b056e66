import BoardSchema.Proofs.Field.Unbroken
import BoardSchema.Proofs.Lines
import BoardSchema.Proofs.Source.Bindings
import BoardSchema.Proofs.Template.Collecting
/-!
What a description is read into. Its lines are texts of one line, and so are the names and values of
its variables, and the names of its templates and of the include files around them.
-/
namespace BoardSchema

/-! ## Lines and variables -/

namespace Document

variable {name text : String} {document : Document}

theorem oneLine_lines (read : ofText name text = .ok document) :
    ∀ line ∈ document.lines, OneLine line.text := by
  simp only [ofText] at read
  split at read
  · cases read
    intro line mem
    obtain ⟨index, bound, rfl⟩ := List.mem_mapIdx.1 mem
    obtain ⟨whole, found, same⟩ := List.mem_map.1 (List.getElem_mem bound)
    obtain ⟨trail, -, trimmed⟩ := Text.exists_trimEnd whole
    dsimp only
    rw [← same]
    refine OneLine.ofList_iff.2 fun inside => Text.lineFeed_not_mem found ?_
    rw [trimmed]
    exact List.mem_append_left _ inside
  · cases read

theorem oneLine_region (read : ofText name text = .ok document) (region : Region) :
    ∀ line ∈ document.region region, OneLine line.text :=
  fun line mem => oneLine_lines read line ((document.region_sublist region).subset mem)

end Document

theorem Binding.oneLine_ofLine? {line : SourceLine} {binding : Binding}
    (one : OneLine line.text) (found : ofLine? line = some binding) :
    OneLine binding.name ∧ OneLine binding.value := by
  have trimmed : '\n' ∉ Text.trim line.text.toList := fun mem => one (Text.trim_subset _ mem)
  have sides {name value : List Char} (none : '\n' ∉ name ++ '=' :: value) :
      OneLine (String.ofList (Text.trim name)) ∧ OneLine (String.ofList (Text.trim value)) := by
    simp only [OneLine.ofList_iff]
    exact ⟨fun mem => none (by simp [Text.trim_subset _ mem]),
      fun mem => none (by simp [Text.trim_subset _ mem])⟩
  cases ofLine?_eq_some_iff.1 found with
  | marked whole =>
    rw [whole, List.mem_append, not_or] at trimmed
    exact sides trimmed.2
  | plain whole =>
    rw [whole] at trimmed
    exact sides trimmed

theorem Document.oneLine_bindings {name text : String} {document : Document}
    (read : ofText name text = .ok document) :
    ∀ binding ∈ document.bindings, OneLine binding.name ∧ OneLine binding.value := by
  intro binding mem
  rw [document.bindings_eq_foldl] at mem
  obtain ⟨line, here, found⟩ := List.mem_filterMap.1 (foldl_putNamed_subset _ _ mem)
  exact Binding.oneLine_ofLine? (oneLine_region read .defines line here) found

/-! ## Templates -/

/-- A template whose name, file and body are of one line each. -/
structure Template.Unbroken (template : Template) : Prop where
  name : OneLine template.name
  file : OneLine template.file
  body : ∀ line ∈ template.body, OneLine line.text

namespace Template

def Bound.name : Bound → String
  | .start name => name
  | .stop name => name

theorem oneLine_bound? {block : Block} {bound : Bound} (one : OneLine block.value)
    (bounds : bound? block = some bound) : OneLine bound.name := by
  unfold bound? at bounds
  split at bounds
  · obtain ⟨⟨name, word⟩, cut, bounds⟩ := Option.bind_eq_some_iff.1 bounds
    obtain ⟨within, -⟩ := Text.subset_of_cutAtLast? cut
    have named : OneLine (String.ofList (Text.trim name)) :=
      one.of_subset fun c mem => within (Text.trim_subset _ mem)
    dsimp only at bounds
    split at bounds
    · cases bounds
      exact named
    · cases bounds
      exact named
    · cases bounds
  · cases bounds

theorem oneLine_boundOf? {event : LineEvent} {bound : Bound} (unbroken : event.Unbroken)
    (bounds : boundOf? event = some bound) : OneLine bound.name := by
  cases event with
  | bsf pragma =>
    obtain ⟨block, mem, bounds⟩ := List.exists_of_findSome?_eq_some bounds
    exact oneLine_bound? (unbroken block mem) bounds
  | hdr => cases bounds
  | declaration => cases bounds
  | includeOpen => cases bounds
  | includeClose => cases bounds
  | sectionHeader => cases bounds
  | unrecognized => cases bounds

end Template

theorem SourceLine.oneLine_bound? {line : SourceLine} {bound : Template.Bound}
    (one : OneLine line.text) (bounds : line.bound? = some bound) : OneLine bound.name := by
  unfold bound? at bounds
  split at bounds
  · next event read => exact Template.oneLine_boundOf? (LineEvent.unbroken_ofLine one read) bounds
  · cases bounds

/-- The include files that are open behind a line have names of one line. -/
theorem SourceLine.oneLine_files {line : SourceLine} {before behind : List String}
    (one : OneLine line.text) (each : ∀ path ∈ before, OneLine path)
    (opened : line.files (some before) = some behind) : ∀ path ∈ behind, OneLine path := by
  unfold files at opened
  split at opened
  · next path read =>
    cases opened
    exact List.forall_mem_cons.2 ⟨LineEvent.unbroken_ofLine one read, each⟩
  · cases before with
    | nil => cases opened
    | cons closed outer =>
      cases opened
      exact (List.forall_mem_cons.1 each).2
  · cases opened
    exact each

namespace TemplateTable
namespace Collection

/-- What has been collected is of one line each. -/
structure Unbroken (c : Collection) : Prop where
  complete : ∀ template ∈ c.complete, template.Unbroken
  includes : ∀ path ∈ c.includes, OneLine path
  current : ∀ template ∈ c.current, template.Unbroken

variable {line : SourceLine} {c next : Collection}

theorem unbroken_turns (unbroken : c.Unbroken) (one : OneLine line.text)
    (includes : ∀ path ∈ next.includes, OneLine path) (turns : Turns line c next) :
    next.Unbroken := by
  cases turns with
  | gap _ _ complete still => exact ⟨complete ▸ unbroken.complete, includes, by simp [still]⟩
  | @start name _ starts complete opened =>
    have file : OneLine (c.includes.head?.getD Template.topLevel) := by
      cases first : c.includes.head? with
      | none => decide
      | some path => exact unbroken.includes path (List.mem_of_mem_head? first)
    refine ⟨complete ▸ unbroken.complete, includes, ?_⟩
    rw [opened]
    rintro template ⟨⟩
    exact ⟨SourceLine.oneLine_bound? one starts, file, List.forall_mem_nil _⟩
  | inside opened _ complete still =>
    obtain ⟨named, file, body⟩ := unbroken.current _ opened
    refine ⟨complete ▸ unbroken.complete, includes, ?_⟩
    rw [still]
    rintro template ⟨⟩
    refine ⟨named, file, List.forall_mem_append.2 ⟨body, fun kept mem => ?_⟩⟩
    rw [List.mem_singleton.1 (List.mem_filter.1 mem).1]
    exact one
  | stop opened _ complete closed =>
    refine ⟨fun template mem => ?_, includes, by simp [closed]⟩
    rw [complete] at mem
    rcases mem_insert mem with rfl | old
    · exact unbroken.current _ opened
    · exact unbroken.complete _ old

theorem unbroken_add (unbroken : c.Unbroken) (one : OneLine line.text)
    (h : (c.add line).outcome = .ok next) : next.Unbroken := by
  rcases add_cases c line with ⟨taken, added, -, opened, turns⟩ | ⟨error, refused, -⟩
  · cases added.symm.trans h
    exact unbroken_turns unbroken one (SourceLine.oneLine_files one unbroken.includes opened) turns
  · cases refused.symm.trans h

theorem unbroken_addAll {lines : List SourceLine} (unbroken : c.Unbroken)
    (one : ∀ line ∈ lines, OneLine line.text) (h : (c.addAll lines).outcome = .ok next) :
    next.Unbroken := by
  induction lines generalizing c with
  | nil =>
    cases h
    exact unbroken
  | cons line rest ih =>
    obtain ⟨here, one⟩ := List.forall_mem_cons.1 one
    obtain ⟨middle, added, h⟩ := Logged.outcome_bind_eq_ok.1 h
    exact ih (unbroken_add unbroken here added) one h

end Collection

/-- Lines are collected into templates of one line each. -/
theorem unbroken_collect {lines : List SourceLine} {table : TemplateTable}
    (one : ∀ line ∈ lines, OneLine line.text) (h : (collect lines).outcome = .ok table) :
    ∀ template ∈ table, template.Unbroken := by
  obtain ⟨c, collected, h⟩ := Logged.outcome_bind_eq_ok.1 h
  have nothing : Collection.Unbroken {} := ⟨List.forall_mem_nil _, List.forall_mem_nil _, nofun⟩
  have unbroken := Collection.unbroken_addAll nothing one collected
  simp only [Logged.outcome_ofExcept, Collection.finish] at h
  split at h
  · cases h
    exact unbroken.complete
  · cases h

end TemplateTable
end BoardSchema
