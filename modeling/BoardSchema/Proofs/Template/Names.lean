import BoardSchema.Proofs.Compilation
import BoardSchema.Proofs.Field.Builder
import BoardSchema.Proofs.Layout.Names
import BoardSchema.Proofs.Template.Expansion
/-!
The padding inside templates is numbered from zero on, whatever the template declares. Both the body
of a template and its expansions draw the names of their padding from a pool of their own, in which
no name is reserved, so a declared field has the name of a padding if it has one of the first numbers.
-/
namespace BoardSchema
open Layout

/-- Padding among `entries` that has the numbers from zero on, so that what tells it from the
declared fields are the numbers that these have themselves. -/
structure NumberedPadding (rules : Rules) (declared entries : List Entry) : Prop where
  names : (namesOfPadding entries).Perm
    ((List.range (namesOfPadding entries).length).map fun number =>
      rules.paddingPrefix ++ toString number)
  apart_iff :
    (∀ padding ∈ namesOfPadding entries, ∀ field, .field field ∈ declared →
      padding ≠ field.name) ↔
    ∀ number < (namesOfPadding entries).length, ∀ field, .field field ∈ declared →
      field.name ≠ rules.paddingPrefix ++ toString number

variable {rules : Rules} {declared entries : List Entry}

theorem NumberedPadding.of_names
    (names : (namesOfPadding entries).Perm
      ((List.range (namesOfPadding entries).length).map fun number =>
        rules.paddingPrefix ++ toString number)) : NumberedPadding rules declared entries := by
  have numbered (name : String) : name ∈ namesOfPadding entries ↔
      ∃ number < (namesOfPadding entries).length, rules.paddingPrefix ++ toString number = name := by
    rw [names.mem_iff]
    simp
  refine ⟨names, ?_⟩
  constructor
  · intro apart number hnumber field hfield
    exact (apart _ ((numbered _).2 ⟨number, hnumber, rfl⟩) field hfield).symm
  · intro apart padding hpadding field hfield
    obtain ⟨number, hnumber, rfl⟩ := (numbered padding).1 hpadding
    exact (apart number hnumber field hfield).symm

/-- A stream that is laid out with names of its own. -/
theorem numberedPadding_ofEntries {sizing : Sizing} {lines : List SourceLine} {built : Built}
    {layout : Layout} {pool : NamePool} (builds : (Built.ofLines rules lines).outcome = .ok built)
    (laid : (ofEntries rules sizing { stem := rules.paddingPrefix } built.entries).outcome =
      .ok (layout, pool)) : NumberedPadding rules built.entries layout.entries := by
  obtain ⟨count, drawn⟩ := ofEntries_draws (Built.unpadded_ofLines builds) laid
  rw [NamePool.draw_unreserved] at drawn
  have length : (namesOfPadding layout.entries).length = count := by simpa using drawn.length_eq
  exact .of_names (length ▸ drawn)

/-- The padding in the body of a template, and in an expansion whatever the arguments are, has the
numbers from zero on. It is told from the fields that the lines declare, with the arguments put in,
if and only if none of them has one of these numbers behind the prefix. -/
theorem templates_paddingNames (rules : Rules) :
    (∀ {template : Template} {built : Built}, (template.layoutBody rules).outcome = .ok built →
      ∃ declared, (Built.ofLines rules template.body).outcome = .ok declared ∧
        NumberedPadding rules declared.entries built.entries) ∧
    ∀ {table : TemplateTable} {active : List String} {call : ExpandCall} {line : Nat}
      {layout : Layout}, (table.expandIn rules active call line).outcome = .ok layout →
      ∃ template declared, table.get? call.template = some template ∧
        (Built.ofLines rules (template.instantiate call.args)).outcome = .ok declared ∧
        NumberedPadding rules declared.entries layout.entries := by
  constructor
  · intro template built h
    obtain ⟨declared, names, layout, builds, laid, entries⟩ := Compilation.layoutBody_eq_ok h
    exact ⟨declared, builds, entries ▸ numberedPadding_ofEntries builds laid⟩
  · intro table active call line layout h
    obtain ⟨template, declared, names, found, -, builds, laid⟩ := TemplateTable.expandIn_eq_ok.1 h
    exact ⟨template, declared, found, builds, numberedPadding_ofEntries builds laid⟩

/-- A template with a gap behind a field that has the argument for its name. -/
def gapTemplate : Template :=
  ⟨"T", Template.topLevel, 1, [⟨2, "$(1)|*|1|0"⟩, ⟨3, "B|4|1|0"⟩]⟩

/-- The names of the fields that lines declare. -/
def declaredNames (lines : List SourceLine) : Option (List String) :=
  (Built.ofLines {} lines).outcome.toOption.map fun built =>
    (built.entries.filterMap Entry.field?).map Field.name

theorem name_mem_declaredNames {lines : List SourceLine} {built : Built} {names : List String}
    (builds : (Built.ofLines {} lines).outcome = .ok built)
    (known : declaredNames lines = some names) :
    ∀ name, name ∈ names ↔ ∃ field, .field field ∈ built.entries ∧ field.name = name := by
  intro name
  simp only [declaredNames, builds, Except.toOption, Option.map_some, Option.some.injEq] at known
  subst known
  simp only [List.mem_map, List.mem_filterMap]
  constructor
  · rintro ⟨field, ⟨entry, mem, shown⟩, rfl⟩
    cases entry with
    | field found => cases shown; exact ⟨_, mem, rfl⟩
    | includeOpen path => cases shown
    | includeClose => cases shown
  · rintro ⟨field, mem, rfl⟩
    exact ⟨field, ⟨_, mem, rfl⟩, rfl⟩

/-- A body and an expansion in which the padding is told from the fields. -/
theorem gapTemplate_paddingNames : ∃ built layout,
    (gapTemplate.layoutBody {}).outcome = .ok built ∧
    (TemplateTable.expandIn [gapTemplate] {} [] ⟨"T", ["A"]⟩ 9).outcome = .ok layout ∧
    namesOfPadding built.entries = ["UnusedUpdSpace0"] ∧
    namesOfPadding layout.entries = ["UnusedUpdSpace0"] ∧
    ∃ declared filled, (Built.ofLines {} gapTemplate.body).outcome = .ok declared ∧
      (Built.ofLines {} (gapTemplate.instantiate ["A"])).outcome = .ok filled ∧
      (∀ padding ∈ namesOfPadding built.entries, ∀ field, .field field ∈ declared.entries →
        padding ≠ field.name) ∧
      ∀ padding ∈ namesOfPadding layout.entries, ∀ field, .field field ∈ filled.entries →
        padding ≠ field.name := by
  have shown : (gapTemplate.layoutBody {}).outcome.toOption.map (fun built =>
      namesOfPadding built.entries) = some ["UnusedUpdSpace0"] := by decide +kernel
  have expanded : (TemplateTable.expandIn [gapTemplate] {} [] ⟨"T", ["A"]⟩ 9).outcome.toOption.map
      (fun layout => namesOfPadding layout.entries) = some ["UnusedUpdSpace0"] := by
    decide +kernel
  have written : declaredNames gapTemplate.body = some ["$(1)", "B"] := by decide +kernel
  have put_in : declaredNames (gapTemplate.instantiate ["A"]) = some ["A", "B"] := by
    decide +kernel
  obtain ⟨built, hbuilt, shown⟩ := exists_eq_ok shown
  obtain ⟨layout, hlayout, expanded⟩ := exists_eq_ok expanded
  obtain ⟨declared, hdeclared, body⟩ := (templates_paddingNames {}).1 hbuilt
  obtain ⟨template, filled, found, hfilled, expansion⟩ := (templates_paddingNames {}).2 hlayout
  obtain rfl : gapTemplate = template := Option.some.inj found
  refine ⟨built, layout, hbuilt, hlayout, shown, expanded, declared, filled, hdeclared, hfilled,
    body.apart_iff.2 ?_, expansion.apart_iff.2 ?_⟩
  · rw [shown]
    intro number hnumber field hfield same
    obtain rfl : number = 0 := Nat.lt_one_iff.1 hnumber
    have known := (name_mem_declaredNames hdeclared written _).2 ⟨field, hfield, same⟩
    exact absurd known (by decide)
  · rw [expanded]
    intro number hnumber field hfield same
    obtain rfl : number = 0 := Nat.lt_one_iff.1 hnumber
    have known := (name_mem_declaredNames hfilled put_in _).2 ⟨field, hfield, same⟩
    exact absurd known (by decide)

/-- A gap behind a field that has the first name for padding. -/
def takenTemplate : Template :=
  ⟨"T", Template.topLevel, 1, [⟨2, "UnusedUpdSpace0|*|1|0"⟩, ⟨3, "B|4|1|0"⟩]⟩

/-- In a body, and in an expansion by its argument, a declared field has the name of the padding. -/
theorem takenName_not_apart :
    (∃ built declared field, (takenTemplate.layoutBody {}).outcome = .ok built ∧
      (Built.ofLines {} takenTemplate.body).outcome = .ok declared ∧
      .field field ∈ declared.entries ∧ field.name ∈ namesOfPadding built.entries) ∧
    ∃ layout filled field,
      (TemplateTable.expandIn [gapTemplate] {} [] ⟨"T", ["UnusedUpdSpace0"]⟩ 9).outcome =
        .ok layout ∧
      (Built.ofLines {} (gapTemplate.instantiate ["UnusedUpdSpace0"])).outcome = .ok filled ∧
      .field field ∈ filled.entries ∧ field.name ∈ namesOfPadding layout.entries := by
  have shown : (takenTemplate.layoutBody {}).outcome.toOption.map (fun built =>
      namesOfPadding built.entries) = some ["UnusedUpdSpace0"] := by decide +kernel
  have expanded : (TemplateTable.expandIn [gapTemplate] {} []
      ⟨"T", ["UnusedUpdSpace0"]⟩ 9).outcome.toOption.map (fun layout =>
        namesOfPadding layout.entries) = some ["UnusedUpdSpace0"] := by
    decide +kernel
  have written : declaredNames takenTemplate.body = some ["UnusedUpdSpace0", "B"] := by
    decide +kernel
  have put_in : declaredNames (gapTemplate.instantiate ["UnusedUpdSpace0"]) =
      some ["UnusedUpdSpace0", "B"] := by
    decide +kernel
  obtain ⟨built, hbuilt, shown⟩ := exists_eq_ok shown
  obtain ⟨layout, hlayout, expanded⟩ := exists_eq_ok expanded
  obtain ⟨declared, -, -, hdeclared, -, -⟩ := Compilation.layoutBody_eq_ok hbuilt
  obtain ⟨template, filled, -, found, -, hfilled, -⟩ := TemplateTable.expandIn_eq_ok.1 hlayout
  obtain rfl : gapTemplate = template := Option.some.inj found
  obtain ⟨field, mem, name⟩ :=
    (name_mem_declaredNames hdeclared written "UnusedUpdSpace0").1 (by decide)
  obtain ⟨field', mem', name'⟩ :=
    (name_mem_declaredNames hfilled put_in "UnusedUpdSpace0").1 (by decide)
  refine ⟨⟨built, declared, field, hbuilt, hdeclared, mem, ?_⟩,
    layout, filled, field', hlayout, hfilled, mem', ?_⟩
  · simp [shown, name]
  · simp [expanded, name']

end BoardSchema
