import BoardSchema.Proofs.Layout.Restoring
import Mathlib.Data.List.Perm.Basic
/-!
Where the declared byte fields stand in a layout. Each of them is put out once, with the entries
around it as they were, or as the marker of a container that has its name.
-/
namespace BoardSchema

/-- A byte field that stands for itself. -/
def Entry.plain? : Entry → Option Field
  | .field f => if f.isPlain then some f else none
  | _ => none

theorem Entry.plain?_eq_some_iff {entry : Entry} {field : Field} :
    entry.plain? = some field ↔ entry = .field field ∧ field.isPlain := by
  cases entry with
  | field f =>
    simp only [plain?, Option.ite_none_right_eq_some, Option.some.injEq, Entry.field.injEq]
    constructor
    · rintro ⟨plain, rfl⟩
      exact ⟨rfl, plain⟩
    · rintro ⟨rfl, plain⟩
      exact ⟨plain, rfl⟩
  | includeOpen path => simp [plain?]
  | includeClose => simp [plain?]

def plainFields (entries : List Entry) : List Field := entries.filterMap Entry.plain?

namespace Layout

/-- A byte field that stands for itself, between the entries before it and those behind it. -/
structure Spot where
  before : List Entry
  field : Field
  after : List Entry

def spotsFrom (before : List Entry) : List Entry → List Spot
  | [] => []
  | entry :: rest =>
    (entry.plain?.toList.map fun field => ⟨before, field, rest⟩) ++
      spotsFrom (before ++ [entry]) rest

/-- The byte fields of a stream with their places in it. -/
def spots (entries : List Entry) : List Spot := spotsFrom [] entries

/-- How a declared byte field is put out: as itself with its offset, or as the marker of a container
that has its name, right behind the opening and right before the first member. -/
inductive Spot.PutsOut (rules : Rules) (source : Field) (spot : Spot) : Prop where
  | itself (offset : Option Nat) (field_eq : spot.field = { source with offset })
  | marker {earlier later : List Entry} {opening member : Field} (offset : Option Nat)
      (before_eq : spot.before = earlier ++ [.field opening]) (opens : opening.role = .structOpen)
      (named : opening.name = source.name) (after_eq : spot.after = .field member :: later)
      (packed : member.role = .bitField)
      (field_eq : spot.field = { source with name := rules.bitGroupTag, offset })

/-- What the field at a spot was declared as, its offset aside. -/
def Spot.original (rules : Rules) (spot : Spot) : Field :=
  match spot.before.getLast? with
  | some (.field opening) =>
    if opening.role = .structOpen ∧ isMarker rules spot.field spot.after then
      { spot.field with name := opening.name }
    else spot.field
  | _ => spot.field

variable {rules : Rules} {sizing : Sizing}

theorem mem_spotsFrom {before entries : List Entry} {spot : Spot}
    (mem : spot ∈ spotsFrom before entries) :
    before ++ entries = spot.before ++ .field spot.field :: spot.after ∧ spot.field.isPlain := by
  induction entries generalizing before with
  | nil => cases mem
  | cons entry rest ih =>
    rcases List.mem_append.1 mem with mem | mem
    · obtain ⟨field, found, rfl⟩ := List.mem_map.1 mem
      obtain ⟨rfl, plain⟩ := Entry.plain?_eq_some_iff.1 (Option.mem_toList.1 found)
      exact ⟨rfl, plain⟩
    · simpa using ih mem

theorem mem_spots {entries : List Entry} {spot : Spot} (mem : spot ∈ spots entries) :
    entries = spot.before ++ .field spot.field :: spot.after ∧ spot.field.isPlain :=
  mem_spotsFrom mem

/-- A field that was declared is restored but for its name. -/
theorem exists_name_of_restored {before : Option Entry} {field : Field} {found : Entry}
    {after : List Entry} (shown : restored rules before (.field field) after = some found) :
    ∃ name, found = .field { field with name } := by
  simp only [restored] at shown
  split at shown
  · cases shown
  · split at shown
    · cases shown
    · cases shown
      exact ⟨field.name, rfl⟩
  · split at shown
    · cases shown
    · cases shown
      exact ⟨field.name, rfl⟩
  · split at shown
    · cases shown
      exact ⟨_, rfl⟩
    · cases shown
      exact ⟨field.name, rfl⟩
  · cases shown
    exact ⟨field.name, rfl⟩

theorem restored_of_isPlain {field : Field} (plain : field.isPlain) (before : Option Entry)
    (after : List Entry) : restored rules before (.field field) after =
      match before with
      | some (.field opening) =>
        if opening.role = .structOpen ∧ isMarker rules field after then
          some (.field { field with name := opening.name })
        else some (.field field)
      | _ => some (.field field) := by
  obtain ⟨name, role⟩ := field
  obtain rfl : role = .plain := role_of_isPlain plain
  cases before with
  | none => rfl
  | some last => cases last <;> rfl

/-- What an entry is restored to is a byte field of its own if the entry is one. -/
theorem plain_restored (before : List Entry) (entry : Entry) (after : List Entry) :
    (restored rules before.getLast? entry after).bind Entry.plain? =
      entry.plain?.map fun field => Spot.original rules ⟨before, field, after⟩ := by
  cases entry with
  | field field =>
    by_cases plain : field.isPlain
    · have same : (Entry.field field).plain? = some field := if_pos plain
      have renamed (name : String) :
          (Entry.field { field with name }).plain? = some { field with name } := if_pos plain
      rw [same, Option.map_some, restored_of_isPlain plain, Spot.original]
      cases before.getLast? with
      | none => exact same
      | some last =>
        cases last with
        | field opening =>
          dsimp only
          split
          · exact renamed opening.name
          · exact same
        | includeOpen path => exact same
        | includeClose => exact same
    · have same : (Entry.field field).plain? = none := if_neg plain
      rw [same, Option.map_none]
      cases shown : restored rules before.getLast? (.field field) after with
      | none => rfl
      | some found =>
        obtain ⟨name, rfl⟩ := exists_name_of_restored shown
        exact if_neg plain
  | includeOpen path => rfl
  | includeClose => rfl

theorem plainFields_restoreFrom (before entries : List Entry) :
    plainFields (restoreFrom rules before.getLast? entries) =
      (spotsFrom before entries).map (Spot.original rules) := by
  induction entries generalizing before with
  | nil => rfl
  | cons entry rest ih =>
    have ih := ih (before ++ [entry])
    rw [List.getLast?_concat] at ih
    have here : (restored rules before.getLast? entry rest).toList.filterMap Entry.plain? =
        ((restored rules before.getLast? entry rest).bind Entry.plain?).toList := by
      cases restored rules before.getLast? entry rest with
      | none => rfl
      | some found => cases plain : found.plain? <;> simp [plain]
    rw [restoreFrom, spotsFrom, List.map_append, ← ih, plainFields, List.filterMap_append, here,
      plain_restored, List.map_map, Option.toList_map]
    rfl

/-- A field with its offset. -/
def Located (source result : Field) : Prop := ∃ offset, result = { source with offset }

theorem FilledIn.plain_rel {declared : List Entry} {source result : Entry}
    (filled : FilledIn rules declared source result) :
    Option.Rel Located source.plain? result.plain? := by
  cases filled with
  | @field source result filled =>
    have result_plain : result.isPlain = source.isPlain := by rw [filled.kept]; rfl
    by_cases plain : source.isPlain
    · have role := role_of_isPlain plain
      have no_call : source.expand = none := by simpa [Field.isPlain, role] using plain
      obtain ⟨value, bitOffset⟩ := filled.member_eq (by simp [role])
      have tag := filled.tag_eq.resolve_right (by simp [role])
      have offset_only : result = { source with offset := result.offset } := by
        have kept := filled.kept
        rwa [filled.length_eq (.inr no_call), value, tag, bitOffset] at kept
      simp only [Entry.plain?, result_plain, plain]
      exact .some ⟨result.offset, offset_only⟩
    · simp only [Entry.plain?, result_plain, plain]
      exact .none
  | includeOpen => exact .none
  | includeClose => exact .none

theorem Spot.putsOut_of_original {source : Field} {spot : Spot}
    (located : Located source (spot.original rules)) : spot.PutsOut rules source := by
  obtain ⟨offset, restored⟩ := located
  unfold original at restored
  split at restored
  · next opening last =>
    split at restored
    · next marked =>
      obtain ⟨opens, marked⟩ := marked
      simp only [isMarker, Bool.and_eq_true, decide_eq_true_eq] at marked
      obtain ⟨⟨-, tag⟩, packed⟩ := marked
      obtain ⟨earlier, before_eq⟩ := List.getLast?_eq_some_iff.1 last
      obtain ⟨entry, head, isMember⟩ := (Option.any_eq_true ..).1 packed
      obtain ⟨later, after_eq⟩ := List.head?_eq_some_iff.1 head
      obtain ⟨member, rfl, role⟩ : ∃ member, entry = .field member ∧ member.role = .bitField := by
        cases entry with
        | field member => exact ⟨member, rfl, by simpa [Entry.isMember] using isMember⟩
        | includeOpen path => cases isMember
        | includeClose => cases isMember
      have field_eq : { spot.field with name := rules.bitGroupTag } =
          { source with name := rules.bitGroupTag, offset } :=
        congrArg (fun field : Field => { field with name := rules.bitGroupTag }) restored
      have named := congrArg Field.name restored
      have same : { spot.field with name := rules.bitGroupTag } = spot.field := by rw [← tag]
      exact .marker offset before_eq opens named after_eq role (same.symm.trans field_eq)
    · exact .itself offset restored
  · exact .itself offset restored

/-- The declared byte fields are put out at the byte fields of the layout, each at one of them. -/
theorem exists_spots {names pool : NamePool} {entries : List Entry} {layout : Layout}
    (unpadded : Unpadded entries)
    (h : (ofEntries rules sizing names entries).outcome = .ok (layout, pool)) :
    ∃ shown : List Spot, shown.Perm (spots layout.entries) ∧
      List.Forall₂ (fun source spot => Spot.PutsOut rules source spot) (plainFields entries)
        shown := by
  obtain ⟨outline, rfl, body, follows⟩ := exists_outline h
  have front_nil : outline.frontPairs = [] := Outline.frontPairs_eq_nil follows.front_eq_nil
  have moves : HeaderMoves rules outline.headers outline.source outline.bodySource := by
    simpa [Outline.frontSource, front_nil] using follows.headerMoves [] (by simp) [] []
  have restored_eq : restore rules layout.entries = outline.bodyPairs.map Prod.snd := by
    rw [← body]
    exact (follows.restores unpadded).2.restore_eq
  have filled : List.Forall₂ (FilledIn rules outline.source) outline.bodySource
      (restore rules layout.entries) := by
    rw [restored_eq, Outline.bodySource, List.forall₂_map_left_iff, List.forall₂_map_right_iff,
      List.forall₂_same]
    exact (follows.filled unpadded).2
  have located : List.Forall₂ Located (plainFields outline.bodySource)
      (plainFields (restore rules layout.entries)) :=
    List.rel_filterMap (fun _ _ filled => filled.plain_rel) filled
  have restored : plainFields (restore rules layout.entries) =
      (spots layout.entries).map (Spot.original rules) := plainFields_restoreFrom [] layout.entries
  rw [restored, List.forall₂_map_right_iff] at located
  obtain ⟨shown, located, perm⟩ :=
    List.perm_comp_forall₂ (moves.perm.filterMap Entry.plain?).symm located
  exact ⟨shown, perm, located.imp fun _ _ located => Spot.putsOut_of_original located⟩

end Layout
end BoardSchema
