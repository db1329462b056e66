import BoardSchema.Proofs.Layout.Outline
/-!
How an outline is laid out, element by element, between two cursors. A cursor is `none` once some
length is not known.
-/
namespace BoardSchema.Layout

/-- Structures of this name may go in front of the structure around them. -/
def isHeader (rules : Rules) (name : String) : Bool := (rules.headerForStruct? name).isSome

/-- How the cursor gets to the place of a field, and the padding that this takes. -/
inductive Seeks (field : Field) : Option Nat → Option Field → Option Nat → Prop
  | auto {cursor : Option Nat} (declared : field.declaredOffset = .auto) :
      Seeks field cursor none cursor
  | jump {offset : Nat} (declared : field.declaredOffset = .fixed offset) :
      Seeks field none none (some offset)
  | here {offset : Nat} (declared : field.declaredOffset = .fixed offset) :
      Seeks field (some offset) none (some offset)
  | gap {cursor offset : Nat} (name : String) (declared : field.declaredOffset = .fixed offset)
      (ahead : cursor < offset) :
      Seeks field (some cursor)
        (some (paddingField name cursor (offset - cursor) field.line)) (some offset)

/-- A byte field is placed at the cursor, which goes on behind it. -/
def Places (sizing : Sizing) (cursor : Option Nat) (cell : Cell) (next : Option Nat) : Prop :=
  ∃ start bytes, Seeks cell.source cursor cell.padding start ∧
    (extent sizing cell.source).outcome = .ok (cell.result.length, bytes) ∧
    advance cell.source start bytes = .ok next ∧
    cell.result = { cell.source with offset := start, length := cell.result.length }

/-- A page marker notes the cursor; an include bracket stays as it is. -/
inductive Marks (cursor : Option Nat) : Entry → Entry → Prop
  | action {field : Field} (role : field.role = .action) :
      Marks cursor (.field field) (.field { field with offset := cursor })
  | includeOpen (path : String) : Marks cursor (.includeOpen path) (.includeOpen path)
  | includeClose : Marks cursor .includeClose .includeClose

/-- Members take their bits one after the other. -/
inductive Packs : BitGroup → List Placed → BitGroup → Prop
  | nil {group : BitGroup} : Packs group [] group
  | member {first group next : BitGroup} {members : List Placed} {member : Placed}
      (before : Packs first members group) (role : member.source.role = .bitField)
      (packed : packMember member.source group = .ok (member.result, next)) :
      Packs first (members ++ [member]) next

/-- A container whose members, if it has any yet, have taken bits up to the state `group`. -/
structure Contains (rules : Rules) (packed : Packed) (group : BitGroup) : Prop where
  plain : packed.source.isPlain = true
  opening : packed.opening = containerOpening packed.result
  marker : packed.marker = containerMarker rules packed.result
  packs : ∃ bytes, bytes ≤ maxContainer ∧ packed.result.length = .fixed bytes ∧
    Packs (.ofContainer packed.result bytes) packed.members group

/-- The closing bracket of a container stands on the line of its last member. -/
def Packed.lastLine (packed : Packed) : Nat :=
  (packed.members.getLast?.map fun member => member.result.line).getD 0

/-- A structure opens behind `before`, which stands in another structure or not. It goes to the
front if it is a header structure with nothing but padding before it. `headerTag` is the tag that it
takes over. -/
structure Opens (rules : Rules) (inside : Bool) (before : Outline) (cursor : Option Nat)
    (hoists : Bool) (opening : Placed) (headerTag : Option Nat) : Prop where
  role : opening.source.role = .structOpen
  result : opening.result =
    { opening.source with offset := cursor, tag := opening.source.tag.or headerTag }
  hoists_eq : hoists = (inside && isHeader rules opening.source.name && atOpening before.body)

/-- A structure closes with the name that it was opened with. -/
structure Ends (cursor : Option Nat) (opening closing : Placed) : Prop where
  role : closing.source.role = .structClose
  named : closing.source.name = opening.source.name
  result : closing.result = { closing.source with offset := cursor }

/-- An outline is laid out from one cursor to another. -/
inductive Follows (rules : Rules) (sizing : Sizing) :
    (inside : Bool) → Option Nat → Outline → Option Nat → Prop
  | nil {inside : Bool} {cursor : Option Nat} : Follows rules sizing inside cursor .nil cursor
  | mark {inside : Bool} {start cursor : Option Nat} {before : Outline} {source result : Entry}
      (follows : Follows rules sizing inside start before cursor)
      (marks : Marks cursor source result) :
      Follows rules sizing inside start (.mark before source result) cursor
  | byte {inside : Bool} {start cursor next : Option Nat} {before : Outline} {cell : Cell}
      (follows : Follows rules sizing inside start before cursor)
      (role : cell.source.role = .plain ∨ cell.source.role = .padding)
      (places : Places sizing cursor cell next) :
      Follows rules sizing inside start (.byte before cell) next
  | pack {inside : Bool} {start cursor next : Option Nat} {before : Outline} {packed : Packed}
      {group : BitGroup} (follows : Follows rules sizing inside start before cursor)
      (places : Places sizing cursor packed.toCell next) (contains : Contains rules packed group)
      (members_ne : packed.members ≠ [])
      (closing : packed.closing = groupClosing packed.result.name packed.lastLine next) :
      Follows rules sizing inside start (.pack before packed) next
  | block {inside hoists : Bool} {start cursor next : Option Nat} {before inner : Outline}
      {opening closing : Placed} (follows : Follows rules sizing inside start before cursor)
      (opens : Opens rules inside before cursor hoists opening inner.headerTag)
      (within : Follows rules sizing true cursor inner next) (ends : Ends next opening closing) :
      Follows rules sizing inside start (.block before hoists opening inner closing) next

variable {rules : Rules} {sizing : Sizing}

/-- Packing a member fills in where it is and what it holds, and only moves the group on. -/
theorem packMember_eq_ok {member result : Field} {group next : BitGroup}
    (h : packMember member group = .ok (result, next)) :
    result = { member with
      offset := group.offset, value := result.value, bitOffset := result.bitOffset } ∧
      next = { group with nextBit := next.nextBit } := by
  simp only [packMember] at h
  split at h
  · split at h
    · cases h
    · split at h
      · cases h
        exact ⟨rfl, rfl⟩
      · split at h
        · cases h
          exact ⟨rfl, rfl⟩
        · cases h
  · cases h
    exact ⟨rfl, rfl⟩

theorem Packs.name_eq {first group : BitGroup} {members : List Placed}
    (packs : Packs first members group) : group.name = first.name := by
  induction packs with
  | nil => rfl
  | member before role packed ih => rw [(packMember_eq_ok packed).2, ih]

theorem Contains.name_eq {rules : Rules} {packed : Packed} {group : BitGroup}
    (contains : Contains rules packed group) : group.name = packed.result.name := by
  obtain ⟨bytes, _, _, packs⟩ := contains.packs
  exact packs.name_eq

theorem Packs.role_eq {first group : BitGroup} {members : List Placed}
    (packs : Packs first members group) :
    ∀ member ∈ members, member.source.role = .bitField ∧ member.result.role = .bitField := by
  induction packs with
  | nil => simp
  | member _ role packed ih =>
    intro member hmember
    rcases List.mem_append.1 hmember with hmember | hmember
    · exact ih member hmember
    · rw [List.mem_singleton.1 hmember, (packMember_eq_ok packed).1]
      exact ⟨role, role⟩

theorem Seeks.eq_of_auto {field : Field} {cursor start : Option Nat} {padding : Option Field}
    (seeks : Seeks field cursor padding start) (auto : field.declaredOffset = .auto) :
    start = cursor := by
  cases seeks with
  | auto => rfl
  | jump fixed => cases auto.symm.trans fixed
  | here fixed => cases auto.symm.trans fixed
  | gap _ fixed => cases auto.symm.trans fixed

theorem Seeks.eq_of_fixed {field : Field} {cursor start : Option Nat} {padding : Option Field}
    {offset : Nat} (seeks : Seeks field cursor padding start)
    (fixed : field.declaredOffset = .fixed offset) : start = some offset := by
  cases seeks with
  | auto auto => cases auto.symm.trans fixed
  | jump there =>
    cases there.symm.trans fixed
    rfl
  | here there =>
    cases there.symm.trans fixed
    rfl
  | gap _ there =>
    cases there.symm.trans fixed
    rfl

theorem Places.kept {cursor next : Option Nat} {cell : Cell}
    (places : Places sizing cursor cell next) : cell.result = { cell.source with
      offset := cell.result.offset, length := cell.result.length } := by
  obtain ⟨start, bytes, -, -, -, result⟩ := places
  have there : cell.result.offset = start := congrArg Field.offset result
  rw [there]
  exact result

theorem Places.role_eq {cursor next : Option Nat} {cell : Cell}
    (places : Places sizing cursor cell next) : cell.result.role = cell.source.role := by
  rw [places.kept]

theorem Places.exists_paddingField {cursor next : Option Nat} {cell : Cell} {padding : Field}
    (places : Places sizing cursor cell next) (hpadding : cell.padding = some padding) :
    ∃ name offset gap line, padding = paddingField name offset gap line := by
  obtain ⟨start, bytes, seeks, -, -, -⟩ := places
  rw [hpadding] at seeks
  cases seeks with
  | gap name => exact ⟨name, _, _, _, rfl⟩

theorem Places.padding_role {cursor next : Option Nat} {cell : Cell} {padding : Field}
    (places : Places sizing cursor cell next) (hpadding : cell.padding = some padding) :
    padding.role = .padding := by
  obtain ⟨name, offset, gap, line, rfl⟩ := places.exists_paddingField hpadding
  rfl

theorem Places.isPlain_source {cursor next : Option Nat} {cell : Cell}
    (places : Places sizing cursor cell next) (plain : cell.result.isPlain = true) :
    cell.source.isPlain = true := by
  rw [places.kept] at plain
  exact plain

theorem Opens.result_role {inside hoists : Bool} {before : Outline} {cursor headerTag : Option Nat}
    {opening : Placed} (opens : Opens rules inside before cursor hoists opening headerTag) :
    opening.result.role = .structOpen := by
  rw [opens.result]
  exact opens.role

theorem Ends.result_role {cursor : Option Nat} {opening closing : Placed}
    (ends : Ends cursor opening closing) : closing.result.role = .structClose := by
  rw [ends.result]
  exact ends.role

theorem role_of_isPlain {field : Field} (plain : field.isPlain = true) : field.role = .plain := by
  simp only [Field.isPlain, Bool.and_eq_true, decide_eq_true_eq] at plain
  exact plain.1

/-- The marker of a container stands for the field that it was made of. -/
theorem Contains.marker_role {rules : Rules} {sizing : Sizing} {cursor next : Option Nat}
    {packed : Packed} {group : BitGroup} (contains : Contains rules packed group)
    (places : Places sizing cursor packed.toCell next) : packed.marker.role = .plain := by
  rw [contains.marker]
  exact places.role_eq.trans (role_of_isPlain contains.plain)

/-- What goes in front ends with a structure. -/
theorem Follows.getLast?_front {inside : Bool} {start cursor : Option Nat} {outline : Outline}
    (follows : Follows rules sizing inside start outline cursor) :
    outline.front = [] ∨
      ∃ field, outline.front.getLast? = some (.field field) ∧ field.role = .structClose := by
  induction follows with
  | nil => exact .inl rfl
  | mark _ _ ih => exact ih
  | byte _ _ _ ih => exact ih
  | pack _ _ _ _ _ ih => exact ih
  | @block _ hoists _ _ _ _ _ _ closing _ _ _ ends ih _ =>
    cases hoists with
    | false => simpa using ih
    | true =>
      right
      refine ⟨closing.result, ?_, ?_⟩
      · rw [Outline.front_block_true, ← List.append_assoc, List.getLast?_concat]
      · exact ends.result_role

/-- A byte field at the end of a structure was placed last. -/
theorem Follows.of_getLast?_body {inside : Bool} {start cursor : Option Nat} {outline : Outline}
    {container : Field} (follows : Follows rules sizing inside start outline cursor)
    (last : outline.body.getLast? = some (.field container)) (plain : container.isPlain = true) :
    ∃ before cell, outline = .byte before cell ∧ cell.result = container := by
  have role := role_of_isPlain plain
  cases follows with
  | nil => simp [Outline.body] at last
  | mark _ marks =>
    simp only [Outline.body, List.getLast?_concat, Option.some.injEq] at last
    cases marks with
    | action action =>
      cases last
      simp [action] at role
    | includeOpen => cases last
    | includeClose => cases last
  | byte _ _ _ =>
    refine ⟨_, _, rfl, ?_⟩
    simpa [Outline.body, Cell.entries] using last
  | pack _ _ _ _ closing =>
    simp only [Outline.body, Packed.entries, ← List.append_assoc, List.getLast?_concat,
      Option.some.injEq, Entry.field.injEq] at last
    rw [← last, closing] at role
    cases role
  | @block _ hoists _ _ _ before inner opening closing _ opens within ends =>
    have closed := ends.result_role
    cases hoists with
    | false =>
      rw [Outline.body_block_false, ← List.append_assoc, ← List.append_assoc,
        List.getLast?_concat] at last
      cases last
      simp [closed] at role
    | true =>
      -- Before a structure that goes to the front there is only padding.
      have opening := opens.hoists_eq.symm
      simp only [Bool.and_eq_true] at opening
      rw [Outline.body_block_true] at last
      rcases within.getLast?_front with empty | ⟨field, hfield, hrole⟩
      · rw [empty, List.append_nil] at last
        have opening := opening.2
        unfold atOpening at opening
        split at opening
        · next none => simp [none] at last
        · next one =>
          simp only [one, List.getLast?_singleton] at last
          cases last
          simp [role] at opening
        · cases opening
      · simp only [List.getLast?_append, hfield, Option.some_or] at last
        cases last
        simp [hrole] at role

/-- Outside of structures nothing goes to the front. -/
theorem Follows.front_eq_nil {start cursor : Option Nat} {outline : Outline}
    (follows : Follows rules sizing false start outline cursor) : outline.front = [] := by
  generalize inside : false = outside at follows
  induction follows with
  | nil => rfl
  | mark _ _ ih => exact ih inside
  | byte _ _ _ ih => exact ih inside
  | pack _ _ _ _ _ ih => exact ih inside
  | @block _ hoists _ _ _ _ _ _ _ _ opens _ _ ih _ =>
    subst inside
    have stays : hoists = false := by simpa using opens.hoists_eq
    rw [stays, Outline.front_block_false]
    exact ih rfl

end BoardSchema.Layout
