import BoardSchema.Proofs.Layout.Hoisting
import Mathlib.Data.List.Forall2
/-!
A layout loses nothing and makes nothing up. What it put in can be told by its neighbours and taken
out again; what is left are the declared entries, filled in.
-/
namespace BoardSchema

def Entry.isMember : Entry → Bool
  | .field f => f.role = .bitField
  | _ => false

namespace Layout

/-- A container keeps its attributes in a marker right before its members. -/
def isMarker (rules : Rules) (field : Field) (after : List Entry) : Bool :=
  field.role = .plain && field.name = rules.bitGroupTag && after.head?.any Entry.isMember

def atMarker (rules : Rules) : List Entry → Bool
  | .field field :: after => isMarker rules field after
  | _ => false

/-- What an entry was declared as, if it was, next to the entry before it and those behind it. Padding
and the brackets of a container were not declared; a marker was declared under the name of its
container. -/
def restored (rules : Rules) (before : Option Entry) (entry : Entry) (after : List Entry) :
    Option Entry :=
  match entry with
  | .field field =>
    match field.role, before with
    | .padding, _ => none
    | .structOpen, _ => if atMarker rules after then none else some entry
    | .structClose, _ => if before.any Entry.isMember then none else some entry
    | .plain, some (.field opening) =>
      if opening.role = .structOpen ∧ isMarker rules field after then
        some (.field { field with name := opening.name })
      else some entry
    | _, _ => some entry
  | _ => some entry

def restoreFrom (rules : Rules) (before : Option Entry) : List Entry → List Entry
  | [] => []
  | entry :: rest =>
    (restored rules before entry rest).toList ++ restoreFrom rules (some entry) rest

/-- The declared entries, taken out of what was put out. -/
def restore (rules : Rules) (entries : List Entry) : List Entry := restoreFrom rules none entries

/-- A header structure stands in a structure, with no other structure around it. -/
def HeaderOf (rules : Rules) (declared : List Entry) (outer header : Field) : Prop :=
  ∃ beside, .field outer :: beside ++ [.field header] <:+: declared ∧ Balanced beside ∧
    header.role = .structOpen ∧ isHeader rules header.name = true

/-- A field with what a layout fills in: its offset, the length of an expansion, the place and the
value of a bit member, and the tag that a structure without one takes over from its header. -/
structure FilledField (rules : Rules) (declared : List Entry) (source result : Field) : Prop where
  kept : result = { source with
    offset := result.offset, length := result.length, value := result.value, tag := result.tag
    bitOffset := result.bitOffset }
  length_eq : source.role ≠ .plain ∨ source.expand = none → result.length = source.length
  member_eq : source.role ≠ .bitField →
    result.value = source.value ∧ result.bitOffset = source.bitOffset
  tag_eq : result.tag = source.tag ∨ source.role = .structOpen ∧ source.tag = none ∧
    ∃ header, HeaderOf rules declared source header ∧ result.tag = header.tag

/-- An entry next to what it was put out as. -/
inductive FilledIn (rules : Rules) (declared : List Entry) : Entry → Entry → Prop
  | field {source result : Field} (filled : FilledField rules declared source result) :
      FilledIn rules declared (.field source) (.field result)
  | includeOpen (path : String) : FilledIn rules declared (.includeOpen path) (.includeOpen path)
  | includeClose : FilledIn rules declared .includeClose .includeClose

variable {rules : Rules} {sizing : Sizing} {inside : Bool} {start cursor next : Option Nat}
  {outline : Outline}

/-! ## Taking out -/

section

variable {field : Field} {before : Option Entry} {after : List Entry}

theorem restored_of_padding (role : field.role = .padding) :
    restored rules before (.field field) after = none := by
  cases field
  cases role
  rfl

theorem restored_of_member (role : field.role = .bitField) :
    restored rules before (.field field) after = some (.field field) := by
  cases field
  cases role
  rfl

theorem restored_of_structOpen (role : field.role = .structOpen) :
    restored rules before (.field field) after =
      if atMarker rules after then none else some (.field field) := by
  cases field
  cases role
  rfl

theorem restored_of_structClose (role : field.role = .structClose) :
    restored rules before (.field field) after =
      if before.any Entry.isMember then none else some (.field field) := by
  cases field
  cases role
  rfl

theorem restored_of_plain {opening : Field} (role : field.role = .plain) :
    restored rules (some (.field opening)) (.field field) after =
      if opening.role = .structOpen ∧ isMarker rules field after then
        some (.field { field with name := opening.name })
      else some (.field field) := by
  cases field
  cases role
  rfl

end

/-- Entries that a container cannot be in the middle of. -/
def Fresh (rules : Rules) (rest : List Entry) : Prop :=
  rest.head?.any Entry.isMember = false ∧ atMarker rules rest = false

/-- Whatever comes before and behind, these entries were declared as those. -/
def Restores (rules : Rules) (entries declared : List Entry) : Prop :=
  ∀ before rest, before.any Entry.isMember = false → Fresh rules rest →
    Fresh rules (entries ++ rest) ∧ ∃ last : Option Entry, last.any Entry.isMember = false ∧
      restoreFrom rules before (entries ++ rest) = declared ++ restoreFrom rules last rest

namespace Restores

variable {left left' right right' : List Entry}

theorem nil : Restores rules [] [] :=
  fun before _ outside fresh => ⟨fresh, before, outside, rfl⟩

theorem append (h : Restores rules left left') (h' : Restores rules right right') :
    Restores rules (left ++ right) (left' ++ right') := by
  intro before rest outside fresh
  obtain ⟨fresh_right, -⟩ := h' none rest rfl fresh
  obtain ⟨fresh_left, middle, outside_middle, restored_left⟩ := h before _ outside fresh_right
  obtain ⟨-, last, outside_last, restored_right⟩ := h' middle rest outside_middle fresh
  refine ⟨by rwa [List.append_assoc], last, outside_last, ?_⟩
  rw [List.append_assoc, restored_left, restored_right, List.append_assoc]

/-- Outside of containers an entry stays what it is. -/
theorem entry {entry : Entry} (declared : ∀ field, entry = .field field →
    field.role ≠ .padding ∧ field.role ≠ .bitField) : Restores rules [entry] [entry] := by
  intro before rest outside fresh
  -- No member comes next, so there is no marker here.
  have no_marker : ∀ field, isMarker rules field rest = false := by
    intro field
    simp [isMarker, fresh.1]
  have no_member : entry.isMember = false := by
    cases entry with
    | field field => simp [Entry.isMember, (declared field rfl).2]
    | includeOpen path => rfl
    | includeClose => rfl
  have stays : restored rules before entry rest = some entry := by
    unfold restored
    split
    · next field =>
      split
      · next role => exact absurd role (declared _ rfl).1
      · rw [if_neg (by simp [fresh.2])]
      · rw [if_neg (by simp [outside])]
      · rw [if_neg (by simp [no_marker])]
      · rfl
    · rfl
  refine ⟨⟨by simpa using no_member, ?_⟩, some entry, no_member, ?_⟩
  · cases entry with
    | field field => exact no_marker field
    | includeOpen path => rfl
    | includeClose => rfl
  · simp [restoreFrom, stays]

theorem field {field : Field} (padding : field.role ≠ .padding) (member : field.role ≠ .bitField) :
    Restores rules [.field field] [.field field] :=
  .entry fun found heq => by
    cases heq
    exact ⟨padding, member⟩

theorem padding {field : Field} (role : field.role = .padding) :
    Restores rules [.field field] [] := by
  intro before rest _ _
  have head : Fresh rules (.field field :: rest) := by
    simp [Fresh, Entry.isMember, atMarker, isMarker, role]
  refine ⟨head, some (.field field), head.1, ?_⟩
  simp [restoreFrom, restored_of_padding role]

end Restores

/-- There is nothing around all entries. -/
theorem Restores.restore_eq {entries declared : List Entry}
    (h : Restores rules entries declared) : restore rules entries = declared := by
  obtain ⟨-, last, -, restored⟩ := h none [] rfl ⟨rfl, rfl⟩
  simpa [restore, restoreFrom] using restored

/-- Members were declared as such. -/
theorem restoreFrom_members (rules : Rules) {members : List Entry}
    (roles : ∀ member ∈ members, member.isMember) (ne_nil : members ≠ []) (before : Option Entry)
    (rest : List Entry) :
    ∃ last : Entry, last.isMember = true ∧ restoreFrom rules before (members ++ rest) =
      members ++ restoreFrom rules (some last) rest := by
  induction members generalizing before with
  | nil => exact absurd rfl ne_nil
  | cons member tail ih =>
    have here := roles member (by simp)
    have stays : ∀ after, restored rules before member after = some member := by
      intro after
      cases member with
      | field field =>
        have role : field.role = .bitField := by simpa [Entry.isMember] using here
        exact restored_of_member role
      | includeOpen path => cases here
      | includeClose => cases here
    rw [List.cons_append, restoreFrom, stays]
    -- Behind the last member the caller goes on.
    by_cases last : tail = []
    · exact ⟨member, here, by simp [last]⟩
    · obtain ⟨found, role, restored_tail⟩ :=
        ih (fun member hmember => roles member (by simp [hmember])) last (some member)
      exact ⟨found, role, by rw [restored_tail]; rfl⟩

/-- A container was declared as the field of its marker, under its own name. -/
theorem Restores.container {opening marker closing : Field} {members : List Entry}
    (opens : opening.role = .structOpen) (plain : marker.role = .plain)
    (named : marker.name = rules.bitGroupTag) (ne_nil : members ≠ [])
    (roles : ∀ member ∈ members, member.isMember) (closes : closing.role = .structClose) :
    Restores rules (.field opening :: .field marker :: members ++ [Entry.field closing])
      (.field { marker with name := opening.name } :: members) := by
  intro before rest _ _
  have is_marker : ∀ after, isMarker rules marker (members ++ after) = true := by
    obtain ⟨member, tail, rfl⟩ := List.exists_cons_of_ne_nil ne_nil
    intro after
    simp [isMarker, plain, named, roles member (by simp)]
  have opening_eq : ∀ after, restored rules before (.field opening)
      (.field marker :: (members ++ after)) = none := by
    intro after
    rw [restored_of_structOpen opens]
    exact if_pos (is_marker after)
  have marker_eq : ∀ after, restored rules (some (.field opening)) (.field marker)
      (members ++ after) = some (.field { marker with name := opening.name }) := by
    intro after
    rw [restored_of_plain plain]
    exact if_pos ⟨opens, is_marker after⟩
  obtain ⟨last, role, members_eq⟩ :=
    restoreFrom_members rules roles ne_nil (some (.field marker)) (.field closing :: rest)
  have closing_eq : restored rules (some last) (.field closing) rest = none := by
    rw [restored_of_structClose closes]
    exact if_pos role
  refine ⟨?_, some (.field closing), by simp [Entry.isMember, closes], ?_⟩
  · simp [Fresh, Entry.isMember, atMarker, isMarker, opens]
  · simp only [List.cons_append, List.append_assoc, restoreFrom, opening_eq, marker_eq, closing_eq,
      members_eq, List.nil_append, Option.toList_none, Option.toList_some]

/-! ## Outlines -/

theorem Places.restores_gap {cell : Cell} (places : Places sizing cursor cell next) :
    Restores rules cell.gap [] := by
  cases h : cell.padding with
  | none =>
    simp only [Cell.gap, h]
    exact .nil
  | some padding =>
    simp only [Cell.gap, h]
    exact .padding (places.padding_role h)

theorem Contains.restores {packed : Packed} {group : BitGroup}
    (contains : Contains rules packed group) (places : Places sizing cursor packed.toCell next)
    (members_ne : packed.members ≠ []) (closes : packed.closing.role = .structClose) :
    Restores rules packed.entries (packed.pairs.map Prod.snd) := by
  obtain ⟨bytes, -, -, packs⟩ := contains.packs
  have plain : packed.result.role = .plain := places.role_eq.trans (role_of_isPlain contains.plain)
  have roles : ∀ entry ∈ packed.members.map fun member => Entry.field member.result,
      entry.isMember := by
    intro entry hentry
    obtain ⟨member, hmember, rfl⟩ := List.mem_map.1 hentry
    simp [Entry.isMember, (packs.role_eq member hmember).2]
  have marker : packed.marker.role = .plain ∧ packed.marker.name = rules.bitGroupTag := by
    rw [contains.marker]
    exact ⟨plain, rfl⟩
  have opening : packed.opening.role = .structOpen := by rw [contains.opening]; rfl
  have container := Restores.container opening marker.1 marker.2 (by simpa using members_ne) roles
    closes
  have entries : packed.entries = packed.gap ++ (.field packed.opening :: .field packed.marker ::
      (packed.members.map fun member => .field member.result) ++ [Entry.field packed.closing]) := by
    simp [Packed.entries, Packed.start]
  have named : { packed.marker with name := packed.opening.name } = packed.result := by
    rw [contains.opening, contains.marker]
    rfl
  have declared : packed.pairs.map Prod.snd =
      [] ++ .field packed.result :: packed.members.map fun member => .field member.result := by
    simp [Packed.pairs, Placed.pair]
  rw [named] at container
  rw [entries, declared]
  exact places.restores_gap.append container

/-- What was put in can be taken out again. -/
theorem Follows.restores (follows : Follows rules sizing inside start outline cursor)
    (unpadded : Unpadded outline.source) :
    Restores rules outline.front (outline.frontPairs.map Prod.snd) ∧
      Restores rules outline.body (outline.bodyPairs.map Prod.snd) := by
  induction follows with
  | nil => exact ⟨.nil, .nil⟩
  | mark _ marks ih =>
    obtain ⟨front, body⟩ := ih (unpadded.of_infix (Outline.source_mark_infix ..))
    refine ⟨front, ?_⟩
    rw [Outline.body, Outline.bodyPairs, List.map_append]
    refine body.append (.entry fun field heq => ?_)
    cases marks with
    | action role =>
      cases heq
      simp [role]
    | includeOpen => cases heq
    | includeClose => cases heq
  | @byte _ _ _ _ before cell _ role places ih =>
    obtain ⟨front, body⟩ := ih (unpadded.of_infix (Outline.source_byte_infix ..))
    refine ⟨front, ?_⟩
    have not_padding := unpadded cell.source (by simp [Outline.source])
    have plain : cell.result.role = .plain := by
      rw [places.role_eq]
      exact role.resolve_right not_padding
    rw [Outline.body, Cell.entries, Outline.bodyPairs, List.map_append]
    exact body.append (places.restores_gap.append (.field (by simp [plain]) (by simp [plain])))
  | pack _ places contains members_ne closing ih =>
    obtain ⟨front, body⟩ := ih (unpadded.of_infix (Outline.source_pack_infix ..))
    refine ⟨front, ?_⟩
    rw [Outline.body, Outline.bodyPairs, List.map_append]
    exact body.append (contains.restores places members_ne (by rw [closing]; rfl))
  | @block _ hoists _ _ _ before inner opening closing _ opens _ ends ihBefore ihInner =>
    obtain ⟨front, body⟩ := ihBefore (unpadded.of_infix (Outline.source_block_infix ..))
    obtain ⟨inner_front, inner_body⟩ :=
      ihInner (unpadded.of_infix (Outline.source_inner_infix ..))
    have block : Restores rules
        (.field opening.result :: inner.body ++ [Entry.field closing.result])
        ((opening.pair :: inner.bodyPairs ++ [closing.pair]).map Prod.snd) := by
      have opened : Restores rules [.field opening.result] [.field opening.result] :=
        .field (by simp [opens.result_role]) (by simp [opens.result_role])
      have closed : Restores rules [.field closing.result] [.field closing.result] :=
        .field (by simp [ends.result_role]) (by simp [ends.result_role])
      simpa [Placed.pair] using (opened.append inner_body).append closed
    cases hoists with
    | true =>
      constructor
      · rw [Outline.front_block_true, Outline.frontPairs_block_true, List.map_append]
        exact front.append block
      · rw [Outline.body_block_true, Outline.bodyPairs_block_true, List.map_append]
        exact body.append inner_front
    | false =>
      constructor
      · rw [Outline.front_block_false, Outline.frontPairs_block_false]
        exact front
      · rw [Outline.body_block_false, Outline.bodyPairs_block_false, List.map_append,
          List.map_append]
        exact body.append (inner_front.append block)

/-! ## Filling in -/

namespace FilledField

variable {declared more : List Entry} {source result : Field}

theorem mono (filled : FilledField rules declared source result) (sub : declared <:+: more) :
    FilledField rules more source result := by
  obtain ⟨kept, length_eq, member_eq, tag_eq⟩ := filled
  refine ⟨kept, length_eq, member_eq, tag_eq.imp id ?_⟩
  rintro ⟨role, none, header, ⟨beside, here, balanced⟩, taken⟩
  exact ⟨role, none, header, ⟨beside, here.trans sub, balanced⟩, taken⟩

/-- A field that only its offset is filled in for. -/
theorem of_offset (h : result = { source with offset := result.offset }) :
    FilledField rules declared source result := by
  obtain ⟨offset, rfl⟩ : ∃ offset, result = { source with offset } := ⟨_, h⟩
  exact ⟨rfl, fun _ => rfl, fun _ => ⟨rfl, rfl⟩, .inl rfl⟩

end FilledField

theorem FilledIn.mono {declared more : List Entry} {source result : Entry}
    (filled : FilledIn rules declared source result) (sub : declared <:+: more) :
    FilledIn rules more source result := by
  cases filled with
  | field filled => exact .field (filled.mono sub)
  | includeOpen => exact .includeOpen _
  | includeClose => exact .includeClose

theorem Marks.filledIn {declared : List Entry} {source result : Entry}
    (marks : Marks cursor source result) : FilledIn rules declared source result := by
  cases marks with
  | action => exact .field (.of_offset rfl)
  | includeOpen => exact .includeOpen _
  | includeClose => exact .includeClose

/-- Only an expansion gets another length than it declares. -/
theorem extent_length_eq {field : Field} {length : Length} {bytes : Option Nat}
    (h : (extent sizing field).outcome = .ok (length, bytes)) (expand : field.expand = none) :
    length = field.length := by
  unfold extent at h
  split at h
  · next call => simp [expand] at call
  · split at h
    · next fixed =>
      cases h
      exact fixed.symm
    · cases h
  · cases h
    rfl
  · cases h
    rfl

theorem Places.filledField {declared : List Entry} {cell : Cell}
    (places : Places sizing cursor cell next) (plain : cell.source.role = .plain) :
    FilledField rules declared cell.source cell.result := by
  obtain ⟨start, bytes, -, extent, -, result⟩ := places
  have length := extent_length_eq extent
  obtain ⟨length', hlength⟩ : ∃ length, cell.result.length = length := ⟨_, rfl⟩
  rw [hlength] at result length
  rw [result]
  refine ⟨rfl, fun h => ?_, fun _ => ⟨rfl, rfl⟩, .inl rfl⟩
  exact length (h.resolve_left fun other => other plain)

theorem Placed.IsMember.filledField {declared : List Entry} {member : Placed}
    (isMember : member.IsMember) (role : member.source.role = .bitField) :
    FilledField rules declared member.source member.result := by
  rw [isMember]
  exact ⟨rfl, fun _ => rfl, fun other => absurd role other, .inl rfl⟩

/-- A header structure with that tag stands among the entries, in no other structure of theirs. -/
def HasHeader (rules : Rules) (tag : Option Nat) (entries : List Entry) : Prop :=
  ∃ before header after, entries = before ++ .field header :: after ∧ Balanced before ∧
    header.role = .structOpen ∧ isHeader rules header.name = true ∧ header.tag = tag

theorem HasHeader.append {tag : Option Nat} {entries : List Entry}
    (h : HasHeader rules tag entries) (more : List Entry) :
    HasHeader rules tag (entries ++ more) := by
  obtain ⟨before, header, after, rfl, rest⟩ := h
  exact ⟨before, header, after ++ more, by simp, rest⟩

/-- A tag is taken over from a header structure of the outline. -/
theorem Follows.hasHeader (follows : Follows rules sizing inside start outline cursor)
    (some_tag : outline.headerTag ≠ none) : HasHeader rules outline.headerTag outline.source := by
  induction follows with
  | nil => exact absurd rfl some_tag
  | mark _ _ ih => exact (ih some_tag).append _
  | byte _ _ _ ih => exact (ih some_tag).append _
  | pack _ _ _ _ _ ih => exact (ih some_tag).append _
  | @block _ hoists _ _ _ before inner opening closing follows opens _ _ ih _ =>
    rw [Outline.source, List.append_assoc]
    -- The tag is that of the first header which has one.
    cases earlier : before.headerTag with
    | some tag =>
      have taken : (Outline.block before hoists opening inner closing).headerTag =
          before.headerTag := by
        rw [Outline.headerTag, earlier]
        cases hoists <;> rfl
      rw [taken]
      exact (ih (by simp [earlier])).append _
    | none =>
      rw [Outline.headerTag, earlier] at some_tag ⊢
      cases hoists with
      | false => exact absurd rfl some_tag
      | true =>
        have moves := opens.hoists_eq.symm
        simp only [Bool.and_eq_true] at moves
        exact ⟨before.source, opening.source, _, rfl, follows.balanced.1, opens.role, moves.1.2, rfl⟩

/-- Entries that are all put out as they were declared, filled in. -/
def AllFilled (rules : Rules) (declared : List Entry) (pairs : List (Entry × Entry)) : Prop :=
  ∀ pair ∈ pairs, FilledIn rules declared pair.1 pair.2

namespace AllFilled

variable {declared more : List Entry} {left right : List (Entry × Entry)}

theorem append (h : AllFilled rules declared left) (h' : AllFilled rules declared right) :
    AllFilled rules declared (left ++ right) :=
  List.forall_mem_append.2 ⟨h, h'⟩

theorem mono (h : AllFilled rules declared left) (sub : declared <:+: more) :
    AllFilled rules more left :=
  fun pair hpair => (h pair hpair).mono sub

theorem one {source result : Entry} (h : FilledIn rules declared source result) :
    AllFilled rules declared [(source, result)] :=
  List.forall_mem_singleton.2 h

end AllFilled

theorem Contains.filled {declared : List Entry} {packed : Packed} {group : BitGroup}
    (contains : Contains rules packed group) (places : Places sizing cursor packed.toCell next) :
    AllFilled rules declared packed.pairs := by
  obtain ⟨bytes, -, -, packs⟩ := contains.packs
  intro pair hpair
  rcases List.mem_cons.1 hpair with rfl | hpair
  · exact .field (places.filledField (role_of_isPlain contains.plain))
  · obtain ⟨member, hmember, rfl⟩ := List.mem_map.1 hpair
    exact .field ((packs.isMember member hmember).filledField (packs.role_eq member hmember).1)

/-- A structure without a tag takes over that of a header in it. -/
theorem Follows.filledField {hoists : Bool} {before inner : Outline} {opening closing : Placed}
    (within : Follows rules sizing true cursor inner next)
    (opens : Opens rules inside before cursor hoists opening inner.headerTag) :
    FilledField rules (Outline.block before hoists opening inner closing).source opening.source
      opening.result := by
  rw [opens.result]
  refine ⟨rfl, fun _ => rfl, fun _ => ⟨rfl, rfl⟩, ?_⟩
  cases tag : opening.source.tag with
  | some found => exact .inl rfl
  | none =>
    by_cases taken : inner.headerTag = none
    · rw [taken]
      exact .inl rfl
    · obtain ⟨beside, header, after, source, balanced, role, named, header_tag⟩ :=
        within.hasHeader taken
      refine .inr ⟨opens.role, rfl, header, ⟨beside, ?_, balanced, role, named⟩, header_tag.symm⟩
      exact ⟨before.source, after ++ [Entry.field closing.source], by simp [Outline.source, source]⟩

/-- Every entry is put out as it was declared, filled in. -/
theorem Follows.filled (follows : Follows rules sizing inside start outline cursor)
    (unpadded : Unpadded outline.source) :
    AllFilled rules outline.source outline.frontPairs ∧
      AllFilled rules outline.source outline.bodyPairs := by
  induction follows with
  | nil => simp [AllFilled, Outline.frontPairs, Outline.bodyPairs]
  | @mark _ _ _ before source result _ marks ih =>
    have sub := before.source_mark_infix source result
    obtain ⟨front, body⟩ := ih (unpadded.of_infix sub)
    rw [Outline.frontPairs, Outline.bodyPairs]
    exact ⟨front.mono sub, (body.mono sub).append (.one marks.filledIn)⟩
  | @byte _ _ _ _ before cell _ role places ih =>
    have sub := before.source_byte_infix cell
    obtain ⟨front, body⟩ := ih (unpadded.of_infix sub)
    have plain := role.resolve_right (unpadded cell.source (by simp [Outline.source]))
    rw [Outline.frontPairs, Outline.bodyPairs]
    exact ⟨front.mono sub, (body.mono sub).append (.one (.field (places.filledField plain)))⟩
  | @pack _ _ _ _ before packed _ _ places contains _ _ ih =>
    have sub := before.source_pack_infix packed
    obtain ⟨front, body⟩ := ih (unpadded.of_infix sub)
    rw [Outline.frontPairs, Outline.bodyPairs]
    exact ⟨front.mono sub, (body.mono sub).append (contains.filled places)⟩
  | @block _ hoists _ _ _ before inner opening closing _ opens within ends ihBefore ihInner =>
    have sub := before.source_block_infix inner hoists opening closing
    have sub_inner := before.source_inner_infix inner hoists opening closing
    obtain ⟨front, body⟩ := ihBefore (unpadded.of_infix sub)
    obtain ⟨inner_front, inner_body⟩ := ihInner (unpadded.of_infix sub_inner)
    have closed : FilledField rules (Outline.block before hoists opening inner closing).source
        closing.source closing.result := .of_offset (by rw [ends.result])
    have block : AllFilled rules (Outline.block before hoists opening inner closing).source
        (opening.pair :: inner.bodyPairs ++ [closing.pair]) :=
      ((AllFilled.one (.field (within.filledField opens))).append (inner_body.mono sub_inner)).append
        (.one (.field closed))
    cases hoists with
    | true =>
      rw [Outline.frontPairs_block_true, Outline.bodyPairs_block_true]
      exact ⟨(front.mono sub).append block, (body.mono sub).append (inner_front.mono sub_inner)⟩
    | false =>
      rw [Outline.frontPairs_block_false, Outline.bodyPairs_block_false]
      exact ⟨front.mono sub, (body.mono sub).append ((inner_front.mono sub_inner).append block)⟩

/-- The declared entries can be taken out of what was put out. They are those of the stream, filled
in, in their order except that header structures were moved as a whole, each one in front of the
structure that it stood in, the inner ones first. -/
theorem ofEntries_restore {names pool : NamePool} {entries : List Entry} {layout : Layout}
    (unpadded : Unpadded entries)
    (h : (ofEntries rules sizing names entries).outcome = .ok (layout, pool)) :
    ∃ headers arranged, HeaderMoves rules headers entries arranged ∧
      headers.Subperm (structOpenings entries) ∧ arranged.Perm entries ∧
      List.Forall₂ (FilledIn rules entries) arranged (restore rules layout.entries) ∧
      (headers = [] → arranged = entries) ∧ (¬OpensWithHeader rules entries → headers = []) := by
  obtain ⟨outline, rfl, body, follows⟩ := exists_outline h
  have front_nil : outline.frontPairs = [] := Outline.frontPairs_eq_nil follows.front_eq_nil
  have moves : HeaderMoves rules outline.headers outline.source outline.bodySource := by
    simpa [Outline.frontSource, front_nil] using follows.headerMoves [] (by simp) [] []
  have restored_eq : restore rules layout.entries = outline.bodyPairs.map Prod.snd := by
    rw [← body]
    exact (follows.restores unpadded).2.restore_eq
  refine ⟨outline.headers, outline.bodySource, moves, follows.headers_subperm, moves.perm,
    ?_, ?_, ?_⟩
  · rw [restored_eq, Outline.bodySource, List.forall₂_map_left_iff, List.forall₂_map_right_iff,
      List.forall₂_same]
    exact (follows.filled unpadded).2
  · intro none
    rw [none] at moves
    exact moves.eq_of_nil
  · intro apart
    exact follows.headers_eq_nil [] (by simp) unpadded apart

/-- A header structure with a container in it, at the start of a structure that has no tag. A gap
follows. -/
def taggedHeader : List Entry :=
  [.field { name := "BOARD", role := .structOpen, line := 1 },
    .field { name := "CFGHDR_TMPL", role := .structOpen, line := 2, tag := some 7 },
    .field { name := "Flags", role := .plain, line := 3, length := .fixed 1 },
    .field { name := "Enable", role := .bitField, line := 4, length := .fixed 3 },
    .field { name := "CFGHDR_TMPL", role := .structClose, line := 5 },
    .field { name := "Rest", role := .plain, line := 6, declaredOffset := .fixed 8
             length := .fixed 2 },
    .field { name := "BOARD", role := .structClose, line := 7 }]

theorem taggedHeader_restore : Unpadded taggedHeader ∧ ∃ layout pool,
    (ofEntries {} .lenient ⟨"Pad", [], 0⟩ taggedHeader).outcome = .ok (layout, pool) ∧
    (restore {} layout.entries).filterMap (fun entry => entry.field?.map fun field =>
        (field.name, field.tag)) =
      [("CFGHDR_TMPL", some 7), ("Flags", none), ("Enable", none), ("CFGHDR_TMPL", none),
        ("BOARD", some 7), ("Rest", none), ("BOARD", none)] ∧
    ∃ headers arranged, HeaderMoves {} headers taggedHeader arranged ∧
      headers.Subperm (structOpenings taggedHeader) ∧ arranged.Perm taggedHeader ∧
      List.Forall₂ (FilledIn {} taggedHeader) arranged (restore {} layout.entries) ∧
      (headers = [] → arranged = taggedHeader) ∧
      (¬OpensWithHeader {} taggedHeader → headers = []) := by
  have unpadded : Unpadded taggedHeader := by simp [Unpadded, taggedHeader]
  have view : (ofEntries {} .lenient ⟨"Pad", [], 0⟩ taggedHeader).outcome.toOption.map
      (fun result => (restore {} result.1.entries).filterMap fun entry =>
        entry.field?.map fun field => (field.name, field.tag)) = some
      [("CFGHDR_TMPL", some 7), ("Flags", none), ("Enable", none), ("CFGHDR_TMPL", none),
        ("BOARD", some 7), ("Rest", none), ("BOARD", none)] := by
    decide +kernel
  obtain ⟨⟨layout, pool⟩, h, view⟩ := exists_eq_ok view
  exact ⟨unpadded, layout, pool, h, view, ofEntries_restore unpadded h⟩

end Layout
end BoardSchema
