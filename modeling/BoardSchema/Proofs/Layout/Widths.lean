import BoardSchema.Proofs.Layout.BitGroups
import BoardSchema.Proofs.Layout.Tiling
/-!
What a strict layout resolves. Every byte field gets a length that is a number. The width of a bit
member is taken as it is declared: from the first member of a container on whose width is no number,
members have no place in it and nothing checks them against its end.
-/
namespace BoardSchema.Layout

/-- Every length is a number, and every bit member has a place in a container that is large enough
for all of its members. -/
structure Resolved (entries : List Entry) : Prop where
  bytes : ∀ field ∈ byteFields entries, ∃ n, field.length = .fixed n
  widths : ∀ member ∈ bitMembers entries, ∃ width, member.length = .fixed width
  placed : ∀ member ∈ bitMembers entries, ∃ start, member.bitOffset = some start
  fits : ∀ opening marker members, GroupIn entries opening marker members →
    ∃ bytes, opening.length = .fixed bytes ∧
      (members.map fun member => member.length.fixed?.getD 0).sum ≤ 8 * bytes

/-- Members that take the bits of a container up to the first one whose width is no number. That
one and those behind it stay as they were declared, at the offset of the container. -/
structure LeadingPartition (declared : List Entry) (container : Field) (bytes : Nat)
    (leading rest : List Field) (widths : List Nat) : Prop where
  known : leading.map (·.length) = widths.map .fixed
  partition : Partition container bytes leading widths
  stop : ∀ member ∈ rest.head?, ∃ text, member.length = .symbolic text
  kept : ∀ member ∈ rest, ∃ source, .field source ∈ declared ∧
    member = { source with offset := container.offset }

variable {rules : Rules} {container member result : Field} {bytes : Nat} {group next : BitGroup}
  {members : List Placed}

/-- Where no bit is known, or no width, a member only gets the offset of its container. -/
theorem packMember_eq_ok_of_open (h : packMember member group = .ok (result, next))
    (unknown : group.nextBit = none ∨ ∃ text, member.length = .symbolic text) :
    result = { member with offset := group.offset } ∧ next.nextBit = none := by
  simp only [packMember] at h
  split at h
  · next start width free length =>
    rcases unknown with unknown | ⟨text, symbolic⟩
    · simp [unknown] at free
    · simp [symbolic] at length
  · cases h
    exact ⟨rfl, rfl⟩

/-- Members up to the first open width partition the bits that they take. -/
theorem Packs.exists_leading (packs : Packs (.ofContainer container bytes) members group)
    (fits : bytes ≤ maxContainer) : ∃ leading rest : List Placed, ∃ widths : List Nat,
      members = leading ++ rest ∧ leading.map (·.result.length) = widths.map .fixed ∧
      Partition container bytes (leading.map (·.result)) widths ∧
      (∀ member ∈ rest.head?, ∃ text, member.result.length = .symbolic text) ∧
      (∀ member ∈ rest, member.result = { member.source with offset := container.offset }) ∧
      (rest ≠ [] → group.nextBit = none) := by
  induction packs with
  | nil => exact ⟨[], [], [], rfl, rfl, .nil container bytes, by simp, by simp, by simp⟩
  | @member group next members last before role packed ih =>
    obtain ⟨leading, rest, widths, rfl, known, partition, stop, kept, unknown⟩ := ih
    have offset : group.offset = container.offset := by rw [before.group_eq]; rfl
    have length : last.result.length = last.source.length := by rw [(packMember_eq_ok packed).1]
    have stays (h : group.nextBit = none ∨ ∃ text, last.source.length = .symbolic text) :
        last.result = { last.source with offset := container.offset } ∧ next.nextBit = none := by
      rw [← offset]
      exact packMember_eq_ok_of_open packed h
    cases rest with
    | nil =>
      rw [List.append_nil] at before ⊢
      cases length_eq : last.result.length with
      | fixed width =>
        have fixed : (leading ++ [last]).map (·.result.length) =
            (widths ++ [width]).map .fixed := by simp [known, length_eq]
        have grown := ((before.member role packed).partition fits fixed).2
        exact ⟨leading ++ [last], [], widths ++ [width], by simp, fixed, grown, by simp, by simp,
          by simp⟩
      | symbolic text =>
        obtain ⟨same, open_end⟩ := stays (.inr ⟨text, length ▸ length_eq⟩)
        exact ⟨leading, [last], widths, rfl, known, partition, by simp [length_eq],
          by simpa using same, fun _ => open_end⟩
    | cons first rest =>
      obtain ⟨same, open_end⟩ := stays (.inl (unknown (by simp)))
      refine ⟨leading, first :: rest ++ [last], widths, by simp, known, partition, stop, ?_,
        fun _ => open_end⟩
      intro member hmember
      rcases List.mem_append.1 hmember with hmember | hmember
      · exact kept member hmember
      · rw [List.mem_singleton.1 hmember]
        exact same

/-- A partition does not depend on the name of its container. -/
theorem Partition.marker {members : List Field} {widths : List Nat}
    (partition : Partition container bytes members widths) :
    Partition (containerMarker rules container) bytes members widths :=
  ⟨partition.sum_le, partition.offset_eq, partition.bitOffset_eq, partition.value_eq,
    partition.written⟩

theorem mem_bitMembers {entries : List Entry} :
    member ∈ bitMembers entries ↔ .field member ∈ entries ∧ member.role = .bitField := by
  simp only [bitMembers, List.mem_filterMap]
  constructor
  · rintro ⟨entry, hentry, found⟩
    unfold Entry.bitMember? at found
    split at found
    · split at found
      · next role =>
        cases found
        exact ⟨hentry, role⟩
      · cases found
    · cases found
  · rintro ⟨hmember, role⟩
    exact ⟨_, hmember, by simp [Entry.bitMember?, role]⟩

theorem GroupIn.mem {entries : List Entry} {opening marker : Field} {members : List Field}
    (held : GroupIn entries opening marker members) (hmember : member ∈ members) :
    .field member ∈ entries := by
  obtain ⟨before, closing, after, split, -⟩ := held.exists_split
  simp [split, hmember]

/-- In each container of a layout the members up to the first open width partition its bits. -/
theorem GroupIn.exists_leading {declared entries : List Entry} {opening marker : Field}
    {members : List Field} (held : GroupIn entries opening marker members)
    (contained : Contained rules declared entries) : ∃ bytes ≤ 8, ∃ leading rest widths,
      opening.length = .fixed bytes ∧ members = leading ++ rest ∧
        LeadingPartition declared marker bytes leading rest widths := by
  obtain ⟨packed, sub, ⟨group, contains⟩, rfl, rfl, rfl⟩ := held.exists_declared contained
  obtain ⟨bytes, fits, length, packs⟩ := contains.packs
  obtain ⟨leading, rest, widths, split, known, partition, stop, kept, -⟩ :=
    packs.exists_leading fits
  refine ⟨bytes, fits, leading.map (·.result), rest.map (·.result), widths, ?_, ?_, ?_⟩
  · rw [contains.opening]
    exact length
  · rw [split, List.map_append]
  · exact {
      known := by simpa [Function.comp_def] using known
      partition := by
        rw [contains.marker]
        exact partition.marker
      stop := by
        rw [List.head?_map]
        simpa using stop
      kept := by
        intro member hmember
        obtain ⟨placed, hplaced, rfl⟩ := List.mem_map.1 hmember
        refine ⟨placed.source, sub.subset (List.mem_cons_of_mem _ ?_), ?_⟩
        · exact List.mem_map.2 ⟨placed, by simp [split, hplaced], rfl⟩
        · rw [contains.marker]
          exact kept placed hplaced }

/-- Once all widths are numbers, nothing is left over. -/
theorem LeadingPartition.rest_eq_nil {declared : List Entry} {leading rest : List Field}
    {widths : List Nat} (leads : LeadingPartition declared container bytes leading rest widths)
    (fixed : ∀ member ∈ rest, ∃ width, member.length = .fixed width) : rest = [] := by
  cases rest with
  | nil => rfl
  | cons first rest =>
    obtain ⟨text, symbolic⟩ := leads.stop first rfl
    obtain ⟨width, length⟩ := fixed first (by simp)
    cases symbolic.symm.trans length

/-- A container whose members all have a width that is a number holds them next to each other. -/
theorem GroupIn.exists_partition {declared entries : List Entry} {opening marker : Field}
    {members : List Field} (held : GroupIn entries opening marker members)
    (contained : Contained rules declared entries)
    (fixed : ∀ member ∈ members, ∃ width, member.length = .fixed width) : ∃ bytes widths,
      opening.length = .fixed bytes ∧ members.map (·.length) = widths.map .fixed ∧
        Partition marker bytes members widths := by
  obtain ⟨bytes, -, leading, rest, widths, length, rfl, leads⟩ := held.exists_leading contained
  obtain rfl := leads.rest_eq_nil fun member hmember => fixed member (by simp [hmember])
  rw [List.append_nil]
  exact ⟨bytes, widths, length, leads.known, leads.partition⟩

/-- Only the lengths have to be known. -/
theorem Contained.resolved {declared entries : List Entry}
    (contained : Contained rules declared entries)
    (bytes : ∀ field ∈ byteFields entries, ∃ n, field.length = .fixed n)
    (widths : ∀ member ∈ bitMembers entries, ∃ width, member.length = .fixed width) :
    Resolved entries := by
  have whole {opening marker : Field} {members : List Field}
      (held : GroupIn entries opening marker members) := held.exists_partition contained
        fun member hmember => widths member
          (mem_bitMembers.2 ⟨held.mem hmember, held.members_role member hmember⟩)
  exact {
    bytes
    widths
    placed := by
      intro member hmember
      obtain ⟨mem, role⟩ := mem_bitMembers.1 hmember
      obtain ⟨opening, marker, members, held, hheld⟩ := contained.exists_groupIn mem role
      obtain ⟨_, widths, -, -, partition⟩ := whole held
      obtain ⟨k, here⟩ := List.mem_iff_getElem?.1 hheld
      exact ⟨_, partition.bitOffset_eq k member here⟩
    fits := by
      intro opening marker members held
      obtain ⟨bytes, widths, length, known, partition⟩ := whole held
      refine ⟨bytes, length, ?_⟩
      have sum : (members.map fun member => member.length.fixed?.getD 0) = widths := by
        have lengths := congrArg (List.map fun length : Length => length.fixed?.getD 0) known
        simpa [Function.comp_def, Length.fixed?] using lengths
      rw [sum]
      exact partition.sum_le }

/-- A layout keeps the widths that bit members were declared with. -/
theorem Follows.widths_iff {sizing : Sizing} {start cursor : Option Nat} {outline : Outline}
    (follows : Follows rules sizing false start outline cursor) :
    (∀ member ∈ bitMembers outline.body, ∃ width, member.length = .fixed width) ↔
      ∀ member ∈ bitMembers outline.source, ∃ width, member.length = .fixed width := by
  obtain ⟨members, declared, stream, kept⟩ := follows.exists_members
  have put_out : (bitMembers outline.body).Perm (members.map (·.result)) := by
    have perm := outline.front_append_body_perm.filterMap Entry.bitMember?
    rwa [follows.front_eq_nil, List.nil_append, ← bitMembers, ← bitMembers, stream] at perm
  have length_eq : ∀ member ∈ members, member.result.length = member.source.length := by
    intro member hmember
    rw [kept member hmember]
  simp only [put_out.mem_iff, declared, List.forall_mem_map]
  refine forall₂_congr fun member hmember => ?_
  rw [length_eq member hmember]

/-- The lengths of a strict layout. All byte fields have one that is a number, and the bits of each
container are taken up to the first open width. Everything is resolved just if every bit member was
declared with a number. -/
theorem ofEntries_resolved_iff {size : ExpandCall → Nat → Logged Nat} {names pool : NamePool}
    {entries : List Entry} {layout : Layout}
    (h : (ofEntries rules (.strict size) names entries).outcome = .ok (layout, pool)) :
    (∀ field ∈ byteFields layout.entries, ∃ n, field.length = .fixed n) ∧
    (∀ opening marker members, GroupIn layout.entries opening marker members →
      ∃ bytes ≤ 8, ∃ leading rest widths, opening.length = .fixed bytes ∧
        members = leading ++ rest ∧
          LeadingPartition entries marker bytes leading rest widths) ∧
    (Resolved layout.entries ↔
      ∀ member ∈ bitMembers entries, ∃ width, member.length = .fixed width) := by
  obtain ⟨cells, -, perm, chain⟩ := exists_chain h
  obtain ⟨stop, -, -, contiguous, -⟩ := chain.strict (by decide)
  have bytes : ∀ field ∈ byteFields layout.entries, ∃ n, field.length = .fixed n := by
    intro field hfield
    obtain ⟨_, n, -, length, -⟩ := contiguous.bounds field (perm.mem_iff.2 hfield)
    exact ⟨n, length⟩
  obtain ⟨outline, rfl, body, follows⟩ := exists_outline h
  have contained := follows.contained.2
  have widths_iff := follows.widths_iff
  rw [body] at contained widths_iff
  refine ⟨bytes, fun opening marker members held => held.exists_leading contained, ?_⟩
  rw [← widths_iff]
  exact ⟨Resolved.widths, contained.resolved bytes⟩

/-- A byte with a member whose width is no number, and a wide one behind it. -/
def openWidth : List Entry :=
  [.field { name := "Flags", role := .plain, line := 1, length := .fixed 1 },
    .field { name := "A", role := .bitField, line := 2, length := .symbolic "x" },
    .field { name := "B", role := .bitField, line := 3, length := .fixed 100 }]

theorem openWidth_resolved_iff : ∃ layout pool,
    (ofEntries {} (.strict fun _ _ => pure 0) ⟨"Pad", [], 0⟩ openWidth).outcome =
      .ok (layout, pool) ∧
    (∀ field ∈ byteFields layout.entries, ∃ n, field.length = .fixed n) ∧
    (∀ opening marker members, GroupIn layout.entries opening marker members →
      ∃ bytes ≤ 8, ∃ leading rest widths, opening.length = .fixed bytes ∧
        members = leading ++ rest ∧
          LeadingPartition openWidth marker bytes leading rest widths) ∧
    (Resolved layout.entries ↔
      ∀ member ∈ bitMembers openWidth, ∃ width, member.length = .fixed width) := by
  have size : (ofEntries {} (.strict fun _ _ => pure 0) ⟨"Pad", [], 0⟩
      openWidth).outcome.toOption.map (·.1.size) = some (some 1) := by decide +kernel
  obtain ⟨⟨layout, pool⟩, h, -⟩ := exists_eq_ok size
  exact ⟨layout, pool, h, ofEntries_resolved_iff h⟩

/-- A strict layout lets an open width pass, and a member of a hundred bits in a byte behind it. -/
theorem openWidth_not_resolved : ∃ layout pool opening marker first second,
    (ofEntries {} (.strict fun _ _ => pure 0) ⟨"Pad", [], 0⟩ openWidth).outcome =
      .ok (layout, pool) ∧
    GroupIn layout.entries opening marker [first, second] ∧ opening.length = .fixed 1 ∧
    first.length = .symbolic "x" ∧ first.bitOffset = none ∧ second.length = .fixed 100 ∧
    second.bitOffset = none ∧ ¬Resolved layout.entries := by
  let opening : Field := { name := "Flags", role := .structOpen, line := 1, offset := some 0
                           length := .fixed 1 }
  let marker : Field := { name := "$STRUCT", role := .plain, line := 1, offset := some 0
                          length := .fixed 1 }
  let first : Field := { name := "A", role := .bitField, line := 2, offset := some 0
                         length := .symbolic "x" }
  let second : Field := { name := "B", role := .bitField, line := 3, offset := some 0
                          length := .fixed 100 }
  let closing : Field := { name := "Flags", role := .structClose, line := 3, offset := some 1 }
  have laid : (ofEntries {} (.strict fun _ _ => pure 0) ⟨"Pad", [], 0⟩
      openWidth).outcome.toOption.map (·.1.entries) =
        some ([opening, marker, first, second, closing].map .field) := by decide +kernel
  obtain ⟨⟨layout, pool⟩, h, entries⟩ := exists_eq_ok laid
  have held : GroupIn layout.entries opening marker [first, second] := {
    exists_split := ⟨[], closing, [], entries, rfl⟩
    opens := rfl
    marker_role := rfl
    members_ne := by simp
    members_role := by simp [first, second] }
  refine ⟨layout, pool, opening, marker, first, second, h, held, rfl, rfl, rfl, rfl, rfl, ?_⟩
  intro resolved
  obtain ⟨width, length⟩ := resolved.widths first (mem_bitMembers.2 ⟨held.mem (by simp), rfl⟩)
  cases length

end BoardSchema.Layout
