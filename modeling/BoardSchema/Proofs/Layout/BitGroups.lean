import BoardSchema.Proofs.Bits.Window
import BoardSchema.Proofs.Layout.Nesting
import BoardSchema.Proofs.Numeral
import Mathlib.Algebra.BigOperators.Group.List.Basic
/-!
The members of a bit container partition its bits from the lowest one up. Each one holds its own bits
of the default of the container, so the members together hold what the default has below the end of
the last one.
-/
namespace BoardSchema

/-- The number that a field holds, if its value is one. -/
def Field.number? (field : Field) : Option Nat :=
  field.value.bind fun value => Numeral.parse value.toList

/-- Writes the number of a member at its bits. -/
def Field.writeBits (member : Field) (buffer : Bytes) : Option Bytes := do
  let start ← member.bitOffset
  let width ← member.length.fixed?
  let number ← member.number?
  (Bits.write buffer start width number).toOption

/-- Writes the numbers of members at their bits. -/
def writeMembers (members : List Field) (buffer : Bytes) : Option Bytes :=
  members.foldlM (fun buffer member => member.writeBits buffer) buffer

namespace Layout

/-- Members that take the bits of a container of so many bytes one after the other, each as many as
its width says. -/
structure Partition (container : Field) (bytes : Nat) (members : List Field)
    (widths : List Nat) : Prop where
  sum_le : widths.sum ≤ 8 * bytes
  offset_eq : ∀ member ∈ members, member.offset = container.offset
  bitOffset_eq : ∀ (k : Nat) (member : Field), members[k]? = some member →
    member.bitOffset = some (widths.take k).sum
  value_eq : ∀ number, container.number? = some number → ∀ (k : Nat) (member : Field) (width : Nat),
    members[k]? = some member → widths[k]? = some width →
      member.value = some (Numeral.hex 1 (number / 2 ^ (widths.take k).sum % 2 ^ width))
  written : ∀ number, container.number? = some number → ∃ image,
    writeMembers members (List.replicate bytes 0) = some image ∧ image.length = bytes ∧
      Bits.toNat image = number % 2 ^ widths.sum

/-! ## Packing members -/

variable {rules : Rules} {sizing : Sizing} {container member result : Field} {bytes : Nat}
  {first group next : BitGroup} {members : List Placed}

/-- Packing members only moves the next free bit. -/
theorem Packs.group_eq (packs : Packs first members group) :
    group = { first with nextBit := group.nextBit } := by
  induction packs with
  | nil => rfl
  | member _ _ packed ih =>
    have moved := (packMember_eq_ok packed).2
    rw [ih] at moved
    exact moved

theorem ofContainer_image (container : Field) (bytes : Nat) :
    (BitGroup.ofContainer container bytes).image =
      container.number?.map (Bits.littleEndian bytes) := rfl

/-- The image of a container has its bits. -/
theorem Packs.image_length (packs : Packs (.ofContainer container bytes) members group)
    {image : Bytes} (known : group.image = some image) : group.bits = image.length * 8 := by
  rw [packs.group_eq, ofContainer_image] at known
  obtain ⟨number, -, rfl⟩ := Option.map_eq_some_iff.1 known
  rw [packs.group_eq, Bits.length_littleEndian]
  rfl

/-- A member that ends inside its container can be read there. -/
theorem Packs.read_eq_ok (packs : Packs (.ofContainer container bytes) members group)
    (fits : bytes ≤ maxContainer) {image : Bytes} (known : group.image = some image)
    {start width : Nat} (inside : start + width ≤ group.bits) :
    Bits.read image start width = .ok (Bits.toNat image / 2 ^ start % 2 ^ width) := by
  have bits : group.bits = bytes * 8 := by rw [packs.group_eq]; rfl
  have length := packs.image_length known
  have small : bytes ≤ 8 := fits
  exact Bits.read_eq_ok (by omega) (by omega)

/-- What packing a member of known width at a known bit gives. -/
theorem packMember_eq_ok_of_known (h : packMember member group = .ok (result, next)) {start width : Nat}
    (free : group.nextBit = some start) (fixed : result.length = .fixed width) :
    start + width ≤ group.bits ∧ next.nextBit = some (start + width) ∧
      result.bitOffset = some start ∧ ∀ image, group.image = some image → ∃ number,
        Bits.read image start width = .ok number ∧
          result.value = some (Numeral.hex 1 number) := by
  have length : member.length = .fixed width := by
    rw [← fixed, (packMember_eq_ok h).1]
  simp only [packMember, free, length] at h
  split at h
  · cases h
  · next inside =>
    split at h
    · next none =>
      cases h
      exact ⟨Nat.le_of_not_lt inside, rfl, rfl, by simp [none]⟩
    · next image known =>
      split at h
      · next number read =>
        cases h
        refine ⟨Nat.le_of_not_lt inside, rfl, rfl, fun image' known' => ?_⟩
        cases known.symm.trans known'
        exact ⟨number, read, rfl⟩
      · cases h

theorem toNat_replicate_zero (count : Nat) : Bits.toNat (List.replicate count 0) = 0 := by
  induction count with
  | zero => rfl
  | succ count ih => simp [List.replicate_succ, Bits.toNat, ih]

/-- Bits below the end of a container do not depend on what its default has above it. -/
theorem littleEndian_window (number : Nat) {start width : Nat} (inside : start + width ≤ 8 * bytes) :
    Bits.toNat (Bits.littleEndian bytes number) / 2 ^ start % 2 ^ width =
      number / 2 ^ start % 2 ^ width := by
  obtain ⟨rest, total⟩ := Nat.exists_eq_add_of_le inside
  have split : 2 ^ (8 * bytes) = 2 ^ start * 2 ^ (width + rest) := by
    rw [total, Nat.add_assoc, Nat.pow_add]
  have divides : 2 ^ width ∣ 2 ^ (width + rest) := Nat.pow_dvd_pow 2 (Nat.le_add_right _ _)
  rw [Bits.toNat_littleEndian, Nat.one_shiftLeft, split, Nat.mod_mul_right_div_self,
    Nat.mod_mod_of_dvd _ divides]

/-- The next member goes behind those that were written before it. -/
theorem writeBits_eq_some {image : Bytes} {number start width : Nat}
    (bitOffset : member.bitOffset = some start) (length : member.length = .fixed width)
    (value : member.value = some (Numeral.hex 1 (number / 2 ^ start % 2 ^ width)))
    (small : number < Numeral.wordBound) (narrow : width ≤ 64)
    (inside : start + width ≤ image.length * 8) (written : Bits.toNat image = number % 2 ^ start) :
    ∃ next, member.writeBits image = some next ∧ next.length = image.length ∧
      Bits.toNat next = number % 2 ^ (start + width) := by
  have below : number / 2 ^ start % 2 ^ width < Numeral.wordBound := by
    have shifted := Nat.div_le_self number (2 ^ start)
    have cut := Nat.mod_le (number / 2 ^ start) (2 ^ width)
    omega
  have held : member.number? = some (number / 2 ^ start % 2 ^ width) := by
    simp [Field.number?, value, Numeral.parse_hex below]
  refine ⟨Bits.setWindow image start (number / 2 ^ start % 2 ^ width) width, ?_, ?_, ?_⟩
  · have window := Bits.checkWindow_eq_ok_iff.2 ⟨narrow, inside⟩
    simp [Field.writeBits, bitOffset, length, Length.fixed?, held, Bits.write, window]
    rfl
  · exact Bits.length_setWindow _ _ _ _
  · exact Bits.toNat_setWindow_behind number inside written

theorem writeMembers_concat (members : List Field) (last : Field) (buffer : Bytes) :
    writeMembers (members ++ [last]) buffer =
      (writeMembers members buffer).bind last.writeBits := by
  rw [writeMembers, List.foldlM_append]
  simp [writeMembers]

theorem Partition.nil (container : Field) (bytes : Nat) : Partition container bytes [] [] where
  sum_le := Nat.zero_le _
  offset_eq := by simp
  bitOffset_eq := by simp
  value_eq := by simp
  written number _ :=
    ⟨List.replicate bytes 0, rfl, List.length_replicate, by simp [toNat_replicate_zero, Nat.mod_one]⟩

theorem getElem?_concat_eq_some {α : Type} {list : List α} {last a : α} {k : Nat}
    (h : (list ++ [last])[k]? = some a) :
    list[k]? = some a ∨ k = list.length ∧ last = a := by
  rw [List.getElem?_append] at h
  split at h
  · exact .inl h
  · next behind =>
    obtain ⟨inside, rfl⟩ := List.getElem?_eq_some_iff.1 h
    rw [List.length_singleton] at inside
    exact .inr ⟨by omega, by simp⟩

/-- A member that takes the next bits joins the partition. -/
theorem Partition.concat {members : List Field} {widths : List Nat} {width : Nat}
    (partition : Partition container bytes members widths) (fits : bytes ≤ maxContainer)
    (same : members.length = widths.length) (inside : widths.sum + width ≤ 8 * bytes)
    (offset : member.offset = container.offset) (bitOffset : member.bitOffset = some widths.sum)
    (length : member.length = .fixed width)
    (value : ∀ number, container.number? = some number →
      member.value = some (Numeral.hex 1 (number / 2 ^ widths.sum % 2 ^ width))) :
    Partition container bytes (members ++ [member]) (widths ++ [width]) where
  sum_le := by simpa using inside
  offset_eq := by
    intro other hother
    rcases List.mem_append.1 hother with hother | hother
    · exact partition.offset_eq other hother
    · rw [List.mem_singleton.1 hother, offset]
  bitOffset_eq := by
    intro k other hother
    rcases getElem?_concat_eq_some hother with there | ⟨rfl, rfl⟩
    · have le : k ≤ widths.length := same ▸ Nat.le_of_lt (List.getElem?_eq_some_iff.1 there).1
      rw [List.take_append_of_le_length le]
      exact partition.bitOffset_eq k other there
    · rw [same, List.take_left' rfl, bitOffset]
  value_eq := by
    intro number known k other otherWidth hother hwidth
    rcases getElem?_concat_eq_some hother with there | ⟨rfl, rfl⟩
    · have lt : k < widths.length := same ▸ (List.getElem?_eq_some_iff.1 there).1
      rw [List.getElem?_append_left lt] at hwidth
      rw [List.take_append_of_le_length (Nat.le_of_lt lt)]
      exact partition.value_eq number known k other otherWidth there hwidth
    · rw [same, List.getElem?_concat_length] at hwidth
      cases hwidth
      rw [same, List.take_left' rfl, value number known]
  written := by
    intro number known
    obtain ⟨image, before, image_length, low⟩ := partition.written number known
    have small : number < Numeral.wordBound := by
      obtain ⟨text, -, parsed⟩ := Option.bind_eq_some_iff.1 known
      exact Numeral.parse_lt parsed
    have narrow : width ≤ 64 := by
      have eight : bytes ≤ 8 := fits
      omega
    obtain ⟨next, last, next_length, high⟩ := writeBits_eq_some bitOffset length
      (value number known) small narrow (by rw [image_length]; omega) low
    refine ⟨next, ?_, next_length.trans image_length, by simpa using high⟩
    rw [writeMembers_concat, before]
    exact last

/-- Members of known widths partition the bits of their container. -/
theorem Packs.partition (packs : Packs (.ofContainer container bytes) members group)
    (fits : bytes ≤ maxContainer) {widths : List Nat}
    (fixed : members.map (·.result.length) = widths.map .fixed) :
    group.nextBit = some widths.sum ∧
      Partition container bytes (members.map (·.result)) widths := by
  induction packs generalizing widths with
  | nil =>
    obtain rfl : widths = [] := by simpa using fixed.symm
    exact ⟨rfl, .nil container bytes⟩
  | @member group next members _ before role packed ih =>
    rw [List.map_append] at fixed
    obtain ⟨widths, last, rfl, earlier, last_fixed⟩ := List.append_eq_map_iff.1 fixed
    obtain ⟨width, rfl, length⟩ := List.map_eq_singleton_iff.1 last_fixed
    obtain ⟨free, partition⟩ := ih earlier.symm
    obtain ⟨inside, moved, bitOffset, value⟩ := packMember_eq_ok_of_known packed free length.symm
    have bits : group.bits = bytes * 8 := by rw [before.group_eq]; rfl
    have same : (members.map (·.result)).length = widths.length := by
      simpa using (congrArg List.length earlier).symm
    refine ⟨by simpa using moved, ?_⟩
    rw [List.map_append]
    refine partition.concat fits same (by omega) ?_ bitOffset length.symm ?_
    · have there := congrArg Field.offset (packMember_eq_ok packed).1
      rw [before.group_eq] at there
      exact there
    · intro number known
      have image : group.image = some (Bits.littleEndian bytes number) := by
        rw [before.group_eq, ofContainer_image, known]
        rfl
      obtain ⟨held, read, shown⟩ := value _ image
      rw [before.read_eq_ok fits image inside, littleEndian_window number (by omega)] at read
      cases read
      exact shown

/-! ## Containers in a layout -/

/-- A bit container among entries: brackets around a marker and all of its members. -/
structure GroupIn (entries : List Entry) (opening marker : Field) (members : List Field) : Prop where
  exists_split : ∃ before closing after, entries = before ++ .field opening :: .field marker ::
    (members.map .field ++ .field closing :: after) ∧ closing.role = .structClose
  opens : opening.role = .structOpen
  marker_role : marker.role = .plain
  members_ne : members ≠ []
  members_role : ∀ member ∈ members, member.role = .bitField

/-- The run of elements with a property is told by the first element without it. -/
theorem eq_of_append_eq {α : Type} (p : α → Bool) {left right after rest : List α} {x y : α}
    (h : left ++ x :: after = right ++ y :: rest) (hleft : ∀ a ∈ left, p a = true)
    (hright : ∀ a ∈ right, p a = true) (hx : p x = false) (hy : p y = false) : left = right := by
  have run := congrArg (List.takeWhile p) h
  rw [List.takeWhile_append_of_pos hleft, List.takeWhile_append_of_pos hright] at run
  simpa [hx, hy] using run

section

variable {declared before after : List Entry} {packed : Packed} {earlier later : List Placed}

theorem InContainer.members_role
    (inside : InContainer rules declared before member after packed earlier later) :
    ∀ placed ∈ packed.members, placed.result.role = .bitField := by
  obtain ⟨group, contains⟩ := inside.contains
  obtain ⟨bytes, -, -, packs⟩ := contains.packs
  exact fun placed hplaced => (packs.role_eq placed hplaced).2

/-- A marker is no member, so the member right behind one is the first of its container. -/
theorem InContainer.earlier_eq_nil {opening marker : Field} (inside : InContainer rules declared
      (before ++ [Entry.field opening, .field marker]) member after packed earlier later)
    (plain : marker.role = .plain) : earlier = [] := by
  obtain ⟨source, members⟩ := inside.members
  obtain ⟨outer, before_eq⟩ := inside.before_eq
  rcases List.eq_nil_or_concat' earlier with none | ⟨front, last, rfl⟩
  · exact none
  · have marker_eq : marker = last.result := by
      have ends : (before ++ [Entry.field opening]) ++ [Entry.field marker] = (outer ++
          .field packed.opening :: .field packed.marker ::
            front.map fun member => .field member.result) ++ [Entry.field last.result] := by
        simpa using before_eq
      exact Entry.field.inj (List.cons.inj (List.append_inj' ends rfl).2).1
    rw [marker_eq, inside.members_role last (by simp [members])] at plain
    cases plain

/-- The members of a container end where something else follows. -/
theorem InContainer.later_eq {rest : List Field} {closing : Field}
    (inside : InContainer rules declared before member
      (rest.map .field ++ .field closing :: after) packed earlier later)
    (roles : ∀ field ∈ rest, field.role = .bitField) (closes : closing.role ≠ .bitField) :
    rest = later.map (·.result) := by
  obtain ⟨source, members⟩ := inside.members
  obtain ⟨line, cursor, tail, after_eq⟩ := inside.after_eq
  let p (entry : Entry) : Bool := entry.bitMember?.isSome
  have same : rest.map Entry.field = later.map fun member => .field member.result := by
    refine eq_of_append_eq p after_eq ?_ ?_ ?_ ?_
    · intro entry hentry
      obtain ⟨field, hfield, rfl⟩ := List.mem_map.1 hentry
      simp [p, Entry.bitMember?, roles field hfield]
    · intro entry hentry
      obtain ⟨placed, hplaced, rfl⟩ := List.mem_map.1 hentry
      simp [p, Entry.bitMember?, inside.members_role placed (by simp [members, hplaced])]
    · simp [p, Entry.bitMember?, closes]
    · simp [p, Entry.bitMember?, groupClosing]
  have fields := congrArg (List.filterMap Entry.field?) same
  simpa [List.filterMap_map, Function.comp_def, Entry.field?] using fields

end

/-- A container in a layout was made of a byte field and the bit members declared behind it. -/
theorem GroupIn.exists_declared {declared entries : List Entry} {opening marker : Field}
    {members : List Field} (held : GroupIn entries opening marker members)
    (contained : Contained rules declared entries) : ∃ packed : Packed,
      (.field packed.source :: packed.members.map fun member => .field member.source) <:+: declared ∧
        (∃ group, Contains rules packed group) ∧ opening = packed.opening ∧
          marker = packed.marker ∧ members = packed.members.map (·.result) := by
  obtain ⟨before, closing, after, split, closes⟩ := held.exists_split
  obtain ⟨first, rest, rfl⟩ := List.exists_cons_of_ne_nil held.members_ne
  have split_first : entries = (before ++ [Entry.field opening, .field marker]) ++ .field first ::
      (rest.map .field ++ .field closing :: after) := by
    rw [split]
    simp
  obtain ⟨packed, earlier, later, inside⟩ :=
    contained _ _ _ split_first (held.members_role first (by simp))
  obtain rfl := inside.earlier_eq_nil held.marker_role
  obtain ⟨source, packed_members⟩ := inside.members
  obtain ⟨outer, before_eq⟩ := inside.before_eq
  obtain ⟨-, brackets⟩ := List.append_inj' before_eq rfl
  simp only [List.cons.injEq, Entry.field.injEq] at brackets
  have rest_eq : rest = later.map (·.result) :=
    inside.later_eq (fun field hfield => held.members_role field (by simp [hfield]))
      (by simp [closes])
  refine ⟨packed, inside.declared, inside.contains, brackets.1, brackets.2.1, ?_⟩
  rw [packed_members, rest_eq]
  rfl

/-- A container in a layout was made of a byte field. -/
theorem GroupIn.exists_packed {declared entries : List Entry} {opening marker : Field}
    {members : List Field} (held : GroupIn entries opening marker members)
    (contained : Contained rules declared entries) : ∃ packed : Packed,
      (∃ group, Contains rules packed group) ∧ opening = packed.opening ∧
        marker = packed.marker ∧ members = packed.members.map (·.result) := by
  obtain ⟨packed, -, packed_eq⟩ := held.exists_declared contained
  exact ⟨packed, packed_eq⟩

/-- Every bit member of a layout is a member of a container. -/
theorem Contained.exists_groupIn {declared entries : List Entry} {member : Field}
    (contained : Contained rules declared entries) (mem : .field member ∈ entries)
    (role : member.role = .bitField) :
    ∃ opening marker members, GroupIn entries opening marker members ∧ member ∈ members := by
  obtain ⟨before, after, split⟩ := List.append_of_mem mem
  obtain ⟨packed, earlier, later, inside⟩ := contained _ _ _ split role
  obtain ⟨group, contains⟩ := inside.contains
  obtain ⟨bytes, -, -, packs⟩ := contains.packs
  obtain ⟨source, packed_members⟩ := inside.members
  obtain ⟨outer, before_eq⟩ := inside.before_eq
  obtain ⟨line, cursor, tail, after_eq⟩ := inside.after_eq
  refine ⟨packed.opening, packed.marker, packed.members.map (·.result), ?_, ?_⟩
  · exact {
      exists_split := by
        refine ⟨outer, groupClosing packed.opening.name line cursor, tail, ?_, rfl⟩
        rw [split, before_eq, after_eq, packed_members]
        simp [Function.comp_def]
      opens := by
        rw [contains.opening]
        rfl
      marker_role := by
        rw [contains.marker, containerMarker, inside.kept]
        exact role_of_isPlain contains.plain
      members_ne := by simp [packed_members]
      members_role := by
        intro other hother
        obtain ⟨placed, hplaced, rfl⟩ := List.mem_map.1 hother
        exact (packs.role_eq placed hplaced).2 }
  · simp [packed_members]

/-- The group that a member is packed into: the one that is open, or that of the container which is
made for it. -/
inductive Receives (rules : Rules) (member : Field) (state : State) : BitGroup → Prop
  | opened {group : BitGroup} (opened : state.group = some group) :
      Receives rules member state group
  | made {group : BitGroup} {next : State} (closed : state.group = none)
      (made : openGroup rules member state = .ok (next, group)) :
      Receives rules member state group

/-- A group in a layout under way is that of a container whose members have taken bits. -/
theorem Reads.exists_packs {state : State} {done : List Entry}
    (reads : Reads rules sizing state done) (receives : Receives rules member state group) :
    ∃ container bytes members, bytes ≤ maxContainer ∧
      Packs (.ofContainer container bytes) members group := by
  have of_contains {packed : Packed} (contains : Contains rules packed group) :
      ∃ container bytes members, bytes ≤ maxContainer ∧
        Packs (.ofContainer container bytes) members group := by
    obtain ⟨bytes, fits, -, packs⟩ := contains.packs
    exact ⟨_, bytes, _, fits, packs⟩
  cases receives with
  | opened opened =>
    cases reads with
    | settled closed => simp [closed] at opened
    | packing open_group _ _ contains =>
      cases open_group.symm.trans opened
      exact of_contains contains
  | made closed made =>
    obtain ⟨_, _, _, _, _, _, contains, _⟩ := reads_openGroup reads closed made
    exact of_contains contains

/-- The members of each container in a layout partition its bits if their widths are known. Whatever
is laid out, the bits that a member takes inside its container can be read there. -/
theorem ofEntries_partition (rules : Rules) (sizing : Sizing) (names : NamePool) :
    (∀ entries layout pool, (ofEntries rules sizing names entries).outcome = .ok (layout, pool) →
      (∀ member, .field member ∈ layout.entries → member.role = .bitField →
        ∃ opening marker members, GroupIn layout.entries opening marker members ∧
          member ∈ members) ∧
      ∀ opening marker members, GroupIn layout.entries opening marker members →
        ∃ bytes ≤ 8, opening.length = .fixed bytes ∧ marker.offset = opening.offset ∧
          ∀ widths : List Nat, members.map (·.length) = widths.map .fixed →
            Partition marker bytes members widths) ∧
    ∀ before member state group, (run rules sizing { names } before).outcome = .ok state →
      Receives rules member state group → ∀ image, group.image = some image →
        ∀ start width, start + width ≤ group.bits →
          ∃ number, Bits.read image start width = .ok number := by
  constructor
  · intro entries layout pool h
    obtain ⟨outline, -, body, follows⟩ := exists_outline h
    have contained := follows.contained.2
    rw [body] at contained
    refine ⟨fun member => contained.exists_groupIn, fun opening marker members held => ?_⟩
    obtain ⟨packed, ⟨group, contains⟩, rfl, rfl, rfl⟩ := held.exists_packed contained
    obtain ⟨bytes, fits, length, packs⟩ := contains.packs
    refine ⟨bytes, fits, ?_, ?_, fun widths fixed => ?_⟩
    · rw [contains.opening]
      exact length
    · rw [contains.opening, contains.marker]
      rfl
    · rw [List.map_map] at fixed
      obtain ⟨-, partition⟩ := packs.partition fits fixed
      rw [contains.marker]
      exact ⟨partition.sum_le, partition.offset_eq, partition.bitOffset_eq, partition.value_eq,
        partition.written⟩
  · intro before member state group hrun receives image known start width inside
    obtain ⟨container, bytes, members, fits, packs⟩ :=
      (reads_run (reads_nil names) hrun).exists_packs receives
    exact ⟨_, packs.read_eq_ok fits known inside⟩

/-- A byte whose default is too long for it, with two members that fill it. -/
def packedFlags : List Entry :=
  [.field { name := "Flags", role := .plain, line := 1, length := .fixed 1, value := some "0x1A5" },
    .field { name := "Low", role := .bitField, line := 2, length := .fixed 3 },
    .field { name := "High", role := .bitField, line := 3, length := .fixed 5 }]

theorem packedFlags_partition : ∃ layout pool opening marker low high closing,
    (ofEntries {} .lenient ⟨"Pad", [], 0⟩ packedFlags).outcome = .ok (layout, pool) ∧
      layout.entries = [opening, marker, low, high, closing].map .field ∧
      low.value = some "0x5" ∧ high.value = some "0x14" ∧
      Partition marker 1 [low, high] [3, 5] ∧
      ∃ state group number, (run {} .lenient { names := ⟨"Pad", [], 0⟩ }
        (packedFlags.take 2)).outcome = .ok state ∧ Receives {} high state group ∧
        group.bits = 8 ∧ Bits.read (Bits.littleEndian 1 0x1A5) 3 5 = .ok number := by
  let opening : Field := { name := "Flags", role := .structOpen, line := 1, offset := some 0
                           length := .fixed 1 }
  let marker : Field := { name := "$STRUCT", role := .plain, line := 1, offset := some 0
                          length := .fixed 1, value := some "0x1A5" }
  let low : Field := { name := "Low", role := .bitField, line := 2, offset := some 0
                       length := .fixed 3, value := some "0x5", bitOffset := some 0 }
  let high : Field := { name := "High", role := .bitField, line := 3, offset := some 0
                        length := .fixed 5, value := some "0x14", bitOffset := some 3 }
  let closing : Field := { name := "Flags", role := .structClose, line := 3, offset := some 1 }
  let group : BitGroup := ⟨"Flags", some 0, some (Bits.littleEndian 1 0x1A5), 8, some 3⟩
  have laid : (ofEntries {} .lenient ⟨"Pad", [], 0⟩ packedFlags).outcome.toOption.map
      (·.1.entries) = some ([opening, marker, low, high, closing].map .field) := by decide +kernel
  obtain ⟨⟨layout, pool⟩, h, entries⟩ := exists_eq_ok laid
  have held : GroupIn layout.entries opening marker [low, high] := {
    exists_split := ⟨[], closing, [], entries, rfl⟩
    opens := rfl
    marker_role := rfl
    members_ne := by simp
    members_role := by simp [low, high] }
  have halfway : (run {} .lenient { names := ⟨"Pad", [], 0⟩ } (packedFlags.take 2)).outcome.toOption.map
      State.group = some (some group) := by decide +kernel
  obtain ⟨state, hrun, opened⟩ := exists_eq_ok halfway
  have receives : Receives {} high state group := .opened opened
  have partition := ofEntries_partition {} .lenient ⟨"Pad", [], 0⟩
  obtain ⟨bytes, -, length, -, members⟩ := (partition.1 _ layout pool h).2 opening marker _ held
  obtain rfl : 1 = bytes := Length.fixed.inj length
  obtain ⟨number, read⟩ := partition.2 _ high state group hrun receives _ rfl 3 5 (by decide)
  exact ⟨layout, pool, opening, marker, low, high, closing, h, entries, rfl, rfl,
    members [3, 5] rfl, state, group, number, hrun, receives, rfl, read⟩

end Layout
end BoardSchema
