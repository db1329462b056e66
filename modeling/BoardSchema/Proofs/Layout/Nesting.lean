import BoardSchema.Proofs.Layout.Reading
/-!
Structures stay well nested, in the declared stream and in what is put out. Bit members stand in the
container that was made for them.
-/
namespace BoardSchema

/-- The names of the open structures, innermost first, behind an entry. A structure has to be closed
under its own name. -/
def Entry.nest (opened : List String) : Entry → Option (List String)
  | .field f =>
    match f.role, opened with
    | .structOpen, _ => some (f.name :: opened)
    | .structClose, [] => none
    | .structClose, name :: outer => if name = f.name then some outer else none
    | _, _ => some opened
  | _ => some opened

/-- The names of the open structures behind a stream. -/
def openStructs (opened : List String) (entries : List Entry) : Option (List String) :=
  entries.foldlM Entry.nest opened

/-- Every structure that is opened is closed again, the innermost one first. -/
def WellNested (entries : List Entry) : Prop := openStructs [] entries = some []

def Entry.bitMember? : Entry → Option Field
  | .field f => if f.role = .bitField then some f else none
  | _ => none

def bitMembers (entries : List Entry) : List Field := entries.filterMap Entry.bitMember?

namespace Layout

/-- Entries that leave open what is open before them. -/
def Balanced (entries : List Entry) : Prop := ∀ opened, openStructs opened entries = some opened

theorem openStructs_append (opened : List String) (left right : List Entry) :
    openStructs opened (left ++ right) =
      (openStructs opened left).bind fun opened => openStructs opened right :=
  List.foldlM_append ..

theorem openStructs_cons (opened : List String) (entry : Entry) (rest : List Entry) :
    openStructs opened (entry :: rest) =
      (entry.nest opened).bind fun opened => openStructs opened rest :=
  List.foldlM_cons ..

namespace Balanced

variable {left right entries : List Entry}

theorem nil : Balanced [] := fun _ => rfl

theorem append (h : Balanced left) (h' : Balanced right) : Balanced (left ++ right) := by
  intro opened
  rw [openStructs_append, h opened]
  exact h' opened

theorem cons {entry : Entry} (h : ∀ opened, entry.nest opened = some opened)
    (h' : Balanced entries) : Balanced (entry :: entries) := by
  intro opened
  rw [openStructs_cons, h opened]
  exact h' opened

theorem block (opening closing : Field) (opens : opening.role = .structOpen)
    (closes : closing.role = .structClose) (named : closing.name = opening.name)
    (h : Balanced entries) : Balanced (.field opening :: entries ++ [Entry.field closing]) := by
  intro opened
  have open_eq : (Entry.field opening).nest opened = some (opening.name :: opened) := by
    simp [Entry.nest, opens]
  have close_eq : (Entry.field closing).nest (opening.name :: opened) = some opened := by
    simp [Entry.nest, closes, named]
  rw [List.cons_append, openStructs_cons, open_eq]
  simp only [Option.bind_some, openStructs_append, h (opening.name :: opened)]
  rw [openStructs_cons, close_eq]
  rfl

end Balanced

/-- Only brackets change what is open. -/
theorem nest_eq_some {field : Field} (opens : field.role ≠ .structOpen)
    (closes : field.role ≠ .structClose) (opened : List String) :
    (Entry.field field).nest opened = some opened := by
  cases role : field.role <;> simp_all [Entry.nest]

/-! ## Outlines -/

variable {rules : Rules} {sizing : Sizing} {inside : Bool} {start cursor next : Option Nat}
  {outline : Outline}

theorem Balanced.field {field : Field} (opens : field.role ≠ .structOpen)
    (closes : field.role ≠ .structClose) : Balanced [.field field] :=
  .cons (nest_eq_some opens closes) .nil

theorem Balanced.map_field (view : Placed → Field) {members : List Placed}
    (role : ∀ member ∈ members, (view member).role = .bitField) :
    Balanced (members.map fun member => .field (view member)) := by
  induction members with
  | nil => exact .nil
  | cons member rest ih =>
    have here := role member (by simp)
    refine .cons (nest_eq_some ?_ ?_) (ih fun member hmember => role member (by simp [hmember]))
    · simp [here]
    · simp [here]

theorem Marks.balanced {source result : Entry} (marks : Marks cursor source result) :
    Balanced [source] ∧ Balanced [result] := by
  cases marks with
  | @action field role =>
    have opens : field.role ≠ .structOpen := by simp [role]
    have closes : field.role ≠ .structClose := by simp [role]
    exact ⟨.field opens closes, .field opens closes⟩
  | includeOpen => exact ⟨.cons (fun _ => rfl) .nil, .cons (fun _ => rfl) .nil⟩
  | includeClose => exact ⟨.cons (fun _ => rfl) .nil, .cons (fun _ => rfl) .nil⟩

theorem Places.balanced_gap {cell : Cell} (places : Places sizing cursor cell next) :
    Balanced cell.gap := by
  cases h : cell.padding with
  | none =>
    simp only [Cell.gap, h]
    exact .nil
  | some padding =>
    have role := places.padding_role h
    simp only [Cell.gap, h]
    exact .field (by simp [role]) (by simp [role])

theorem Places.balanced {cell : Cell} (places : Places sizing cursor cell next)
    (role : cell.source.role = .plain ∨ cell.source.role = .padding) :
    Balanced [.field cell.source] ∧ Balanced cell.entries := by
  have opens : cell.source.role ≠ .structOpen := by rintro h; simp [h] at role
  have closes : cell.source.role ≠ .structClose := by rintro h; simp [h] at role
  refine ⟨.field opens closes, places.balanced_gap.append ?_⟩
  rw [← places.role_eq] at opens closes
  exact .field opens closes

/-- A container puts out what was put out before it was one, in brackets. -/
theorem Packed.entries_eq (packed : Packed) : packed.entries =
    packed.gap ++ (.field packed.opening :: (.field packed.marker ::
      packed.members.map fun member => .field member.result) ++ [Entry.field packed.closing]) := by
  simp [Packed.entries, Packed.start]

theorem Contains.balanced_inner {packed : Packed} {group : BitGroup}
    (contains : Contains rules packed group) (places : Places sizing cursor packed.toCell next) :
    Balanced (.field packed.marker :: packed.members.map fun member => .field member.result) := by
  obtain ⟨bytes, -, -, packs⟩ := contains.packs
  have marker := contains.marker_role places
  have members := Balanced.map_field Placed.result
    fun member hmember => (packs.role_eq member hmember).2
  exact .cons (nest_eq_some (by simp [marker]) (by simp [marker])) members

/-- A container balances, with the brackets that were made for it. -/
theorem Contains.balanced {packed : Packed} {group : BitGroup}
    (contains : Contains rules packed group) (places : Places sizing cursor packed.toCell next)
    (closing : packed.closing = groupClosing packed.result.name packed.lastLine next) :
    Balanced (.field packed.source :: packed.members.map fun member => .field member.source) ∧
      Balanced packed.entries := by
  obtain ⟨bytes, -, -, packs⟩ := contains.packs
  have plain := role_of_isPlain contains.plain
  constructor
  · have members := Balanced.map_field Placed.source
      fun member hmember => (packs.role_eq member hmember).1
    exact .cons (nest_eq_some (by simp [plain]) (by simp [plain])) members
  · have block := (contains.balanced_inner places).block packed.opening packed.closing
      (by rw [contains.opening]; rfl) (by rw [closing]; rfl)
      (by rw [contains.opening, closing]; rfl)
    rw [packed.entries_eq]
    exact places.balanced_gap.append block

theorem Follows.balanced (follows : Follows rules sizing inside start outline cursor) :
    Balanced outline.source ∧ Balanced outline.front ∧ Balanced outline.body := by
  induction follows with
  | nil => exact ⟨.nil, .nil, .nil⟩
  | mark _ marks ih =>
    have mark := marks.balanced
    exact ⟨ih.1.append mark.1, ih.2.1, ih.2.2.append mark.2⟩
  | byte _ role places ih =>
    have cell := places.balanced role
    exact ⟨ih.1.append cell.1, ih.2.1, ih.2.2.append cell.2⟩
  | pack _ places contains _ closing ih =>
    have packed := contains.balanced places closing
    exact ⟨ih.1.append packed.1, ih.2.1, ih.2.2.append packed.2⟩
  | @block _ hoists _ _ _ before inner opening closing _ opens _ ends ihBefore ihInner =>
    have source := ihInner.1.block _ _ opens.role ends.role ends.named
    have block := ihInner.2.2.block opening.result closing.result
      opens.result_role ends.result_role (by rw [opens.result, ends.result]; exact ends.named)
    refine ⟨?_, ?_⟩
    · rw [Outline.source, List.append_assoc]
      exact ihBefore.1.append source
    cases hoists with
    | true =>
      rw [Outline.front_block_true, Outline.body_block_true]
      exact ⟨ihBefore.2.1.append block, ihBefore.2.2.append ihInner.2.1⟩
    | false =>
      rw [Outline.front_block_false, Outline.body_block_false]
      exact ⟨ihBefore.2.1, ihBefore.2.2.append (ihInner.2.1.append block)⟩

/-! ## Bit members -/

/-- A bit member stands in a container, between the entries before it and those after it. The
container was made of the byte field that was declared right before its members. -/
structure InContainer (rules : Rules) (entries before : List Entry) (member : Field)
    (after : List Entry) (packed : Packed) (earlier later : List Placed) : Prop where
  declared :
    (.field packed.source :: packed.members.map fun member => .field member.source) <:+: entries
  kept : packed.result = { packed.source with
    offset := packed.result.offset, length := packed.result.length }
  contains : ∃ group, Contains rules packed group
  members : ∃ source, packed.members = earlier ++ ⟨source, member⟩ :: later
  before_eq : ∃ outer, before = outer ++ .field packed.opening :: .field packed.marker ::
    earlier.map fun member => .field member.result
  after_eq : ∃ line cursor rest, after = (later.map fun member => .field member.result) ++
    .field (groupClosing packed.opening.name line cursor) :: rest

/-- Every bit member among the entries stands in a container. -/
def Contained (rules : Rules) (declared entries : List Entry) : Prop :=
  ∀ before member after, entries = before ++ .field member :: after → member.role = .bitField →
    ∃ packed earlier later, InContainer rules declared before member after packed earlier later

namespace Contained

variable {declared more left right entries : List Entry}

theorem mono (h : Contained rules declared entries) (sub : declared <:+: more) :
    Contained rules more entries := by
  intro before member after split role
  obtain ⟨packed, earlier, later, held⟩ := h before member after split role
  exact ⟨packed, earlier, later, { held with declared := held.declared.trans sub }⟩

theorem of_role_ne (h : ∀ entry ∈ entries, ∀ field, entry = .field field → field.role ≠ .bitField) :
    Contained rules declared entries := by
  intro before member after split role
  exact absurd role (h (.field member) (by simp [split]) member rfl)

theorem append (h : Contained rules declared left) (h' : Contained rules declared right) :
    Contained rules declared (left ++ right) := by
  intro before member after split role
  rcases List.append_eq_append_iff.1 split with ⟨between, rfl, hright⟩ | ⟨between, hleft, hbetween⟩
  · obtain ⟨packed, earlier, later, held⟩ := h' between member after hright role
    obtain ⟨outer, hbefore⟩ := held.before_eq
    refine ⟨packed, earlier, later, { held with before_eq := ⟨left ++ outer, ?_⟩ }⟩
    rw [hbefore, List.append_assoc]
  · rcases List.cons_eq_append_iff.1 hbetween with ⟨rfl, hright⟩ | ⟨rest, rfl, rfl⟩
    · -- A member is never first, since its container opens before it.
      rw [List.append_nil] at hleft
      obtain ⟨packed, earlier, later, held⟩ := h' [] member after hright role
      obtain ⟨outer, hbefore⟩ := held.before_eq
      simp at hbefore
    · obtain ⟨packed, earlier, later, held⟩ := h before member rest hleft role
      obtain ⟨line, cursor, tail, hafter⟩ := held.after_eq
      refine ⟨packed, earlier, later, { held with after_eq := ⟨line, cursor, tail ++ right, ?_⟩ }⟩
      rw [hafter]
      simp

theorem field {field : Field} (role : field.role ≠ .bitField) :
    Contained rules declared [.field field] := by
  refine of_role_ne fun entry hentry found hfound => ?_
  rw [List.mem_singleton.1 hentry] at hfound
  cases hfound
  exact role

end Contained

/-- An element that is neither at the head nor in the tail of a list is in the middle. -/
theorem split_middle {α : Type} {x : α} {head middle tail before after : List α}
    (h : head ++ (middle ++ tail) = before ++ x :: after) (hhead : x ∉ head) (htail : x ∉ tail) :
    ∃ earlier later, middle = earlier ++ x :: later ∧ before = head ++ earlier ∧
      after = later ++ tail := by
  induction head generalizing before with
  | nil =>
    rw [List.nil_append] at h
    rcases List.append_eq_append_iff.1 h with ⟨between, -, rfl⟩ | ⟨between, rfl, hrest⟩
    · simp at htail
    · rcases List.cons_eq_append_iff.1 hrest with ⟨rfl, rfl⟩ | ⟨later, rfl, rfl⟩
      · simp at htail
      · exact ⟨before, later, rfl, rfl, rfl⟩
  | cons y head ih =>
    cases before with
    | nil =>
      cases h
      simp at hhead
    | cons z before =>
      obtain ⟨rfl, hrest⟩ := List.cons.inj h
      obtain ⟨earlier, later, hmiddle, rfl, hafter⟩ := ih hrest fun hx => hhead (by simp [hx])
      exact ⟨earlier, later, hmiddle, rfl, hafter⟩

theorem Marks.contained {declared : List Entry} {source result : Entry}
    (marks : Marks cursor source result) : Contained rules declared [result] := by
  cases marks with
  | action role => exact .field (by simp [role])
  | includeOpen => exact .of_role_ne (by simp)
  | includeClose => exact .of_role_ne (by simp)

theorem Places.contained_gap {declared : List Entry} {cell : Cell}
    (places : Places sizing cursor cell next) : Contained rules declared cell.gap := by
  refine .of_role_ne fun entry hentry field hfield => ?_
  rw [hfield] at hentry
  simp only [Cell.gap, List.mem_map, Option.mem_toList, Entry.field.injEq,
    exists_eq_right] at hentry
  simp [places.padding_role hentry]

theorem Contains.contained {packed : Packed} {group : BitGroup}
    (contains : Contains rules packed group) (places : Places sizing cursor packed.toCell next)
    (closing : packed.closing = groupClosing packed.result.name packed.lastLine next) :
    Contained rules (.field packed.source :: packed.members.map fun member => .field member.source)
      packed.entries := by
  have entries : packed.entries = packed.gap ++
      ([Entry.field packed.opening, .field packed.marker] ++
        ((packed.members.map fun member => .field member.result) ++
          [Entry.field packed.closing])) := by
    simp [Packed.entries, Packed.start]
  rw [entries]
  refine places.contained_gap.append fun before member after split role => ?_
  have marker_role := contains.marker_role places
  have not_head : Entry.field member ∉ [Entry.field packed.opening, .field packed.marker] := by
    simp only [List.mem_cons, Entry.field.injEq, List.not_mem_nil, or_false, not_or]
    constructor
    · rintro rfl
      simp [contains.opening, containerOpening] at role
    · rintro rfl
      simp [marker_role] at role
  have not_tail : Entry.field member ∉ [Entry.field packed.closing] := by
    simp only [List.mem_singleton, Entry.field.injEq]
    rintro rfl
    simp [closing, groupClosing] at role
  obtain ⟨earlier, later, hmembers, hbefore, hafter⟩ := split_middle split not_head not_tail
  obtain ⟨first, rest, hsplit, rfl, hrest⟩ := List.map_eq_append_iff.1 hmembers
  obtain ⟨placed, second, rfl, hplaced, rfl⟩ := List.map_eq_cons_iff.1 hrest
  cases hplaced
  have named : packed.opening.name = packed.result.name := by rw [contains.opening]; rfl
  refine ⟨packed, first, second, ?_⟩
  exact {
    declared := List.infix_rfl
    kept := places.kept
    contains := ⟨group, contains⟩
    members := ⟨placed.source, hsplit⟩
    before_eq := ⟨[], hbefore⟩
    after_eq := ⟨packed.lastLine, next, [], by rw [hafter, closing, named]⟩ }

theorem Follows.contained (follows : Follows rules sizing inside start outline cursor) :
    Contained rules outline.source outline.front ∧ Contained rules outline.source outline.body := by
  induction follows with
  | nil => exact ⟨.of_role_ne (by simp [Outline.front]), .of_role_ne (by simp [Outline.body])⟩
  | @mark _ _ _ before source _ _ marks ih =>
    have sub := (List.prefix_append before.source [source]).isInfix
    exact ⟨ih.1.mono sub, (ih.2.mono sub).append marks.contained⟩
  | @byte _ _ _ _ before cell _ role places ih =>
    have sub := (List.prefix_append before.source [.field cell.source]).isInfix
    have field : cell.result.role ≠ .bitField := by
      rw [places.role_eq]
      rintro h
      simp [h] at role
    exact ⟨ih.1.mono sub, (ih.2.mono sub).append (places.contained_gap.append (.field field))⟩
  | @pack _ _ _ _ before packed _ _ places contains _ closing ih =>
    have sub := (List.prefix_append before.source
      (.field packed.source :: packed.members.map fun member => .field member.source)).isInfix
    have here := (contains.contained places closing).mono
      (List.suffix_append before.source _).isInfix
    exact ⟨ih.1.mono sub, (ih.2.mono sub).append here⟩
  | @block _ hoists _ _ _ before inner opening closing _ opens _ ends ihBefore ihInner =>
    have sub : before.source <:+: (Outline.block before hoists opening inner closing).source :=
      ⟨[], .field opening.source :: inner.source ++ [Entry.field closing.source],
        by simp [Outline.source]⟩
    have sub_inner : inner.source <:+: (Outline.block before hoists opening inner closing).source :=
      ⟨before.source ++ [Entry.field opening.source], [.field closing.source],
        by simp [Outline.source]⟩
    have open_role : opening.result.role ≠ .bitField := by simp [opens.result_role]
    have close_role : closing.result.role ≠ .bitField := by simp [ends.result_role]
    have block : Contained rules (Outline.block before hoists opening inner closing).source
        (.field opening.result :: inner.body ++ [Entry.field closing.result]) :=
      ((Contained.field open_role).append (ihInner.2.mono sub_inner)).append (.field close_role)
    have front := ihBefore.1.mono sub
    have body := ihBefore.2.mono sub
    have inner_front := ihInner.1.mono sub_inner
    cases hoists with
    | true =>
      rw [Outline.front_block_true, Outline.body_block_true]
      exact ⟨front.append block, body.append inner_front⟩
    | false =>
      rw [Outline.front_block_false, Outline.body_block_false]
      exact ⟨front, body.append (inner_front.append block)⟩

theorem bitMembers_append (left right : List Entry) :
    bitMembers (left ++ right) = bitMembers left ++ bitMembers right :=
  List.filterMap_append ..

theorem bitMembers_field {field : Field} (role : field.role ≠ .bitField) :
    bitMembers [.field field] = [] := by
  simp [bitMembers, Entry.bitMember?, role]

theorem bitMembers_map {members : List Placed} {view : Placed → Field}
    (role : ∀ member ∈ members, (view member).role = .bitField) :
    bitMembers (members.map fun member => .field (view member)) = members.map view := by
  induction members with
  | nil => rfl
  | cons member rest ih =>
    have tail := ih fun member hmember => role member (by simp [hmember])
    have here := role member (by simp)
    simp only [bitMembers] at tail
    simp [bitMembers, Entry.bitMember?, here, tail]

theorem Marks.bitMembers_eq_nil {source result : Entry} (marks : Marks cursor source result) :
    bitMembers [source] = [] ∧ bitMembers [result] = [] := by
  cases marks with
  | action role => exact ⟨bitMembers_field (by simp [role]), bitMembers_field (by simp [role])⟩
  | includeOpen => exact ⟨rfl, rfl⟩
  | includeClose => exact ⟨rfl, rfl⟩

theorem Places.bitMembers_gap {cell : Cell} (places : Places sizing cursor cell next) :
    bitMembers cell.gap = [] := by
  cases h : cell.padding with
  | none => simp [Cell.gap, h, bitMembers]
  | some padding =>
    simp only [Cell.gap, h]
    exact bitMembers_field (by simp [places.padding_role h])

/-- A member keeps what it declares, its value aside. -/
def Placed.IsMember (member : Placed) : Prop :=
  member.result = { member.source with
    offset := member.result.offset, value := member.result.value
    bitOffset := member.result.bitOffset }

theorem Packs.isMember {first group : BitGroup} {members : List Placed}
    (packs : Packs first members group) : ∀ member ∈ members, member.IsMember := by
  induction packs with
  | nil => simp
  | member _ _ packed ih =>
    intro member hmember
    rcases List.mem_append.1 hmember with hmember | hmember
    · exact ih member hmember
    · have result := (packMember_eq_ok packed).1
      have there := congrArg Field.offset result
      rw [List.mem_singleton.1 hmember, Placed.IsMember, there]
      exact result

/-- The bit members that were declared are those that are put out. -/
theorem Follows.exists_members (follows : Follows rules sizing inside start outline cursor) :
    ∃ members : List Placed, bitMembers outline.source = members.map (·.source) ∧
      bitMembers outline.stream = members.map (·.result) ∧
      ∀ member ∈ members, member.IsMember := by
  induction follows with
  | nil => exact ⟨[], rfl, rfl, by simp⟩
  | mark _ marks ih =>
    obtain ⟨members, source, stream, kept⟩ := ih
    have mark := marks.bitMembers_eq_nil
    refine ⟨members, ?_, ?_, kept⟩
    · rw [Outline.source, bitMembers_append, source, mark.1, List.append_nil]
    · rw [Outline.stream, bitMembers_append, stream, mark.2, List.append_nil]
  | @byte _ _ _ _ _ cell _ role places ih =>
    obtain ⟨members, source, stream, kept⟩ := ih
    have role : cell.source.role ≠ .bitField := by
      rintro h
      simp [h] at role
    have role' : cell.result.role ≠ .bitField := by rwa [places.role_eq]
    refine ⟨members, ?_, ?_, kept⟩
    · rw [Outline.source, bitMembers_append, source, bitMembers_field role, List.append_nil]
    · rw [Outline.stream, Cell.entries, bitMembers_append, bitMembers_append, stream,
        places.bitMembers_gap, bitMembers_field role', List.append_nil, List.append_nil]
  | @pack _ _ _ _ before packed _ _ places contains _ closing ih =>
    obtain ⟨members, source, stream, kept⟩ := ih
    obtain ⟨bytes, -, -, packs⟩ := contains.packs
    have role := packs.role_eq
    have plain := role_of_isPlain contains.plain
    refine ⟨members ++ packed.members, ?_, ?_, ?_⟩
    · have here : bitMembers [.field packed.source] = [] := bitMembers_field (by simp [plain])
      have split : Outline.source (.pack before packed) = before.source ++
          ([Entry.field packed.source] ++
            packed.members.map fun member => .field member.source) := by
        simp [Outline.source]
      rw [split, bitMembers_append, bitMembers_append, source, here, List.nil_append,
        bitMembers_map fun member hmember => (role member hmember).1, List.map_append]
    · have opening : bitMembers [.field packed.opening] = [] :=
        bitMembers_field (by simp [contains.opening, containerOpening])
      have marker : bitMembers [.field packed.marker] = [] :=
        bitMembers_field (by simp [contains.marker, containerMarker, places.role_eq, plain])
      have closed : bitMembers [.field packed.closing] = [] :=
        bitMembers_field (by simp [closing, groupClosing])
      have split : packed.entries = packed.gap ++ ([Entry.field packed.opening] ++
          ([Entry.field packed.marker] ++
            ((packed.members.map fun member => .field member.result) ++
              [Entry.field packed.closing]))) := by
        simp [Packed.entries, Packed.start]
      rw [Outline.stream, split]
      simp only [bitMembers_append, stream, places.bitMembers_gap, opening, marker, closed,
        bitMembers_map fun member hmember => (role member hmember).2, List.map_append,
        List.nil_append, List.append_nil]
    · intro member hmember
      exact (List.mem_append.1 hmember).elim (kept member) (packs.isMember member)
  | @block _ _ _ _ _ before inner opening closing _ opens _ ends ihBefore ihInner =>
    obtain ⟨members, source, stream, kept⟩ := ihBefore
    obtain ⟨members', source', stream', kept'⟩ := ihInner
    have brackets : bitMembers [.field opening.source] = [] ∧
        bitMembers [.field opening.result] = [] ∧ bitMembers [.field closing.source] = [] ∧
        bitMembers [.field closing.result] = [] := by
      refine ⟨bitMembers_field ?_, bitMembers_field ?_, bitMembers_field ?_, bitMembers_field ?_⟩
      · simp [opens.role]
      · simp [opens.result_role]
      · simp [ends.role]
      · simp [ends.result_role]
    obtain ⟨opened, opened', closed, closed'⟩ := brackets
    refine ⟨members ++ members', ?_, ?_, ?_⟩
    · rw [Outline.source, ← List.singleton_append]
      simp only [bitMembers_append, source, source', opened, closed, List.map_append,
        List.nil_append, List.append_nil]
    · rw [Outline.stream, ← List.singleton_append]
      simp only [bitMembers_append, stream, stream', opened', closed', List.map_append,
        List.nil_append, List.append_nil]
    · intro member hmember
      exact (List.mem_append.1 hmember).elim (kept member) (kept' member)

/-- Both what was declared and what is put out are well nested. Each declared bit member is put out
once, and stands in a container. -/
theorem ofEntries_wellNested {names pool : NamePool} {entries : List Entry} {layout : Layout}
    (h : (ofEntries rules sizing names entries).outcome = .ok (layout, pool)) :
    WellNested entries ∧ WellNested layout.entries ∧
      (∃ members : List Placed, bitMembers entries = members.map (·.source) ∧
        (members.map (·.result)).Perm (bitMembers layout.entries) ∧
        ∀ member ∈ members, member.IsMember) ∧
      ∀ before member after, layout.entries = before ++ .field member :: after →
        member.role = .bitField → ∃ packed earlier later,
          InContainer rules entries before member after packed earlier later := by
  obtain ⟨outline, rfl, body, follows⟩ := exists_outline h
  obtain ⟨source, -, stays⟩ := follows.balanced
  obtain ⟨members, declared, stream, kept⟩ := follows.exists_members
  have contained := follows.contained.2
  have perm := outline.front_append_body_perm.filterMap Entry.bitMember?
  rw [follows.front_eq_nil, List.nil_append, body] at perm
  rw [body] at stays contained
  refine ⟨source [], stays [], ⟨members, declared, ?_, kept⟩, contained⟩
  rw [← stream]
  exact perm.symm

/-- A header structure with a container in it, first thing in another structure. -/
def headerInStructure : List Entry :=
  [.field { name := "BOARD", role := .structOpen, line := 1 },
    .field { name := "CFGHDR_TMPL", role := .structOpen, line := 2 },
    .field { name := "Flags", role := .plain, line := 3, length := .fixed 1 },
    .field { name := "Enable", role := .bitField, line := 4, length := .fixed 2 },
    .field { name := "CFGHDR_TMPL", role := .structClose, line := 5 },
    .field { name := "BOARD", role := .structClose, line := 6 }]

theorem headerInStructure_wellNested : ∃ layout pool,
    (ofEntries {} .lenient ⟨"Pad", [], 0⟩ headerInStructure).outcome = .ok (layout, pool) ∧
      layout.entries.filterMap (fun entry => entry.field?.map Field.name) =
        ["CFGHDR_TMPL", "Flags", "$STRUCT", "Enable", "Flags", "CFGHDR_TMPL", "BOARD", "BOARD"] ∧
      WellNested headerInStructure ∧ WellNested layout.entries ∧
      (∃ members : List Placed, bitMembers headerInStructure = members.map (·.source) ∧
        (members.map (·.result)).Perm (bitMembers layout.entries) ∧
        ∀ member ∈ members, member.IsMember) ∧
      ∀ before member after, layout.entries = before ++ .field member :: after →
        member.role = .bitField → ∃ packed earlier later,
          InContainer {} headerInStructure before member after packed earlier later := by
  have names : (ofEntries {} .lenient ⟨"Pad", [], 0⟩ headerInStructure).outcome.toOption.map
      (fun result => result.1.entries.filterMap fun entry => entry.field?.map Field.name) =
        some ["CFGHDR_TMPL", "Flags", "$STRUCT", "Enable", "Flags", "CFGHDR_TMPL", "BOARD",
          "BOARD"] := by
    decide +kernel
  obtain ⟨⟨layout, pool⟩, h, names⟩ := exists_eq_ok names
  exact ⟨layout, pool, h, names, ofEntries_wellNested h⟩

end Layout
end BoardSchema
