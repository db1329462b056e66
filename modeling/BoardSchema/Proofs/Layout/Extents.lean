import BoardSchema.Proofs.Layout.Nesting
import BoardSchema.Proofs.Layout.Order
/-!
How far apart the brackets of a structure are. Each bracket notes the cursor where it was declared,
so all the bytes that were declared in the structure lie between the two, also those of the header
structures that went to the front of it. The distance is the size of what is put out between the
brackets just if those take no bytes.
-/
namespace BoardSchema

/-- The number of bytes that entries take. -/
def byteCount (entries : List Entry) : Nat := ((byteFields entries).map Field.bytes).sum

theorem byteCount_append (left right : List Entry) :
    byteCount (left ++ right) = byteCount left + byteCount right := by
  simp [byteCount]

namespace Layout

/-- A structure among entries: its brackets, and what stands between them. -/
structure Encloses (entries : List Entry) (opening : Field) (inner : List Entry)
    (closing : Field) : Prop where
  sub : .field opening :: inner ++ [.field closing] <:+: entries
  opens : opening.role = .structOpen
  closes : closing.role = .structClose
  balanced : Balanced inner

/-- The brackets of each structure are as far apart as the bytes between them. -/
def ExtentsAreSizes (entries : List Entry) : Prop :=
  ∀ opening inner closing, Encloses entries opening inner closing → ∃ start,
    opening.offset = some start ∧ closing.offset = some (start + byteCount inner)

/-! ## Brackets that match -/

theorem nest_beneath {opened after : List String} {entry : Entry}
    (h : entry.nest opened = some after) (beneath : List String) :
    entry.nest (opened ++ beneath) = some (after ++ beneath) := by
  cases entry with
  | field f =>
    cases role : f.role with
    | structOpen =>
      simp only [Entry.nest, role, Option.some.injEq] at h ⊢
      rw [← h, List.cons_append]
    | structClose =>
      cases opened with
      | nil => simp [Entry.nest, role] at h
      | cons name outer =>
        by_cases named : name = f.name
        · simp only [Entry.nest, role, if_pos named, Option.some.injEq] at h
          simp [Entry.nest, role, named, h]
        · simp [Entry.nest, role, named] at h
    | plain => simpa [Entry.nest, role] using h
    | bitField => simpa [Entry.nest, role] using h
    | padding => simpa [Entry.nest, role] using h
    | action => simpa [Entry.nest, role] using h
  | includeOpen => simpa [Entry.nest] using h
  | includeClose => simpa [Entry.nest] using h

/-- What is open before entries that balance does not matter to them. -/
theorem openStructs_beneath {opened after : List String} {entries : List Entry}
    (h : openStructs opened entries = some after) (beneath : List String) :
    openStructs (opened ++ beneath) entries = some (after ++ beneath) := by
  induction entries generalizing opened with
  | nil =>
    cases h
    rfl
  | cons entry rest ih =>
    rw [openStructs_cons, Option.bind_eq_some_iff] at h ⊢
    obtain ⟨middle, here, later⟩ := h
    exact ⟨middle ++ beneath, nest_beneath here beneath, ih later⟩

variable {left right inner : List Entry} {opening closing : Field}

/-- A bracket that closes behind balanced entries has no opening among them. -/
theorem Balanced.not_closed (balanced : Balanced inner) (closes : closing.role = .structClose)
    (rest : List Entry) : ¬Balanced (inner ++ .field closing :: rest) := by
  intro whole
  have here := whole []
  have none : (Entry.field closing).nest [] = none := by simp [Entry.nest, closes]
  rw [openStructs_append, balanced [], Option.bind_some, openStructs_cons, none] at here
  cases here

/-- A bracket that opens is still open in the middle of the balanced entries behind it. -/
theorem Balanced.not_opened {part : List Entry} (balanced : Balanced inner) (sub : part <+: inner)
    (opens : opening.role = .structOpen) (before : List Entry) :
    ¬Balanced (before ++ .field opening :: part) := by
  obtain ⟨later, rfl⟩ := sub
  intro whole
  have here := whole []
  rw [openStructs_append, Option.bind_eq_some_iff] at here
  obtain ⟨opened, -, here⟩ := here
  have nest : (Entry.field opening).nest opened = some (opening.name :: opened) := by
    simp [Entry.nest, opens]
  rw [openStructs_cons, nest, Option.bind_some] at here
  have bare := balanced []
  rw [openStructs_append, Option.bind_eq_some_iff] at bare
  obtain ⟨more, bare, -⟩ := bare
  have there := openStructs_beneath bare (opening.name :: opened)
  rw [List.nil_append, here] at there
  simp at there

namespace Encloses

variable {entries more : List Entry}

theorem mono (h : Encloses entries opening inner closing) (sub : entries <:+: more) :
    Encloses more opening inner closing :=
  { h with sub := h.sub.trans sub }

theorem opening_mem (h : Encloses entries opening inner closing) : .field opening ∈ entries :=
  h.sub.subset (by simp)

/-- A structure stands on one side of a place where nothing is open. -/
theorem of_append (h : Encloses (left ++ right) opening inner closing) (balanced : Balanced left) :
    Encloses left opening inner closing ∨ Encloses right opening inner closing := by
  obtain ⟨before, after, split⟩ := h.sub
  -- The place is in front of the opening bracket, behind the closing one, or in between, where the
  -- bracket would be open.
  rw [List.append_assoc, List.append_eq_append_iff] at split
  rcases split with ⟨between, rfl, split⟩ | ⟨between, rfl, split⟩
  · rw [List.append_assoc, List.cons_append, List.cons_eq_append_iff] at split
    rcases split with ⟨rfl, split⟩ | ⟨part, rfl, split⟩
    · exact .inr { h with sub := ⟨[], after, by simpa using split.symm⟩ }
    · rw [List.append_eq_append_iff] at split
      rcases split with ⟨later, rfl, split⟩ | ⟨later, rfl, -⟩
      · rw [List.singleton_append, List.cons_eq_append_iff] at split
        rcases split with ⟨rfl, -⟩ | ⟨last, rfl, -⟩
        · rw [List.append_nil] at balanced
          exact absurd balanced (h.balanced.not_opened List.prefix_rfl h.opens before)
        · exact .inl { h with sub := ⟨before, last, by simp⟩ }
      · exact absurd balanced (h.balanced.not_opened (List.prefix_append ..) h.opens before)
  · exact .inr { h with sub := ⟨between, after, by simpa using split.symm⟩ }

/-- In a structure there is that structure, and there are those inside. -/
theorem of_block {outer_opening outer_closing : Field} {body : List Entry}
    (h : Encloses (.field outer_opening :: body ++ [Entry.field outer_closing])
      opening inner closing)
    (balanced : Balanced body) :
    (opening = outer_opening ∧ inner = body ∧ closing = outer_closing) ∨
      Encloses body opening inner closing := by
  obtain ⟨before, after, split⟩ := h.sub
  cases before with
  | nil =>
    left
    simp only [List.nil_append, List.cons_append, List.append_assoc, List.cons.injEq,
      Entry.field.injEq] at split
    obtain ⟨rfl, split⟩ := split
    rcases List.append_eq_append_iff.1 split with ⟨between, rfl, last⟩ | ⟨between, rfl, last⟩
    · rcases List.cons_eq_append_iff.1 last with ⟨rfl, last⟩ | ⟨rest, rfl, -⟩
      · cases last
        simp
      · exact absurd balanced (h.balanced.not_closed h.closes rest)
    · rcases List.singleton_eq_append_iff.1 last with ⟨rfl, last⟩ | ⟨-, last⟩
      · cases last
        simp
      · cases last
  | cons first before =>
    right
    have inside : Encloses (body ++ [Entry.field outer_closing]) opening inner closing :=
      { h with sub := ⟨before, after, (List.cons.inj split).2⟩ }
    refine (inside.of_append balanced).resolve_right fun last => ?_
    -- One bracket alone is no structure.
    have short := last.sub.length_le
    simp at short

end Encloses

theorem encloses_append_iff (balanced : Balanced left) :
    Encloses (left ++ right) opening inner closing ↔
      Encloses left opening inner closing ∨ Encloses right opening inner closing :=
  ⟨fun h => h.of_append balanced, fun h => h.elim (·.mono (List.prefix_append ..).isInfix)
    (·.mono (List.suffix_append ..).isInfix)⟩

theorem encloses_block_iff {outer_opening outer_closing : Field} {body : List Entry}
    (opens : outer_opening.role = .structOpen) (closes : outer_closing.role = .structClose)
    (balanced : Balanced body) :
    Encloses (.field outer_opening :: body ++ [Entry.field outer_closing]) opening inner closing ↔
      Encloses body opening inner closing ∨
        opening = outer_opening ∧ inner = body ∧ closing = outer_closing := by
  constructor
  · exact fun h => (h.of_block balanced).symm
  · rintro (h | ⟨rfl, rfl, rfl⟩)
    · exact h.mono ⟨[.field outer_opening], [.field outer_closing], rfl⟩
    · exact ⟨List.infix_rfl, opens, closes, balanced⟩

theorem not_encloses {entries : List Entry}
    (h : ∀ field, .field field ∈ entries → field.role ≠ .structOpen) :
    ¬Encloses entries opening inner closing :=
  fun encloses => h opening encloses.opening_mem encloses.opens

/-! ## Structures of an outline -/

/-- A structure that was put out, with what was declared in it and went to the front of it. -/
structure Enclosure where
  opening : Field
  moved : List Entry
  inner : List Entry
  closing : Field

/-- The declared structures, and the containers that were made for bit members. -/
def Outline.enclosures : Outline → List Enclosure
  | nil => []
  | mark before _ _ => before.enclosures
  | byte before _ => before.enclosures
  | pack before packed => before.enclosures ++
      [⟨packed.opening, [], .field packed.marker ::
        packed.members.map fun member => .field member.result, packed.closing⟩]
  | block before _ opening inner closing => before.enclosures ++ inner.enclosures ++
      [⟨opening.result, inner.front, inner.body, closing.result⟩]

variable {rules : Rules} {sizing : Sizing} {inside : Bool} {start cursor next : Option Nat}
  {outline : Outline}

theorem Places.role_ne_structOpen {cell : Cell} (places : Places sizing cursor cell next)
    (role : cell.source.role = .plain ∨ cell.source.role = .padding) :
    ∀ field, .field field ∈ cell.entries → field.role ≠ .structOpen := by
  intro field hfield
  rw [← places.role_eq] at role
  simp only [Cell.entries, Cell.gap, List.mem_append, List.mem_map, Option.mem_toList,
    Entry.field.injEq, exists_eq_right, List.mem_singleton] at hfield
  rcases hfield with padding | rfl
  · simp [places.padding_role padding]
  · rcases role with role | role <;> simp [role]

theorem Marks.not_encloses {source result : Entry} (marks : Marks cursor source result) :
    ¬Encloses [result] opening inner closing := by
  refine Layout.not_encloses fun field hfield => ?_
  have same := List.mem_singleton.1 hfield
  cases marks with
  | action role =>
    cases same
    simp [role]
  | includeOpen => cases same
  | includeClose => cases same

/-- A container is the only structure in what it is put out as. -/
theorem Contains.encloses_iff {packed : Packed} {group : BitGroup}
    (contains : Contains rules packed group) (places : Places sizing cursor packed.toCell next)
    (closed : packed.closing = groupClosing packed.result.name packed.lastLine next) :
    Encloses packed.entries opening inner closing ↔ opening = packed.opening ∧
      (inner = .field packed.marker :: packed.members.map fun member => .field member.result) ∧
      closing = packed.closing := by
  obtain ⟨bytes, -, -, packs⟩ := contains.packs
  have role : ∀ field, .field field ∈ (.field packed.marker ::
      packed.members.map fun member => .field member.result : List Entry) →
      field.role = .plain ∨ field.role = .bitField := by
    intro field hfield
    simp only [List.mem_cons, Entry.field.injEq, List.mem_map] at hfield
    rcases hfield with rfl | ⟨member, hmember, rfl⟩
    · exact .inl (contains.marker_role places)
    · exact .inr (packs.role_eq member hmember).2
  have opens : packed.opening.role = .structOpen := by
    rw [contains.opening]
    rfl
  have closes : packed.closing.role = .structClose := by
    rw [closed]
    rfl
  have gap : ¬Encloses packed.gap opening inner closing := by
    refine not_encloses fun field hfield => ?_
    simp only [Cell.gap, List.mem_map, Option.mem_toList, Entry.field.injEq,
      exists_eq_right] at hfield
    simp [places.padding_role hfield]
  have bare : ¬Encloses (.field packed.marker ::
      packed.members.map fun member => .field member.result) opening inner closing := by
    refine not_encloses fun field hfield => ?_
    rcases role field hfield with role | role <;> simp [role]
  rw [packed.entries_eq, encloses_append_iff places.balanced_gap,
    encloses_block_iff opens closes (contains.balanced_inner places)]
  simp only [gap, bare, false_or]

/-- The structures that were put out are those of the outline. -/
theorem Follows.encloses_iff (follows : Follows rules sizing inside start outline cursor) :
    Encloses outline.front opening inner closing ∨ Encloses outline.body opening inner closing ↔
      ∃ moved, ⟨opening, moved, inner, closing⟩ ∈ outline.enclosures := by
  induction follows with
  | nil => simp [Outline.front, Outline.body, Outline.enclosures, not_encloses]
  | mark follows marks ih =>
    rw [Outline.front, Outline.body, Outline.enclosures, encloses_append_iff follows.balanced.2.2,
      ← ih]
    simp only [marks.not_encloses, or_false]
  | byte follows role places ih =>
    rw [Outline.front, Outline.body, Outline.enclosures, encloses_append_iff follows.balanced.2.2,
      ← ih]
    simp only [not_encloses (places.role_ne_structOpen role), or_false]
  | pack follows places contains _ closed ih =>
    rw [Outline.front, Outline.body, Outline.enclosures, encloses_append_iff follows.balanced.2.2,
      contains.encloses_iff places closed, ← or_assoc, ih]
    simp only [List.mem_append, List.mem_singleton, Enclosure.mk.injEq, exists_or, exists_and_left,
      exists_eq_left]
  | @block _ hoists _ _ _ before held _ _ follows opens within ends ihBefore ihHeld =>
    have block := @encloses_block_iff inner opening closing _ _ _ opens.result_role
      ends.result_role within.balanced.2.2
    simp only [Outline.enclosures, List.mem_append, List.mem_singleton, exists_or, ← ihBefore,
      ← ihHeld, Enclosure.mk.injEq, exists_and_left, exists_eq_left]
    cases hoists with
    | true =>
      rw [Outline.front_block_true, Outline.body_block_true,
        encloses_append_iff follows.balanced.2.1, encloses_append_iff follows.balanced.2.2, block]
      grind only
    | false =>
      rw [Outline.front_block_false, Outline.body_block_false,
        encloses_append_iff follows.balanced.2.2, encloses_append_iff within.balanced.2.1, block]
      grind only

/-! ## Distances -/

/-- A strict layout goes on by the bytes that it puts out. -/
theorem Follows.cursor_eq {size : ExpandCall → Nat → Logged Nat} {start : Nat}
    (follows : Follows rules (.strict size) inside (some start) outline cursor)
    (fits : start < Numeral.wordBound) :
    cursor = some (start + byteCount outline.front + byteCount outline.body) := by
  obtain ⟨stop, known, -, contiguous⟩ := follows.contiguous fits
  have perm := (follows.tiles_perm.map Field.bytes).sum_nat
  rw [known, contiguous.sum, perm, ← byteCount, byteCount_append, Nat.add_assoc]

/-- The marker of a container takes all its bytes. -/
theorem Contains.byteCount_inner {packed : Packed} {group : BitGroup}
    (contains : Contains rules packed group) (places : Places sizing cursor packed.toCell next) :
    byteCount (.field packed.marker :: packed.members.map fun member => .field member.result) =
      packed.result.bytes := by
  obtain ⟨bytes, -, -, packs⟩ := contains.packs
  have marker := contains.marker_role places
  have members := byteFields_map_of_bitField Placed.result
    fun member hmember => (packs.role_eq member hmember).2
  rw [byteCount, byteFields_cons_of_byte (.inl marker), members, contains.marker]
  simp [containerMarker, Field.bytes]

theorem Follows.distance {size : ExpandCall → Nat → Logged Nat} {start : Nat}
    (follows : Follows rules (.strict size) inside (some start) outline cursor)
    (fits : start < Numeral.wordBound) : ∀ enclosure ∈ outline.enclosures, ∃ start,
      enclosure.opening.offset = some start ∧ enclosure.closing.offset =
        some (start + byteCount enclosure.inner + byteCount enclosure.moved) := by
  generalize hsizing : Sizing.strict size = sizing at follows
  generalize hstart : some start = first at follows
  induction follows generalizing start with
  | nil => simp [Outline.enclosures]
  | mark _ _ ih => exact ih fits hstart
  | byte _ _ _ ih => exact ih fits hstart
  | @pack _ _ _ _ _ packed _ follows places contains _ closed ih =>
    subst hsizing hstart
    obtain ⟨middle, rfl, fits_middle, -⟩ := follows.contiguous fits
    obtain ⟨offset, bytes, rfl, -, -, here, length, -⟩ := places.strict
    refine List.forall_mem_append.2 ⟨ih fits rfl, List.forall_mem_singleton.2 ⟨offset, ?_, ?_⟩⟩
    · rw [contains.opening]
      exact here
    · rw [contains.byteCount_inner places, Field.bytes_eq length, closed]
      rfl
  | @block _ _ _ _ _ _ inner _ _ follows opens within ends ihBefore ihInner =>
    subst hsizing hstart
    obtain ⟨middle, rfl, fits_middle, -⟩ := follows.contiguous fits
    refine List.forall_mem_append.2 ⟨List.forall_mem_append.2 ⟨ihBefore fits rfl,
      ihInner fits_middle rfl⟩, List.forall_mem_singleton.2 ⟨middle, ?_, ?_⟩⟩
    · rw [opens.result]
    · rw [ends.result]
      exact (within.cursor_eq fits_middle).trans (congrArg some (Nat.add_right_comm ..))

/-- The brackets of a structure in a strict layout are apart by the bytes between them and those
that went to the front of it, so they tell its size just if no bytes of it went to the front. -/
theorem ofEntries_extents {size : ExpandCall → Nat → Logged Nat} {names pool : NamePool}
    {entries : List Entry} {layout : Layout}
    (h : (ofEntries rules (.strict size) names entries).outcome = .ok (layout, pool)) :
    ∃ outline : Outline, outline.source = entries ∧ outline.body = layout.entries ∧
      Follows rules (.strict size) false (some 0) outline layout.size ∧
      (∀ opening inner closing, Encloses layout.entries opening inner closing ↔
        ∃ moved, ⟨opening, moved, inner, closing⟩ ∈ outline.enclosures) ∧
      (∀ enclosure ∈ outline.enclosures, ∃ start, enclosure.opening.offset = some start ∧
        enclosure.closing.offset =
          some (start + byteCount enclosure.inner + byteCount enclosure.moved)) ∧
      (ExtentsAreSizes layout.entries ↔
        ∀ enclosure ∈ outline.enclosures, byteCount enclosure.moved = 0) := by
  obtain ⟨outline, source, body, follows⟩ := exists_outline h
  have distance := follows.distance (by decide)
  have encloses : ∀ opening inner closing, Encloses layout.entries opening inner closing ↔
      ∃ moved, ⟨opening, moved, inner, closing⟩ ∈ outline.enclosures := by
    intro opening inner closing
    have there := @Follows.encloses_iff inner opening closing _ _ _ _ _ _ follows
    rwa [follows.front_eq_nil, body, or_iff_right (not_encloses (by simp))] at there
  refine ⟨outline, source, body, follows, encloses, distance, ?_⟩
  constructor
  · intro sizes enclosure henclosure
    obtain ⟨start, opened, closed⟩ := distance enclosure henclosure
    obtain ⟨start', opened', closed'⟩ := sizes _ _ _ ((encloses _ _ _).2 ⟨_, henclosure⟩)
    have same : start = start' := Option.some.inj (opened.symm.trans opened')
    have extent := Option.some.inj (closed.symm.trans closed')
    omega
  · intro none opening inner closing henclosed
    obtain ⟨moved, henclosure⟩ := (encloses _ _ _).1 henclosed
    obtain ⟨start, opened, closed⟩ := distance _ henclosure
    rw [none _ henclosure, Nat.add_zero] at closed
    exact ⟨start, opened, closed⟩

/-- A header structure of four bytes, first thing in a structure with two more. -/
def headerThenPins : List Entry :=
  [.field { name := "GPIO_CFG_DATA", role := .structOpen, line := 1 },
    .field { name := "CFGHDR_GPIO", role := .structOpen, line := 2, tag := some 0x400 },
    .field { name := "CFGHDR_TMPL", role := .plain, line := 3, expand := some ⟨"CFGHDR_TMPL", []⟩ },
    .field { name := "CFGHDR_GPIO", role := .structClose, line := 4 },
    .field { name := "Pins", role := .plain, line := 5, length := .fixed 2, value := some "0" },
    .field { name := "GPIO_CFG_DATA", role := .structClose, line := 6 }]

theorem headerThenPins_extents : ∃ layout pool,
    (ofEntries {} (.strict fun _ _ => pure 4) ⟨"Pad", [], 0⟩ headerThenPins).outcome =
      .ok (layout, pool) ∧
    ∃ outline : Outline, outline.source = headerThenPins ∧ outline.body = layout.entries ∧
      Follows {} (.strict fun _ _ => pure 4) false (some 0) outline layout.size ∧
      (∀ opening inner closing, Encloses layout.entries opening inner closing ↔
        ∃ moved, ⟨opening, moved, inner, closing⟩ ∈ outline.enclosures) ∧
      (∀ enclosure ∈ outline.enclosures, ∃ start, enclosure.opening.offset = some start ∧
        enclosure.closing.offset =
          some (start + byteCount enclosure.inner + byteCount enclosure.moved)) ∧
      (ExtentsAreSizes layout.entries ↔
        ∀ enclosure ∈ outline.enclosures, byteCount enclosure.moved = 0) := by
  have laid : (ofEntries {} (.strict fun _ _ => pure 4) ⟨"Pad", [], 0⟩
      headerThenPins).outcome.toOption.map (fun _ => ()) = some () := by decide +kernel
  obtain ⟨⟨layout, pool⟩, h, -⟩ := exists_eq_ok laid
  exact ⟨layout, pool, h, ofEntries_extents h⟩

/-- The structure still opens at the start of the header that was moved in front of it, and closes
behind both, so its brackets are six bytes apart with two between them. -/
theorem headerThenPins_not_extentsAreSizes : ∃ layout pool,
    (ofEntries {} (.strict fun _ _ => pure 4) ⟨"Pad", [], 0⟩ headerThenPins).outcome =
      .ok (layout, pool) ∧
    (∀ field ∈ headerThenPins.filterMap Entry.field?, field.role ≠ .padding) ∧
    (∃ opening pins closing, Encloses layout.entries opening [.field pins] closing ∧
      opening.offset = some 0 ∧ byteCount [.field pins] = 2 ∧ closing.offset = some 6) ∧
    ¬ExtentsAreSizes layout.entries := by
  have last : (ofEntries {} (.strict fun _ _ => pure 4) ⟨"Pad", [], 0⟩
      headerThenPins).outcome.toOption.map (fun result => result.1.entries.drop 3) =
        some [.field { name := "GPIO_CFG_DATA", role := .structOpen, line := 1, offset := some 0
                       tag := some 0x400 },
          .field { name := "Pins", role := .plain, line := 5, offset := some 4, length := .fixed 2
                   value := some "0" },
          .field { name := "GPIO_CFG_DATA", role := .structClose, line := 6
                   offset := some 6 }] := by
    decide +kernel
  obtain ⟨⟨layout, pool⟩, h, found⟩ := exists_eq_ok last
  have suffix := (layout.entries.drop_suffix 3).isInfix
  rw [found] at suffix
  have encloses : ∃ opening pins closing, Encloses layout.entries opening [.field pins] closing ∧
      opening.offset = some 0 ∧ byteCount [.field pins] = 2 ∧ closing.offset = some 6 :=
    ⟨_, _, _, ⟨suffix, rfl, rfl, .field (by decide) (by decide)⟩, rfl, rfl, rfl⟩
  refine ⟨layout, pool, h, by decide, encloses, fun sizes => ?_⟩
  obtain ⟨opening, pins, closing, henclosed, opened, bytes, closed⟩ := encloses
  obtain ⟨start, opened', closed'⟩ := sizes _ _ _ henclosed
  rw [bytes, closed] at closed'
  cases opened.symm.trans opened'
  cases closed'

end Layout
end BoardSchema
