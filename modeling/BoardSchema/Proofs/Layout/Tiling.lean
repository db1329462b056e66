import BoardSchema.Proofs.Layout.Reading
import Mathlib.Algebra.Ring.Nat
/-!
The byte fields of a strict layout tile its bytes. In the order in which they were declared, with
the padding that was put in, each one starts where the one before it ends.
-/
namespace BoardSchema

/-- An entry that takes bytes of its own. Brackets, page markers and bit members take none. -/
def Entry.byteField? : Entry → Option Field
  | .field f => if f.role = .plain ∨ f.role = .padding then some f else none
  | _ => none

def byteFields (entries : List Entry) : List Field := entries.filterMap Entry.byteField?

theorem mem_of_mem_byteFields {field : Field} {entries : List Entry}
    (h : field ∈ byteFields entries) : .field field ∈ entries := by
  obtain ⟨entry, hentry, found⟩ := List.mem_filterMap.1 h
  unfold Entry.byteField? at found
  split at found
  · split at found
    · cases found
      exact hentry
    · cases found
  · cases found

/-- The number of bytes of a field with a fixed length. -/
def Field.bytes (field : Field) : Nat := field.length.fixed?.getD 0

theorem Field.bytes_eq {field : Field} {n : Nat} (length : field.length = .fixed n) :
    field.bytes = n := by
  simp [bytes, length, Length.fixed?]

def Field.covers (byte : Nat) (field : Field) : Bool :=
  match field.offset, field.length with
  | some start, .fixed bytes => start ≤ byte && byte < start + bytes
  | _, _ => false

namespace Layout

/-- Byte fields that lie next to each other, from a first byte on. -/
inductive Contiguous : Nat → List Field → Nat → Prop
  | nil {start : Nat} : Contiguous start [] start
  | cons {start bytes stop : Nat} {field : Field} {rest : List Field}
      (offset : field.offset = some start) (length : field.length = .fixed bytes)
      (tail : Contiguous (start + bytes) rest stop) : Contiguous start (field :: rest) stop

namespace Contiguous

variable {start middle stop : Nat} {left right fields : List Field}

theorem le (h : Contiguous start fields stop) : start ≤ stop := by
  induction h with
  | nil => exact Nat.le_refl _
  | cons _ _ _ ih => omega

theorem append (h : Contiguous start left middle) (h' : Contiguous middle right stop) :
    Contiguous start (left ++ right) stop := by
  induction h with
  | nil => exact h'
  | cons offset length _ ih => exact .cons offset length (ih h')

theorem of_append (h : Contiguous start (left ++ right) stop) :
    ∃ middle, Contiguous start left middle ∧ Contiguous middle right stop := by
  induction left generalizing start with
  | nil => exact ⟨start, .nil, h⟩
  | cons field rest ih =>
    cases h with
    | cons offset length tail =>
      obtain ⟨middle, hleft, hright⟩ := ih tail
      exact ⟨middle, .cons offset length hleft, hright⟩

theorem bounds (h : Contiguous start fields stop) : ∀ field ∈ fields, ∃ offset length,
    field.offset = some offset ∧ field.length = .fixed length ∧ start ≤ offset ∧
      offset + length ≤ stop := by
  induction h with
  | nil => simp
  | cons offset length tail ih =>
    intro field hfield
    rcases List.mem_cons.1 hfield with rfl | hfield
    · exact ⟨_, _, offset, length, Nat.le_refl _, tail.le⟩
    · obtain ⟨there, bytes, hoffset, hlength, behind, before⟩ := ih field hfield
      exact ⟨there, bytes, hoffset, hlength, by omega, before⟩

theorem sum (h : Contiguous start fields stop) : stop = start + (fields.map Field.bytes).sum := by
  induction h with
  | nil => rfl
  | @cons start bytes stop field rest _ length _ ih =>
    rw [List.map_cons, List.sum_cons, field.bytes_eq length, ih]
    omega

/-- A byte between the ends lies in one of the fields, and any other byte in none. -/
theorem countP_covers (h : Contiguous start fields stop) (byte : Nat) :
    fields.countP (·.covers byte) = if start ≤ byte ∧ byte < stop then 1 else 0 := by
  induction h with
  | nil =>
    have outside : ∀ start : Nat, ¬(start ≤ byte ∧ byte < start) := fun _ => by omega
    simp [outside]
  | @cons start bytes stop field rest offset length tail ih =>
    have covers : field.covers byte = decide (start ≤ byte ∧ byte < start + bytes) := by
      simp [Field.covers, offset, length]
    have le := tail.le
    rw [List.countP_cons, ih, covers]
    by_cases before : start ≤ byte <;> by_cases inside : byte < start + bytes <;>
      by_cases behind : byte < stop <;> simp [before, inside, behind] <;> omega

end Contiguous

/-- The bytes of a cell: its padding and its field. -/
def Cell.tiles (cell : Cell) : List Field := cell.padding.toList ++ [cell.result]

/-- Byte fields are placed one after the other. A marker has a name that is not the one of its
container. -/
inductive Chain (sizing : Sizing) (start : Option Nat) : List Cell → Option Nat → Prop
  | nil : Chain sizing start [] start
  | cell {cells : List Cell} {cursor next : Option Nat} {cell : Cell} (name : String)
      (before : Chain sizing start cells cursor)
      (places : Places sizing cursor
        { cell with result := { cell.result with name } } next) :
      Chain sizing start (cells ++ [cell]) next

theorem Chain.append {sizing : Sizing} {start middle stop : Option Nat} {left right : List Cell}
    (h : Chain sizing start left middle) (h' : Chain sizing middle right stop) :
    Chain sizing start (left ++ right) stop := by
  induction h' with
  | nil => simpa using h
  | cell name _ places ih =>
    rw [← List.append_assoc]
    exact .cell name ih places

theorem Follows.chain {rules : Rules} {sizing : Sizing} {inside : Bool} {start cursor : Option Nat}
    {outline : Outline} (follows : Follows rules sizing inside start outline cursor) :
    Chain sizing start outline.cells cursor := by
  induction follows with
  | nil => exact .nil
  | mark _ _ ih => exact ih
  | @byte _ _ _ _ _ cell _ _ places ih => exact .cell cell.result.name ih places
  | @pack _ _ _ _ _ packed _ _ places contains _ _ ih =>
    refine .cell packed.result.name ih ?_
    rw [contains.marker]
    exact places
  | block _ _ _ _ ihBefore ihInner => exact ihBefore.append ihInner

/-! ## Byte fields of an outline -/

@[simp] theorem byteFields_nil : byteFields [] = [] := rfl

@[simp] theorem byteFields_append (left right : List Entry) :
    byteFields (left ++ right) = byteFields left ++ byteFields right :=
  List.filterMap_append ..

theorem byteFields_cons_of_byte {field : Field} (role : field.role = .plain ∨ field.role = .padding)
    (rest : List Entry) : byteFields (.field field :: rest) = field :: byteFields rest := by
  simp [byteFields, Entry.byteField?, role]

theorem byteFields_cons_of_not {entry : Entry} (none : entry.byteField? = none)
    (rest : List Entry) : byteFields (entry :: rest) = byteFields rest := by
  simp [byteFields, none]

/-- The brackets of a structure are no byte fields. -/
theorem byteFields_block {opening closing : Field} (opens : opening.role = .structOpen)
    (closes : closing.role = .structClose) (entries : List Entry) :
    byteFields (.field opening :: entries ++ [Entry.field closing]) = byteFields entries := by
  have opening_none : (Entry.field opening).byteField? = none := by simp [Entry.byteField?, opens]
  have closing_none : (Entry.field closing).byteField? = none := by simp [Entry.byteField?, closes]
  rw [byteFields_append, byteFields_cons_of_not opening_none, byteFields_cons_of_not closing_none,
    byteFields_nil, List.append_nil]

theorem Marks.byteField?_eq_none {cursor : Option Nat} {source result : Entry}
    (marks : Marks cursor source result) :
    source.byteField? = none ∧ result.byteField? = none := by
  cases marks with
  | action role => simp [Entry.byteField?, role]
  | includeOpen => exact ⟨rfl, rfl⟩
  | includeClose => exact ⟨rfl, rfl⟩

theorem byteFields_map_of_bitField (view : Placed → Field) {members : List Placed}
    (role : ∀ member ∈ members, (view member).role = .bitField) :
    byteFields (members.map fun member => .field (view member)) = [] := by
  rw [byteFields, List.filterMap_eq_nil_iff]
  intro entry hentry
  obtain ⟨member, hmember, rfl⟩ := List.mem_map.1 hentry
  simp [Entry.byteField?, role member hmember]

variable {rules : Rules} {sizing : Sizing} {inside : Bool} {start cursor next : Option Nat}
  {outline : Outline} {cell : Cell}

theorem Places.byteFields_gap (places : Places sizing cursor cell next) :
    byteFields cell.gap = cell.padding.toList := by
  cases h : cell.padding with
  | none => simp [Cell.gap, h]
  | some padding => simp [Cell.gap, h, byteFields, Entry.byteField?, places.padding_role h]

theorem byteFields_cell (role : cell.source.role = .plain ∨ cell.source.role = .padding)
    (places : Places sizing cursor cell next) : byteFields cell.entries = cell.tiles := by
  have role : cell.result.role = .plain ∨ cell.result.role = .padding := by rwa [places.role_eq]
  rw [Cell.entries, byteFields_append, places.byteFields_gap, byteFields_cons_of_byte role]
  rfl

/-- Of a container only the marker counts. -/
theorem byteFields_packed {packed : Packed} {group : BitGroup}
    (places : Places sizing cursor packed.toCell next) (contains : Contains rules packed group)
    (closing : packed.closing.role = .structClose) :
    byteFields packed.entries = ({ packed.toCell with result := packed.marker } : Cell).tiles := by
  have marker := contains.marker_role places
  have opening : (Entry.field packed.opening).byteField? = none := by
    simp [Entry.byteField?, contains.opening, containerOpening]
  obtain ⟨bytes, -, -, packs⟩ := contains.packs
  have members := byteFields_map_of_bitField Placed.result
    fun member hmember => (packs.role_eq member hmember).2
  rw [Packed.entries, Packed.start, byteFields_append, byteFields_append, places.byteFields_gap,
    byteFields_cons_of_not opening, byteFields_cons_of_byte (.inl marker), members]
  simp [Cell.tiles, byteFields, Entry.byteField?, closing]

theorem Follows.byteFields_source (follows : Follows rules sizing inside start outline cursor) :
    byteFields outline.source = outline.cells.map (·.source) := by
  induction follows with
  | nil => rfl
  | mark _ marks ih =>
    rw [Outline.source, byteFields_append, ih, byteFields_cons_of_not marks.byteField?_eq_none.1]
    simp [Outline.cells]
  | byte _ role _ ih =>
    rw [Outline.source, byteFields_append, ih, byteFields_cons_of_byte role]
    simp [Outline.cells]
  | pack _ _ contains _ _ ih =>
    obtain ⟨bytes, -, -, packs⟩ := contains.packs
    have members := byteFields_map_of_bitField Placed.source
      fun member hmember => (packs.role_eq member hmember).1
    rw [Outline.source, byteFields_append, ih,
      byteFields_cons_of_byte (.inl (role_of_isPlain contains.plain)), members]
    simp [Outline.cells]
  | block _ opens _ ends ihBefore ihInner =>
    rw [Outline.source, List.append_assoc, byteFields_append, byteFields_block opens.role ends.role,
      ihBefore, ihInner, Outline.cells, List.map_append]

theorem Follows.byteFields_stream (follows : Follows rules sizing inside start outline cursor) :
    byteFields outline.stream = outline.cells.flatMap Cell.tiles := by
  induction follows with
  | nil => rfl
  | mark _ marks ih =>
    rw [Outline.stream, byteFields_append, ih, byteFields_cons_of_not marks.byteField?_eq_none.2]
    simp [Outline.cells]
  | byte _ role places ih =>
    rw [Outline.stream, byteFields_append, ih, byteFields_cell role places]
    simp [Outline.cells]
  | pack _ places contains _ closing ih =>
    rw [Outline.stream, byteFields_append, ih,
      byteFields_packed places contains (by rw [closing]; rfl)]
    simp [Outline.cells]
  | block _ opens _ ends ihBefore ihInner =>
    rw [Outline.stream, List.append_assoc, byteFields_append,
      byteFields_block opens.result_role ends.result_role, ihBefore, ihInner, Outline.cells,
      List.flatMap_append]

/-- What was put out holds the bytes of the declared fields, in some order. -/
theorem Follows.tiles_perm (follows : Follows rules sizing inside start outline cursor) :
    (outline.cells.flatMap Cell.tiles).Perm (byteFields (outline.front ++ outline.body)) := by
  rw [← follows.byteFields_stream]
  exact (outline.front_append_body_perm.filterMap _).symm

/-! ## Strict sizing -/

/-- A field takes the bytes of the expansion that it stands for, or else those that it declares. -/
def Takes (size : ExpandCall → Nat → Logged Nat) (field : Field) (bytes : Nat) : Prop :=
  match field.expand with
  | some call => (size call field.line).outcome = .ok bytes
  | none => field.length = .fixed bytes

theorem extent_strict_eq_ok {size : ExpandCall → Nat → Logged Nat} {field : Field} {length : Length}
    {bytes : Option Nat} (h : (extent (.strict size) field).outcome = .ok (length, bytes)) :
    ∃ n, length = .fixed n ∧ bytes = some n ∧ Takes size field n := by
  unfold extent at h
  unfold Takes
  cases hexpand : field.expand with
  | some call =>
    simp only [hexpand] at h
    obtain ⟨n, hsize, h⟩ := Logged.outcome_bind_eq_ok.1 h
    cases h
    exact ⟨n, rfl, rfl, hsize⟩
  | none =>
    cases hlength : field.length with
    | fixed n =>
      simp only [hexpand, hlength] at h
      cases h
      exact ⟨n, rfl, rfl, rfl⟩
    | symbolic text =>
      simp only [hexpand, hlength] at h
      cases h

theorem advance_eq_ok {field : Field} {cursor bytes : Nat} {next : Option Nat}
    (h : advance field (some cursor) (some bytes) = .ok next) :
    next = some (cursor + bytes) ∧ cursor + bytes < Numeral.wordBound := by
  simp only [advance] at h
  split at h
  · next fits =>
    cases h
    exact ⟨rfl, fits⟩
  · cases h

/-- From a known cursor the padding reaches up to the start of the field. -/
theorem Seeks.contiguous {field : Field} {cursor : Nat} {start : Option Nat}
    {padding : Option Field} (seeks : Seeks field (some cursor) padding start) :
    ∃ offset, start = some offset ∧ Contiguous cursor padding.toList offset := by
  cases seeks with
  | auto => exact ⟨cursor, rfl, .nil⟩
  | here => exact ⟨_, rfl, .nil⟩
  | @gap _ offset name _ ahead =>
    have reach : cursor + (offset - cursor) = offset := by omega
    have tail : Contiguous (cursor + (offset - cursor)) [] offset := by
      rw [reach]
      exact .nil
    exact ⟨offset, rfl, .cons rfl rfl tail⟩

theorem Places.strict {size : ExpandCall → Nat → Logged Nat} {cursor : Nat}
    (places : Places (.strict size) (some cursor) cell next) :
    ∃ offset bytes, next = some (offset + bytes) ∧ offset + bytes < Numeral.wordBound ∧
      Contiguous cursor cell.padding.toList offset ∧ cell.result.offset = some offset ∧
      cell.result.length = .fixed bytes ∧ Takes size cell.source bytes := by
  obtain ⟨start, length, seeks, extent, advance, result⟩ := places
  obtain ⟨offset, rfl, padding⟩ := seeks.contiguous
  obtain ⟨bytes, fixed, rfl, takes⟩ := extent_strict_eq_ok extent
  obtain ⟨rfl, fits⟩ := advance_eq_ok advance
  have here : cell.result.offset = some offset := by rw [result]
  exact ⟨offset, bytes, rfl, fits, padding, here, fixed, takes⟩

theorem Chain.kept {cells : List Cell} (chain : Chain sizing start cells cursor) :
    ∀ cell ∈ cells, cell.result = { cell.source with
      name := cell.result.name, offset := cell.result.offset, length := cell.result.length } := by
  induction chain with
  | nil => simp
  | @cell _ _ _ last name _ places ih =>
    intro cell hcell
    rcases List.mem_append.1 hcell with hcell | hcell
    · exact ih cell hcell
    · rw [List.mem_singleton.1 hcell]
      exact congrArg (fun field : Field => { field with name := last.result.name }) places.kept

theorem Chain.exists_paddingField {cells : List Cell} (chain : Chain sizing start cells cursor) :
    ∀ cell ∈ cells, ∀ padding, cell.padding = some padding →
      ∃ name offset gap line, padding = paddingField name offset gap line := by
  induction chain with
  | nil => simp
  | cell name _ places ih =>
    intro cell hcell padding hpadding
    rcases List.mem_append.1 hcell with hcell | hcell
    · exact ih cell hcell padding hpadding
    · rw [List.mem_singleton.1 hcell] at hpadding
      exact places.exists_paddingField hpadding

/-- In a strict layout every cursor is known. -/
theorem Chain.strict {size : ExpandCall → Nat → Logged Nat} {start : Nat} {cells : List Cell}
    (chain : Chain (.strict size) (some start) cells cursor) (fits : start < Numeral.wordBound) :
    ∃ bytes, cursor = some bytes ∧ bytes < Numeral.wordBound ∧
      Contiguous start (cells.flatMap Cell.tiles) bytes ∧
      ∀ cell ∈ cells, ∃ n, cell.result.length = .fixed n ∧ Takes size cell.source n := by
  induction chain with
  | nil => exact ⟨start, rfl, fits, .nil, by simp⟩
  | @cell cells _ _ last name _ places ih =>
    obtain ⟨middle, rfl, -, before, takes⟩ := ih
    obtain ⟨offset, n, rfl, fits, padding, here, fixed, last_takes⟩ := places.strict
    have tiles : Contiguous middle last.tiles (offset + n) := padding.append (.cons here fixed .nil)
    refine ⟨offset + n, rfl, fits, ?_, ?_⟩
    · rw [List.flatMap_append, List.flatMap_singleton]
      exact before.append tiles
    · intro cell hcell
      rcases List.mem_append.1 hcell with hcell | hcell
      · exact takes cell hcell
      · rw [List.mem_singleton.1 hcell]
        exact ⟨n, fixed, last_takes⟩

/-- The byte fields of a layout are those that were declared, placed one after the other. -/
theorem exists_chain {names pool : NamePool} {entries : List Entry} {layout : Layout}
    (h : (ofEntries rules sizing names entries).outcome = .ok (layout, pool)) :
    ∃ cells : List Cell, byteFields entries = cells.map (·.source) ∧
      (cells.flatMap Cell.tiles).Perm (byteFields layout.entries) ∧
      Chain sizing (some 0) cells layout.size := by
  obtain ⟨outline, source, body, follows⟩ := exists_outline h
  have perm := follows.tiles_perm
  rw [follows.front_eq_nil, List.nil_append, body] at perm
  have declared := follows.byteFields_source
  rw [source] at declared
  exact ⟨outline.cells, declared, perm, follows.chain⟩

/-- How the byte fields of a layout lie in its bytes. The cells are the declared byte fields. -/
structure Tiling (size : ExpandCall → Nat → Logged Nat) (entries : List Entry) (layout : Layout)
    (cells : List Cell) (bytes : Nat) : Prop where
  size_eq : layout.size = some bytes
  bytes_lt : bytes < Numeral.wordBound
  declared : byteFields entries = cells.map (·.source)
  perm : (cells.flatMap Cell.tiles).Perm (byteFields layout.entries)
  contiguous : Contiguous 0 (cells.flatMap Cell.tiles) bytes
  kept : ∀ cell ∈ cells, cell.result = { cell.source with
    name := cell.result.name, offset := cell.result.offset, length := cell.result.length }
  takes : ∀ cell ∈ cells, ∃ bytes, cell.result.length = .fixed bytes ∧ Takes size cell.source bytes

/-- A strict layout that succeeds is tiled by its byte fields: each has a place and a length, and
every byte of the layout lies in exactly one of them. -/
theorem ofEntries_tiling {size : ExpandCall → Nat → Logged Nat} {names pool : NamePool}
    {entries : List Entry} {layout : Layout}
    (h : (ofEntries rules (.strict size) names entries).outcome = .ok (layout, pool)) :
    ∃ cells bytes, Tiling size entries layout cells bytes ∧
      (∀ field ∈ byteFields layout.entries, ∃ offset length,
        field.offset = some offset ∧ field.length = .fixed length ∧ offset + length ≤ bytes) ∧
      ∀ byte, (byteFields layout.entries).countP (·.covers byte) =
        if byte < bytes then 1 else 0 := by
  obtain ⟨cells, declared, perm, chain⟩ := exists_chain h
  obtain ⟨bytes, size_eq, fits, contiguous, takes⟩ := chain.strict (by decide)
  refine ⟨cells, bytes, ?_, ?_, ?_⟩
  · exact ⟨size_eq, fits, declared, perm, contiguous, chain.kept, takes⟩
  · intro field hfield
    obtain ⟨offset, length, here, fixed, -, before⟩ :=
      contiguous.bounds field (perm.mem_iff.2 hfield)
    exact ⟨offset, length, here, fixed, before⟩
  · intro byte
    rw [← perm.countP_eq, contiguous.countP_covers]
    simp

/-- A container of two bytes with a member, then a call behind a gap. -/
def containerThenCall : List Entry :=
  [.field { name := "Flags", role := .plain, line := 1, length := .fixed 2 },
    .field { name := "Enable", role := .bitField, line := 2, length := .fixed 3 },
    .field { name := "Rest", role := .plain, line := 3, declaredOffset := .fixed 8
             expand := some ⟨"Tail", []⟩ }]

theorem containerThenCall_tiling : ∃ layout pool,
    (ofEntries {} (.strict fun _ _ => pure 4) ⟨"Pad", [], 0⟩ containerThenCall).outcome =
      .ok (layout, pool) ∧ layout.size = some 12 ∧
    ∃ cells bytes, Tiling (fun _ _ => pure 4) containerThenCall layout cells bytes ∧
      (∀ field ∈ byteFields layout.entries, ∃ offset length,
        field.offset = some offset ∧ field.length = .fixed length ∧ offset + length ≤ bytes) ∧
      ∀ byte, (byteFields layout.entries).countP (·.covers byte) =
        if byte < bytes then 1 else 0 := by
  have size : (ofEntries {} (.strict fun _ _ => pure 4) ⟨"Pad", [], 0⟩
      containerThenCall).outcome.toOption.map (·.1.size) = some (some 12) := by decide +kernel
  obtain ⟨⟨layout, pool⟩, h, size⟩ := exists_eq_ok size
  exact ⟨layout, pool, h, size, ofEntries_tiling h⟩

end Layout
end BoardSchema
