import BoardSchema.Proofs.Field.Unbroken
import BoardSchema.Proofs.Layout.Names
import BoardSchema.Proofs.Layout.Nesting
import BoardSchema.Proofs.Rules.Lines
/-!
Where the texts of a layout come from. All that is put out was declared, apart from padding and what
is made of the byte field of a container, and every declared field is put out with its metadata. So a
layout of texts of one line has texts of one line.
-/
namespace BoardSchema.Layout

/-- A field with what a layout fills in. -/
def Fills (source result : Field) : Prop :=
  result = { source with
    offset := result.offset, length := result.length, value := result.value, tag := result.tag
    bitOffset := result.bitOffset }

/-- What an entry that is put out is made of. -/
inductive Derives (rules : Rules) (declared : List Entry) : Entry → Prop
  | filled {source result : Field} (mem : .field source ∈ declared) (fills : Fills source result) :
      Derives rules declared (.field result)
  | includeOpen {path : String} (mem : .includeOpen path ∈ declared) :
      Derives rules declared (.includeOpen path)
  | includeClose : Derives rules declared .includeClose
  | padding (name : String) (cursor gap line : Nat) :
      Derives rules declared (.field (paddingField name cursor gap line))
  | opening {source container : Field} (mem : .field source ∈ declared)
      (fills : Fills source container) : Derives rules declared (.field (containerOpening container))
  | marker {source container : Field} (mem : .field source ∈ declared)
      (fills : Fills source container) :
      Derives rules declared (.field (containerMarker rules container))
  | closing {source container : Field} (mem : .field source ∈ declared)
      (fills : Fills source container) (line : Nat) (cursor : Option Nat) :
      Derives rules declared (.field (groupClosing container.name line cursor))

/-- A declared field next to one that shows its metadata. Only a byte field that bits are packed into
is put out under another name, that of markers. -/
structure Keeps (rules : Rules) (source result : Field) : Prop where
  role : result.role = source.role
  metadata : result.metadata = source.metadata
  expand : result.expand = source.expand
  name : result.name = source.name ∨ result.name = rules.bitGroupTag

variable {rules : Rules} {sizing : Sizing} {declared more : List Entry} {entry : Entry}
  {source result : Field} {cursor next : Option Nat}

/-! ## Filling in -/

theorem Fills.of_place (offset tag : Option Nat) : Fills source { source with offset, tag } := rfl

theorem Fills.keeps (fills : Fills source result) : Keeps rules source result := by
  rw [fills]
  exact ⟨rfl, rfl, rfl, .inl rfl⟩

theorem Places.fills {cell : Cell} (places : Places sizing cursor cell next) :
    Fills cell.source cell.result := by
  obtain ⟨offset, length, kept⟩ : ∃ offset length,
      cell.result = { cell.source with offset, length } := ⟨_, _, places.kept⟩
  rw [kept]
  rfl

theorem packMember_fills {group group' : BitGroup}
    (packed : packMember source group = .ok (result, group')) : Fills source result := by
  obtain ⟨offset, value, bitOffset, kept⟩ : ∃ offset value bitOffset,
      result = { source with offset, value, bitOffset } := ⟨_, _, _, (packMember_eq_ok packed).1⟩
  rw [kept]
  rfl

theorem Packs.fills {first group : BitGroup} {members : List Placed}
    (packs : Packs first members group) :
    ∀ member ∈ members, Fills member.source member.result := by
  induction packs with
  | nil => exact List.forall_mem_nil _
  | member _ _ packed ih =>
    exact List.forall_mem_append.2 ⟨ih, List.forall_mem_singleton.2 (packMember_fills packed)⟩

/-! ## What is put out -/

theorem Derives.mono (derives : Derives rules declared entry) (within : declared ⊆ more) :
    Derives rules more entry := by
  cases derives with
  | filled mem fills => exact .filled (within mem) fills
  | includeOpen mem => exact .includeOpen (within mem)
  | includeClose => exact .includeClose
  | padding name cursor gap line => exact .padding name cursor gap line
  | opening mem fills => exact .opening (within mem) fills
  | marker mem fills => exact .marker (within mem) fills
  | closing mem fills line cursor => exact .closing (within mem) fills line cursor

theorem Places.derives_gap {cell : Cell} (places : Places sizing cursor cell next) :
    ∀ entry ∈ cell.gap, Derives rules declared entry := by
  intro entry mem
  obtain ⟨padding, found, rfl⟩ := List.mem_map.1 mem
  obtain ⟨name, offset, gap, line, rfl⟩ := places.exists_paddingField (Option.mem_toList.1 found)
  exact .padding name offset gap line

theorem derives_packed {packed : Packed} {group : BitGroup}
    (places : Places sizing cursor packed.toCell next) (contains : Contains rules packed group)
    (closing : packed.closing = groupClosing packed.result.name packed.lastLine next) :
    ∀ entry ∈ packed.entries, Derives rules
      (.field packed.source :: packed.members.map fun member => .field member.source) entry := by
  obtain ⟨bytes, -, -, packs⟩ := contains.packs
  have fills := places.fills
  simp only [Packed.entries, Packed.start, contains.opening, contains.marker, closing,
    List.forall_mem_append, List.forall_mem_cons, List.forall_mem_map]
  refine ⟨⟨places.derives_gap, .opening List.mem_cons_self fills, .marker List.mem_cons_self fills,
    fun member mem => ?_⟩, .closing List.mem_cons_self fills _ _, List.forall_mem_nil _⟩
  exact .filled (List.mem_cons_of_mem _ (List.mem_map_of_mem mem)) (packs.fills member mem)

/-- All that is put out derives from declared entries. -/
theorem Follows.derives {inside : Bool} {start cursor : Option Nat} {outline : Outline}
    (follows : Follows rules sizing inside start outline cursor) :
    ∀ entry ∈ outline.stream, Derives rules outline.source entry := by
  induction follows with
  | nil => exact List.forall_mem_nil _
  | mark _ marks ih =>
    refine List.forall_mem_append.2 ⟨fun entry mem => (ih entry mem).mono
      (List.subset_append_left ..), List.forall_mem_singleton.2 ?_⟩
    cases marks with
    | action role => exact .filled (List.mem_append_right _ List.mem_cons_self) (.of_place _ _)
    | includeOpen => exact .includeOpen (List.mem_append_right _ List.mem_cons_self)
    | includeClose => exact .includeClose
  | byte _ _ places ih =>
    refine List.forall_mem_append.2 ⟨fun entry mem => (ih entry mem).mono
      (List.subset_append_left ..), List.forall_mem_append.2 ⟨places.derives_gap, ?_⟩⟩
    exact List.forall_mem_singleton.2
      (.filled (List.mem_append_right _ List.mem_cons_self) places.fills)
  | pack _ places contains _ closing ih =>
    exact List.forall_mem_append.2
      ⟨fun entry mem => (ih entry mem).mono (List.subset_append_left ..),
        fun entry mem => (derives_packed places contains closing entry mem).mono
          (List.subset_append_right ..)⟩
  | block _ opens _ ends ih ihInner =>
    have inner_within {before inner : List Entry} {opening closing : Entry} :
        inner ⊆ before ++ opening :: inner ++ [closing] := fun entry mem => by simp [mem]
    refine List.forall_mem_append.2 ⟨List.forall_mem_append.2 ⟨fun entry mem =>
      (ih entry mem).mono fun found here => by simp [Outline.source, here],
      List.forall_mem_cons.2 ⟨?_, fun entry mem => (ihInner entry mem).mono inner_within⟩⟩,
      List.forall_mem_singleton.2 ?_⟩
    · rw [opens.result]
      exact .filled (by simp [Outline.source]) (.of_place _ _)
    · rw [ends.result]
      exact .filled (by simp [Outline.source]) (.of_place _ _)

/-- Every declared field is put out with its metadata. -/
theorem Follows.exists_keeps {inside : Bool} {start cursor : Option Nat} {outline : Outline}
    (follows : Follows rules sizing inside start outline cursor)
    (mem : .field source ∈ outline.source) :
    ∃ result, .field result ∈ outline.stream ∧ Keeps rules source result := by
  induction follows with
  | nil => cases mem
  | mark _ marks ih =>
    rcases List.mem_append.1 mem with mem | mem
    · obtain ⟨result, found, keeps⟩ := ih mem
      exact ⟨result, List.mem_append_left _ found, keeps⟩
    · cases List.mem_singleton.1 mem
      cases marks with
      | action role =>
        exact ⟨_, List.mem_append_right _ List.mem_cons_self, (Fills.of_place _ _).keeps⟩
  | @byte _ _ _ _ _ cell _ _ places ih =>
    rcases List.mem_append.1 mem with mem | mem
    · obtain ⟨result, found, keeps⟩ := ih mem
      exact ⟨result, List.mem_append_left _ found, keeps⟩
    · cases List.mem_singleton.1 mem
      exact ⟨cell.result, by simp [Outline.stream, Cell.entries], places.fills.keeps⟩
  | @pack _ _ _ _ _ packed _ _ places contains _ _ ih =>
    rcases List.mem_append.1 mem with mem | mem
    · obtain ⟨result, found, keeps⟩ := ih mem
      exact ⟨result, List.mem_append_left _ found, keeps⟩
    · obtain ⟨bytes, -, -, packs⟩ := contains.packs
      rcases List.mem_cons.1 mem with same | mem
      · cases same
        have keeps : Keeps rules packed.source packed.result := places.fills.keeps
        refine ⟨packed.marker, by simp [Outline.stream, Packed.entries, Packed.start], ?_⟩
        rw [contains.marker]
        exact ⟨keeps.role, keeps.metadata, keeps.expand, .inr rfl⟩
      · obtain ⟨member, here, same⟩ := List.mem_map.1 mem
        cases same
        refine ⟨member.result, ?_, (packs.fills member here).keeps⟩
        simp only [Outline.stream, Packed.entries, Packed.start, List.mem_append, List.mem_cons,
          List.mem_map]
        exact .inr (.inl (.inr (.inr (.inr ⟨member, here, rfl⟩))))
  | @block _ _ _ _ _ before inner opening closing _ opens _ ends ih ihInner =>
    simp only [Outline.source, List.mem_append, List.mem_cons, List.not_mem_nil, or_false,
      Entry.field.injEq] at mem
    rcases mem with (mem | rfl | mem) | rfl
    · obtain ⟨result, found, keeps⟩ := ih mem
      exact ⟨result, by simp [Outline.stream, found], keeps⟩
    · refine ⟨opening.result, by simp [Outline.stream], ?_⟩
      rw [opens.result]
      exact (Fills.of_place _ _).keeps
    · obtain ⟨result, found, keeps⟩ := ihInner mem
      exact ⟨result, by simp [Outline.stream, found], keeps⟩
    · refine ⟨closing.result, by simp [Outline.stream], ?_⟩
      rw [ends.result]
      exact (Fills.of_place _ _).keeps

variable {names pool : NamePool} {entries : List Entry} {layout : Layout}

theorem exists_stream (h : (ofEntries rules sizing names entries).outcome = .ok (layout, pool)) :
    ∃ outline, outline.source = entries ∧ layout.entries.Perm outline.stream ∧
      Follows rules sizing false (some 0) outline layout.size := by
  obtain ⟨outline, source, body, follows⟩ := exists_outline h
  have perm := outline.front_append_body_perm
  rw [follows.front_eq_nil, List.nil_append, body] at perm
  exact ⟨outline, source, perm, follows⟩

theorem derives_ofEntries
    (h : (ofEntries rules sizing names entries).outcome = .ok (layout, pool)) :
    ∀ entry ∈ layout.entries, Derives rules entries entry := by
  obtain ⟨outline, rfl, perm, follows⟩ := exists_stream h
  exact fun entry mem => follows.derives entry (perm.subset mem)

theorem exists_keeps (h : (ofEntries rules sizing names entries).outcome = .ok (layout, pool))
    (mem : .field source ∈ entries) :
    ∃ result, .field result ∈ layout.entries ∧ Keeps rules source result := by
  obtain ⟨outline, rfl, perm, follows⟩ := exists_stream h
  obtain ⟨result, found, keeps⟩ := follows.exists_keeps mem
  exact ⟨result, perm.symm.subset found, keeps⟩

/-! ## Texts of one line -/

theorem oneLine_draw (stem : OneLine names.stem) (count : Nat) :
    ∀ name ∈ (names.draw count).1, OneLine name := by
  have drawn : (names.draw count).2.stem = names.stem ∧
      ∀ name ∈ (names.draw count).1, OneLine name := by
    induction count with
    | zero => exact ⟨rfl, List.forall_mem_nil _⟩
    | succ count ih =>
      obtain ⟨same, each⟩ := ih
      refine ⟨same, List.forall_mem_append.2 ⟨each, List.forall_mem_singleton.2 ?_⟩⟩
      exact OneLine.append_iff.2 ⟨same ▸ stem, .toString _⟩
  exact drawn.2

theorem Fills.unbroken (fills : Fills source result) (unbroken : source.Unbroken) :
    result.Unbroken := by
  rw [fills]
  exact ⟨unbroken.name, unbroken.expand⟩

/-- Padding aside, what is put out is of one line if all that was declared is. -/
theorem Derives.unbroken (derives : Derives rules declared entry) (tag : OneLine rules.bitGroupTag)
    (each : ∀ entry ∈ declared, entry.Unbroken)
    (padding : ∀ field, entry = .field field → field.role = .padding → OneLine field.name) :
    entry.Unbroken := by
  cases derives with
  | filled mem fills => exact fills.unbroken (each _ mem)
  | includeOpen mem => exact each _ mem
  | includeClose => trivial
  | padding name cursor gap line => exact ⟨padding _ rfl rfl, nofun⟩
  | opening mem fills => exact ⟨(fills.unbroken (each _ mem)).name, nofun⟩
  | marker mem fills => exact ⟨tag, (fills.unbroken (each _ mem)).expand⟩
  | closing mem fills line cursor => exact ⟨(fills.unbroken (each _ mem)).name, nofun⟩

/-- A layout of texts of one line has texts of one line. -/
theorem unbroken_ofEntries (unpadded : Unpadded entries) (tag : OneLine rules.bitGroupTag)
    (stem : OneLine names.stem) (each : ∀ entry ∈ entries, entry.Unbroken)
    (h : (ofEntries rules sizing names entries).outcome = .ok (layout, pool)) :
    ∀ entry ∈ layout.entries, entry.Unbroken := by
  obtain ⟨count, perm⟩ := ofEntries_draws unpadded h
  intro entry mem
  refine (derives_ofEntries h entry mem).unbroken tag each fun field same role => ?_
  subst same
  have byte : field ∈ byteFields layout.entries :=
    List.mem_filterMap.2 ⟨_, mem, by simp [Entry.byteField?, role]⟩
  have padded : field ∈ paddings layout.entries := List.mem_filter.2 ⟨byte, by simpa using role⟩
  exact oneLine_draw stem count _ (perm.subset (List.mem_map_of_mem padded))

end BoardSchema.Layout
