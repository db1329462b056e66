import BoardSchema.Proofs.Layout.Tiling
/-!
Whether the offsets of a strict layout are the sums of the lengths before them, in the order in
which the entries are put out. Header structures are put out before what was declared before them,
so this depends on what takes bytes there. It holds where no header structure that goes to the front
holds another one that does.
-/
namespace BoardSchema

/-- Each field starts at the sum of the lengths before it. -/
def OffsetsAreSums (fields : List Field) : Prop :=
  ∀ before field after, fields = before ++ field :: after →
    field.offset = some (before.map Field.bytes).sum

/-- The place of a field. -/
def Field.span (field : Field) : Option Nat × Length := (field.offset, field.length)

namespace Layout

/-- A place ends at or before the start of another one. -/
def Ahead (first later : Option Nat × Length) : Prop :=
  ∃ start bytes next, first = (some start, .fixed bytes) ∧ later.1 = some next ∧
    start + bytes ≤ next

def Precedes (first later : Field) : Prop := Ahead first.span later.span

theorem ahead_antisymm {a b : Option Nat × Length} (h : Ahead a b) (h' : Ahead b a) : a = b := by
  obtain ⟨start, bytes, next, rfl, hnext, le⟩ := h
  obtain ⟨start', bytes', next', rfl, hnext', le'⟩ := h'
  have here : start' = next := Option.some.inj hnext
  have there : start = next' := Option.some.inj hnext'
  have same : start = start' := by omega
  have empty : bytes = 0 := by omega
  have empty' : bytes' = 0 := by omega
  rw [same, empty, empty']

namespace Contiguous

variable {start stop : Nat} {fields tiles : List Field}

theorem pairwise (h : Contiguous start fields stop) : fields.Pairwise Precedes := by
  induction h with
  | nil => exact .nil
  | @cons start bytes stop field rest offset length tail ih =>
    refine .cons (fun later hlater => ?_) ih
    obtain ⟨next, _, there, _, behind, _⟩ := tail.bounds later hlater
    exact ⟨start, bytes, next, by rw [Field.span, offset, length], there, behind⟩

theorem congr (h : Contiguous start tiles stop)
    (same : tiles.map Field.span = fields.map Field.span) :
    Contiguous start fields stop := by
  induction h generalizing fields with
  | nil =>
    rw [List.map_nil] at same
    rw [List.map_eq_nil_iff.1 same.symm]
    exact .nil
  | cons offset length _ ih =>
    rw [List.map_cons] at same
    obtain ⟨field, rest, rfl, here, tail⟩ := List.map_eq_cons_iff.1 same.symm
    have offset' := (congrArg Prod.fst here).trans offset
    have length' := (congrArg Prod.snd here).trans length
    exact .cons offset' length' (ih tail.symm)

/-- What takes the places of contiguous fields is contiguous if it is in order. -/
theorem of_perm (h : Contiguous start tiles stop) (perm : tiles.Perm fields)
    (ordered : fields.Pairwise Precedes) : Contiguous start fields stop := by
  refine h.congr (List.Perm.eq_of_pairwise (fun _ _ _ _ => ahead_antisymm) ?_ ?_ (perm.map _))
  · exact List.pairwise_map.2 h.pairwise
  · exact List.pairwise_map.2 ordered

theorem offset_eq (h : Contiguous start fields stop) {before after : List Field} {field : Field}
    (split : fields = before ++ field :: after) :
    field.offset = some (start + (before.map Field.bytes).sum) := by
  rw [split] at h
  obtain ⟨middle, left, right⟩ := h.of_append
  rw [← left.sum]
  cases right with
  | cons offset _ _ => exact offset

theorem of_offsets (fixed : ∀ field ∈ fields, ∃ bytes, field.length = .fixed bytes)
    (sums : ∀ before field after, fields = before ++ field :: after →
      field.offset = some (start + (before.map Field.bytes).sum)) :
    ∃ stop, Contiguous start fields stop := by
  induction fields generalizing start with
  | nil => exact ⟨start, .nil⟩
  | cons field rest ih =>
    obtain ⟨bytes, length⟩ := fixed field (by simp)
    have offset : field.offset = some start := by simpa using sums [] field rest rfl
    have sums_rest : ∀ before later after, rest = before ++ later :: after →
        later.offset = some (start + bytes + (before.map Field.bytes).sum) := by
      intro before later after split
      have there := sums (field :: before) later after (by rw [split]; rfl)
      rw [there, List.map_cons, List.sum_cons, field.bytes_eq length, Nat.add_assoc]
    obtain ⟨stop, tail⟩ := ih (fun field hfield => fixed field (by simp [hfield])) sums_rest
    exact ⟨stop, .cons offset length tail⟩

end Contiguous

/-- Fields that take the places of contiguous ones have the sums as offsets just if they are in
order. -/
theorem offsetsAreSums_iff {stop : Nat} {tiles fields : List Field} (h : Contiguous 0 tiles stop)
    (perm : tiles.Perm fields) : OffsetsAreSums fields ↔ fields.Pairwise Precedes := by
  constructor
  · intro sums
    have fixed : ∀ field ∈ fields, ∃ bytes, field.length = .fixed bytes := by
      intro field hfield
      obtain ⟨_, bytes, _, length, _, _⟩ := h.bounds field (perm.mem_iff.2 hfield)
      exact ⟨bytes, length⟩
    have sums_from : ∀ before field after, fields = before ++ field :: after →
        field.offset = some (0 + (before.map Field.bytes).sum) := by
      intro before field after split
      rw [Nat.zero_add]
      exact sums before field after split
    obtain ⟨stop, contiguous⟩ := Contiguous.of_offsets fixed sums_from
    exact contiguous.pairwise
  · intro ordered before field after split
    have offset := (h.of_perm perm ordered).offset_eq split
    rwa [Nat.zero_add] at offset

/-! ## What is moved -/

/-- The byte fields in the order in which they were declared, each with whether it goes in front of
the structure that the outline stands in. What goes to the front takes along what stays in it, but
not what went to the front of it in turn. -/
def Outline.parts (ahead : Bool) : Outline → List (Bool × Field)
  | nil => []
  | mark before _ _ => before.parts ahead
  | byte before cell => before.parts ahead ++ cell.tiles.map (ahead, ·)
  | pack before packed => before.parts ahead ++
      ({ packed.toCell with result := packed.marker } : Cell).tiles.map (ahead, ·)
  | block before hoists _ inner _ => before.parts ahead ++
      if hoists then inner.parts !ahead else (inner.cells.flatMap Cell.tiles).map (ahead, ·)

/-- What stays is not followed by anything that goes to the front, unless neither takes bytes. -/
def InOrder (parts : List (Bool × Field)) : Prop :=
  parts.Pairwise fun first later => first.1 = false → later.1 = true →
    first.2.bytes = 0 ∧ later.2.bytes = 0

/-- Each structure that stays in its place has its parts in order. -/
def Outline.Settled : Outline → Prop
  | nil => True
  | mark before _ _ => before.Settled
  | byte before _ => before.Settled
  | pack before _ => before.Settled
  | block before hoists _ inner _ =>
    before.Settled ∧ inner.Settled ∧ (hoists = false → InOrder (inner.parts false))

theorem map_snd_map (ahead : Bool) (fields : List Field) :
    (fields.map (ahead, ·)).map Prod.snd = fields := by
  rw [List.map_map]
  exact List.map_id _

theorem Outline.map_snd_parts (outline : Outline) (ahead : Bool) :
    (outline.parts ahead).map Prod.snd = outline.cells.flatMap Cell.tiles := by
  induction outline generalizing ahead with
  | nil => rfl
  | mark before _ _ ih => exact ih ahead
  | byte before cell ih =>
    rw [parts, List.map_append, ih, map_snd_map, cells, List.flatMap_append, List.flatMap_singleton]
  | pack before packed ih =>
    rw [parts, List.map_append, ih, map_snd_map, cells, List.flatMap_append, List.flatMap_singleton]
  | block before hoists _ inner _ ihBefore ihInner =>
    rw [parts, List.map_append, ihBefore, cells, List.flatMap_append]
    cases hoists with
    | true => rw [if_pos rfl, ihInner]
    | false => rw [if_neg Bool.false_ne_true, map_snd_map]

variable {rules : Rules} {sizing : Sizing} {inside : Bool} {start cursor : Option Nat}
  {outline : Outline}

theorem mem_map_pair {ahead moved : Bool} {field : Field} {fields : List Field} :
    (moved, field) ∈ fields.map (ahead, ·) ↔ moved = ahead ∧ field ∈ fields := by
  constructor
  · intro h
    obtain ⟨found, hfound, heq⟩ := List.mem_map.1 h
    cases heq
    exact ⟨rfl, hfound⟩
  · rintro ⟨rfl, h⟩
    exact List.mem_map.2 ⟨field, h, rfl⟩

/-- The parts that go to the front, and those that stay. -/
theorem Follows.mem_parts (follows : Follows rules sizing inside start outline cursor)
    (ahead moved : Bool) (field : Field) : (moved, field) ∈ outline.parts ahead ↔
      field ∈ byteFields (if moved = ahead then outline.body else outline.front) := by
  induction follows generalizing ahead with
  | nil => simp [Outline.parts, Outline.body, Outline.front]
  | mark _ marks ih =>
    rw [Outline.parts, ih, Outline.body, Outline.front]
    split
    · rw [byteFields_append, byteFields_cons_of_not marks.byteField?_eq_none.2]
      simp
    · rfl
  | byte _ role places ih =>
    rw [Outline.parts, List.mem_append, ih, mem_map_pair, Outline.body, Outline.front]
    split
    · next same => simp [byteFields_cell role places, same]
    · next different => simp [different]
  | pack _ places contains _ closing ih =>
    rw [Outline.parts, List.mem_append, ih, mem_map_pair, Outline.body, Outline.front]
    split
    · next same => simp [byteFields_packed places contains (by rw [closing]; rfl), same]
    · next different => simp [different]
  | @block _ hoists _ _ _ _ inner _ _ _ opens within ends ihBefore ihInner =>
    have block := byteFields_block opens.result_role ends.result_role inner.body
    rw [Outline.parts, List.mem_append, ihBefore]
    cases hoists with
    | true =>
      rw [if_pos rfl, ihInner, Outline.body_block_true, Outline.front_block_true]
      by_cases same : moved = ahead
      · have other : moved ≠ !ahead := by simp [same]
        rw [if_pos same, if_neg other, if_pos same, byteFields_append, List.mem_append]
      · have other : moved = !ahead := Bool.eq_not_of_ne same
        rw [if_neg same, if_pos other, if_neg same, byteFields_append _ (_ ++ _), block,
          List.mem_append]
    | false =>
      rw [if_neg Bool.false_ne_true, mem_map_pair, within.tiles_perm.mem_iff,
        Outline.body_block_false, Outline.front_block_false]
      by_cases same : moved = ahead
      · rw [if_pos same, if_pos same, byteFields_append _ (_ ++ _), byteFields_append _ (_ ++ _),
          block, List.mem_append, byteFields_append]
        simp [same]
      · simp [same]

/-! ## Parts in order -/

theorem Precedes.bytes_eq_zero {first later : Field} (h : Precedes first later)
    (h' : Precedes later first) : first.bytes = 0 := by
  obtain ⟨start, bytes, next, here, there, le⟩ := h
  obtain ⟨start', bytes', next', here', there', le'⟩ := h'
  have length : first.length = .fixed bytes := congrArg Prod.snd here
  have same : start = next' := Option.some.inj ((congrArg Prod.fst here).symm.trans there')
  have same' : start' = next := Option.some.inj ((congrArg Prod.fst here').symm.trans there)
  rw [first.bytes_eq length]
  omega

/-- A part that goes to the front starts where the others do, if only such parts without bytes and
parts without bytes come before it. -/
theorem offset_of_inOrder {start stop : Nat} {parts : List (Bool × Field)} {field : Field}
    (h : Contiguous start (parts.map Prod.snd) stop) (ordered : InOrder parts)
    (empty : ∀ part ∈ parts, part.1 = true → part.2.bytes = 0)
    (hfield : (true, field) ∈ parts) : field.offset = some start := by
  induction parts generalizing start with
  | nil => simp at hfield
  | cons part rest ih =>
    cases h with
    | @cons _ bytes _ _ _ offset length tail =>
      rcases List.mem_cons.1 hfield with heq | hrest
      · rw [← heq] at offset
        exact offset
      · obtain ⟨first, later⟩ := List.pairwise_cons.1 ordered
        have takes : part.2.bytes = 0 := by
          cases moves : part.1 with
          | true => exact empty part (by simp) moves
          | false => exact (first _ hrest moves rfl).1
        rw [Field.bytes_eq length] at takes
        rw [takes] at tail
        exact ih tail later (fun part hpart => empty part (by simp [hpart])) hrest

/-- Parts are in order if all that goes to the front ends before anything that stays starts. -/
theorem inOrder_iff {start stop : Nat} {parts : List (Bool × Field)}
    (h : Contiguous start (parts.map Prod.snd) stop) :
    InOrder parts ↔ ∀ first later, (true, first) ∈ parts → (false, later) ∈ parts →
      Precedes first later := by
  constructor
  · intro ordered
    induction parts generalizing start with
    | nil => simp
    | cons part rest ih =>
      intro first later hfirst hlater
      obtain ⟨inversions, ordered_rest⟩ := List.pairwise_cons.1 ordered
      have declared := h.pairwise
      rw [List.map_cons, List.pairwise_cons] at declared
      cases h with
      | @cons _ bytes _ _ _ offset length tail =>
        rcases List.mem_cons.1 hfirst with rfl | moved
        · rcases List.mem_cons.1 hlater with hpart | hlater
          · cases hpart
          · exact declared.1 later (List.mem_map.2 ⟨_, hlater, rfl⟩)
        · rcases List.mem_cons.1 hlater with rfl | hlater
          · -- All the parts between the two are empty, so the first one starts where this one does.
            have empty : ∀ part ∈ rest, part.1 = true → part.2.bytes = 0 :=
              fun other hother moves => (inversions other hother rfl moves).2
            have takes := (inversions (true, first) moved rfl rfl).1
            rw [Field.bytes_eq length] at takes
            rw [takes] at tail
            have there := offset_of_inOrder tail ordered_rest empty moved
            obtain ⟨_, n, _, fixed, -, -⟩ :=
              tail.bounds first (List.mem_map.2 ⟨_, moved, rfl⟩)
            have takes' := empty (true, first) moved rfl
            rw [Field.bytes_eq fixed] at takes'
            rw [takes'] at fixed
            have span : first.span = (some start, .fixed 0) := by
              rw [Field.span, there, fixed, Nat.add_zero]
            exact ⟨start, 0, start, span, offset, Nat.le_refl _⟩
          · exact ih tail ordered_rest first later moved hlater
  · intro cross
    have declared := List.pairwise_map.1 h.pairwise
    refine declared.imp_of_mem fun {part other} hpart hother precedes stays moves => ?_
    have back : Precedes other.2 part.2 := by
      refine cross other.2 part.2 ?_ ?_
      · rwa [← moves]
      · rwa [← stays]
    exact ⟨precedes.bytes_eq_zero back, back.bytes_eq_zero precedes⟩

/-! ## Layouts -/

theorem Follows.contiguous {size : ExpandCall → Nat → Logged Nat} {start : Nat}
    (follows : Follows rules (.strict size) inside (some start) outline cursor)
    (fits : start < Numeral.wordBound) : ∃ stop, cursor = some stop ∧ stop < Numeral.wordBound ∧
      Contiguous start (outline.cells.flatMap Cell.tiles) stop := by
  obtain ⟨stop, known, fits, contiguous, -⟩ := follows.chain.strict fits
  exact ⟨stop, known, fits, contiguous⟩

theorem Follows.mem_tiles (follows : Follows rules sizing inside start outline cursor)
    (field : Field) :
    field ∈ outline.cells.flatMap Cell.tiles ↔
      field ∈ byteFields outline.front ∨ field ∈ byteFields outline.body := by
  rw [follows.tiles_perm.mem_iff, byteFields_append, List.mem_append]

/-- What is declared later comes behind any of what was declared before. -/
theorem pairwise_append_iff {tiles left right : List Field}
    (declared : ∀ first ∈ tiles, ∀ later ∈ right, Precedes first later)
    (sub : ∀ field ∈ left, field ∈ tiles) :
    (left ++ right).Pairwise Precedes ↔ left.Pairwise Precedes ∧ right.Pairwise Precedes := by
  rw [List.pairwise_append]
  constructor
  · rintro ⟨hleft, hright, -⟩
    exact ⟨hleft, hright⟩
  · rintro ⟨hleft, hright⟩
    exact ⟨hleft, hright, fun first hfirst => declared first (sub first hfirst)⟩

/-- A byte field that is declared last comes behind all the others. -/
theorem Follows.pairwise_body_iff {size : ExpandCall → Nat → Logged Nat} {start : Nat}
    {before : Outline} {cell : Cell} {middle : Option Nat}
    (follows : Follows rules (.strict size) inside (some start) outline cursor)
    (fits : start < Numeral.wordBound)
    (earlier : Follows rules (.strict size) inside (some start) before middle)
    (cells : outline.cells = before.cells ++ [cell])
    (body : byteFields outline.body = byteFields before.body ++ cell.tiles) :
    (byteFields outline.body).Pairwise Precedes ↔ (byteFields before.body).Pairwise Precedes := by
  obtain ⟨stop, -, -, contiguous⟩ := follows.contiguous fits
  have declared := contiguous.pairwise
  rw [cells, List.flatMap_append, List.flatMap_singleton, List.pairwise_append] at declared
  have sub : ∀ field ∈ byteFields before.body, field ∈ before.cells.flatMap Cell.tiles :=
    fun field hfield => (earlier.mem_tiles field).2 (.inr hfield)
  rw [body, pairwise_append_iff declared.2.2 sub]
  exact and_iff_left declared.2.1

/-- What is put out of an outline is in order, in front and inside, just if it is settled. -/
theorem Follows.pairwise_iff {size : ExpandCall → Nat → Logged Nat} {start : Nat}
    (follows : Follows rules (.strict size) inside (some start) outline cursor)
    (fits : start < Numeral.wordBound) :
    (byteFields outline.front).Pairwise Precedes ∧ (byteFields outline.body).Pairwise Precedes ↔
      outline.Settled := by
  generalize hsizing : Sizing.strict size = sizing at follows
  generalize hstart : some start = first at follows
  induction follows generalizing start with
  | nil => simp [Outline.front, Outline.body, Outline.Settled]
  | @mark _ _ _ before source result _ marks ih =>
    have body : byteFields (Outline.mark before source result).body = byteFields before.body := by
      rw [Outline.body, byteFields_append, byteFields_cons_of_not marks.byteField?_eq_none.2,
        byteFields_nil, List.append_nil]
    rw [body]
    exact ih fits hstart
  | byte follows role places ih =>
    subst hsizing hstart
    rw [Outline.front, (Follows.byte follows role places).pairwise_body_iff fits follows rfl
      (by rw [Outline.body, byteFields_append, byteFields_cell role places])]
    exact ih fits rfl
  | pack follows places contains members_ne closing ih =>
    subst hsizing hstart
    have packed := byteFields_packed places contains (by rw [closing]; rfl)
    rw [Outline.front, (Follows.pack follows places contains members_ne closing).pairwise_body_iff
      fits follows rfl (by rw [Outline.body, byteFields_append, packed])]
    exact ih fits rfl
  | @block _ hoists _ _ _ before inner opening closing follows opens within ends ihBefore ihInner =>
    subst hsizing hstart
    obtain ⟨stop, -, -, whole⟩ := (Follows.block follows opens within ends).contiguous fits
    have declared := whole.pairwise
    rw [Outline.cells, List.flatMap_append, List.pairwise_append] at declared
    obtain ⟨middle, rfl, fits_middle, -⟩ := follows.contiguous fits
    obtain ⟨_, -, -, contiguous⟩ := within.contiguous fits_middle
    have sub_front : ∀ field ∈ byteFields before.front, field ∈ before.cells.flatMap Cell.tiles :=
      fun field hfield => (follows.mem_tiles field).2 (.inl hfield)
    have sub_body : ∀ field ∈ byteFields before.body, field ∈ before.cells.flatMap Cell.tiles :=
      fun field hfield => (follows.mem_tiles field).2 (.inr hfield)
    have cross_front : ∀ first ∈ before.cells.flatMap Cell.tiles,
        ∀ later ∈ byteFields inner.front, Precedes first later := fun first hfirst later hlater =>
      declared.2.2 first hfirst later ((within.mem_tiles later).2 (.inl hlater))
    have cross_body : ∀ first ∈ before.cells.flatMap Cell.tiles,
        ∀ later ∈ byteFields inner.body, Precedes first later := fun first hfirst later hlater =>
      declared.2.2 first hfirst later ((within.mem_tiles later).2 (.inr hlater))
    have cross : ∀ first ∈ before.cells.flatMap Cell.tiles,
        ∀ later ∈ byteFields inner.front ++ byteFields inner.body, Precedes first later :=
      fun first hfirst later hlater => (List.mem_append.1 hlater).elim
        (cross_front first hfirst later) (cross_body first hfirst later)
    have block := byteFields_block opens.result_role ends.result_role inner.body
    have settled_before := ihBefore fits rfl
    have settled_inner := ihInner fits_middle rfl
    cases hoists with
    | true =>
      -- The front and the body of `inner` go to different lists, so nothing is asked of the two.
      rw [Outline.front_block_true, Outline.body_block_true, byteFields_append _ (_ ++ _), block,
        byteFields_append, pairwise_append_iff cross_body sub_front,
        pairwise_append_iff cross_front sub_body, Outline.Settled, ← settled_before,
        ← settled_inner]
      simp only [Bool.true_eq_false, false_implies, and_true]
      exact and_and_and_comm.trans (and_congr Iff.rfl and_comm)
    | false =>
      -- Here the front of `inner` is put out before its body.
      have in_order : InOrder (inner.parts false) ↔ ∀ first ∈ byteFields inner.front,
          ∀ later ∈ byteFields inner.body, Precedes first later := by
        rw [← inner.map_snd_parts false] at contiguous
        rw [inOrder_iff contiguous]
        simp only [within.mem_parts, Bool.true_eq_false, if_false, if_true]
        exact ⟨fun h first hfirst later => h first later hfirst,
          fun h first later hfirst => h first hfirst later⟩
      rw [Outline.front_block_false, Outline.body_block_false, byteFields_append _ (_ ++ _),
        byteFields_append _ (_ ++ _), block, Outline.Settled, ← settled_before, ← settled_inner,
        in_order, pairwise_append_iff cross sub_body, List.pairwise_append]
      simp only [forall_const, and_assoc]

theorem Follows.offsetsAreSums_iff {size : ExpandCall → Nat → Logged Nat}
    (follows : Follows rules (.strict size) false (some 0) outline cursor) :
    OffsetsAreSums (byteFields outline.body) ↔ outline.Settled := by
  have fits : 0 < Numeral.wordBound := by decide
  obtain ⟨stop, -, -, contiguous⟩ := follows.contiguous fits
  have perm := follows.tiles_perm
  have ordered := follows.pairwise_iff fits
  rw [follows.front_eq_nil, List.nil_append] at perm
  rw [follows.front_eq_nil] at ordered
  rw [Layout.offsetsAreSums_iff contiguous perm, ← ordered]
  simp

/-- The offsets of a strict layout are the sums of the lengths before them just if the stream is
settled: no structure in its place has a part that stays before one that goes to the front, unless
neither takes bytes. -/
theorem ofEntries_offsetsAreSums_iff {size : ExpandCall → Nat → Logged Nat} {names pool : NamePool}
    {entries : List Entry} {layout : Layout}
    (h : (ofEntries rules (.strict size) names entries).outcome = .ok (layout, pool)) :
    ∃ outline : Outline, outline.source = entries ∧ outline.body = layout.entries ∧
      Follows rules (.strict size) false (some 0) outline layout.size ∧
      (OffsetsAreSums (byteFields layout.entries) ↔ outline.Settled) := by
  obtain ⟨outline, source, body, follows⟩ := exists_outline h
  refine ⟨outline, source, body, follows, ?_⟩
  rw [← body]
  exact follows.offsetsAreSums_iff

/-- A header structure right at the start of another one, both at the start of a structure. -/
def nestedHeaders : List Entry :=
  [.field { name := "BOARD", role := .structOpen, line := 1 },
    .field { name := "CFGHDR_A", role := .structOpen, line := 2 },
    .field { name := "CFGHDR_B", role := .structOpen, line := 3 },
    .field { name := "In", role := .plain, line := 4, length := .fixed 1 },
    .field { name := "CFGHDR_B", role := .structClose, line := 5 },
    .field { name := "Out", role := .plain, line := 6, length := .fixed 2 },
    .field { name := "CFGHDR_A", role := .structClose, line := 7 },
    .field { name := "BOARD", role := .structClose, line := 8 }]

theorem nestedHeaders_outline : ∃ layout pool,
    (ofEntries {} (.strict fun _ _ => pure 0) ⟨"Pad", [], 0⟩ nestedHeaders).outcome =
      .ok (layout, pool) ∧
    ∃ outline : Outline, outline.source = nestedHeaders ∧ outline.body = layout.entries ∧
      Follows {} (.strict fun _ _ => pure 0) false (some 0) outline layout.size ∧
      (OffsetsAreSums (byteFields layout.entries) ↔ outline.Settled) := by
  have laid : (ofEntries {} (.strict fun _ _ => pure 0) ⟨"Pad", [], 0⟩
      nestedHeaders).outcome.toOption.map (fun _ => ()) = some () := by decide +kernel
  obtain ⟨⟨layout, pool⟩, h, -⟩ := exists_eq_ok laid
  exact ⟨layout, pool, h, ofEntries_offsetsAreSums_iff h⟩

/-- What follows the inner header is put out before it, though it lies behind it. -/
theorem nestedHeaders_not_offsetsAreSums : ∃ layout pool,
    (ofEntries {} (.strict fun _ _ => pure 0) ⟨"Pad", [], 0⟩ nestedHeaders).outcome =
      .ok (layout, pool) ∧
    (∀ field ∈ nestedHeaders.filterMap Entry.field?, field.role ≠ .padding) ∧
    (byteFields layout.entries).map Field.offset = [some 1, some 0] ∧
    ¬OffsetsAreSums (byteFields layout.entries) := by
  have offsets : (ofEntries {} (.strict fun _ _ => pure 0) ⟨"Pad", [], 0⟩
      nestedHeaders).outcome.toOption.map (fun result =>
        (byteFields result.1.entries).map Field.offset) = some [some 1, some 0] := by
    decide +kernel
  obtain ⟨⟨layout, pool⟩, h, found⟩ := exists_eq_ok offsets
  refine ⟨layout, pool, h, by decide, found, ?_⟩
  intro sums
  obtain ⟨first, rest, split, offset, -⟩ := List.map_eq_cons_iff.1 found
  have start := sums [] first rest split
  rw [offset] at start
  cases start

/-! ## Headers that do not hold headers -/

/-- Nothing that goes to the front goes on from there. -/
def Outline.Unnested : Outline → Prop
  | nil => True
  | mark before _ _ => before.Unnested
  | byte before _ => before.Unnested
  | pack before _ => before.Unnested
  | block before hoists _ inner _ =>
    before.Unnested ∧ inner.Unnested ∧ (hoists = true → inner.front = [])

theorem atOpening_iff {entries : List Entry} : atOpening entries = true ↔
    entries = [] ∨ ∃ field, entries = [.field field] ∧ field.role = .padding := by
  unfold atOpening
  split <;> simp_all

theorem atOpening_of_append {left right : List Entry} (h : atOpening (left ++ right) = true) :
    atOpening left = true := by
  rw [atOpening_iff] at h ⊢
  rcases h with none | ⟨field, one, role⟩
  · exact .inl (List.append_eq_nil_iff.1 none).1
  · rcases List.append_eq_singleton_iff.1 one with ⟨none, -⟩ | ⟨one, -⟩
    · exact .inl none
    · exact .inr ⟨field, one, role⟩

theorem role_of_atOpening_concat {before : List Entry} {field : Field}
    (h : atOpening (before ++ [Entry.field field]) = true) : field.role = .padding := by
  rw [atOpening_iff] at h
  rcases h with none | ⟨padding, one, role⟩
  · cases (List.append_eq_nil_iff.1 none).2
  · rcases List.append_eq_singleton_iff.1 one with ⟨-, last⟩ | ⟨-, last⟩
    · cases last
      exact role
    · cases last

theorem eq_map_of_forall {ahead : Bool} {parts : List (Bool × Field)}
    (h : ∀ part ∈ parts, part.1 = ahead) : parts = (parts.map Prod.snd).map (ahead, ·) := by
  rw [List.map_map]
  refine (List.map_id parts).symm.trans (List.map_congr_left fun part hpart => ?_)
  rw [id, Function.comp, ← h part hpart]

theorem inOrder_append (ahead behind : List Field) :
    InOrder (ahead.map (true, ·) ++ behind.map (false, ·)) := by
  refine List.pairwise_append.2 ⟨?_, ?_, ?_⟩
  · rw [List.pairwise_map]
    exact List.pairwise_of_forall fun _ _ stays => nomatch stays
  · rw [List.pairwise_map]
    exact List.pairwise_of_forall fun _ _ _ moves => nomatch moves
  · rintro ⟨moved, first⟩ hfirst later - stays
    rw [(mem_map_pair.1 hfirst).1] at stays
    cases stays

/-- In a stream without padding, what goes to the front was declared before anything that stays. -/
theorem Follows.exists_parts_eq (follows : Follows rules sizing inside start outline cursor)
    (unpadded : ∀ cell ∈ outline.cells, cell.source.role ≠ .padding) (unnested : outline.Unnested) :
    ∃ ahead behind : List Field,
      outline.parts false = ahead.map (true, ·) ++ behind.map (false, ·) ∧
      (atOpening outline.body = true → behind = []) := by
  induction follows with
  | nil => exact ⟨[], [], rfl, fun _ => rfl⟩
  | mark _ _ ih =>
    obtain ⟨ahead, behind, parts, bare⟩ := ih unpadded unnested
    exact ⟨ahead, behind, parts, fun h => bare (atOpening_of_append h)⟩
  | @byte _ _ _ _ before cell _ _ places ih =>
    simp only [Outline.cells, List.forall_mem_append, List.forall_mem_singleton] at unpadded
    obtain ⟨ahead, behind, parts, -⟩ := ih unpadded.1 unnested
    refine ⟨ahead, behind ++ cell.tiles, ?_, fun h => ?_⟩
    · rw [Outline.parts, parts, List.map_append, List.append_assoc]
    · rw [Outline.body, Cell.entries, ← List.append_assoc] at h
      have role := role_of_atOpening_concat h
      rw [places.role_eq] at role
      exact absurd role unpadded.2
  | @pack _ _ _ _ before packed _ _ places contains _ closing ih =>
    simp only [Outline.cells, List.forall_mem_append, List.forall_mem_singleton] at unpadded
    obtain ⟨ahead, behind, parts, -⟩ := ih unpadded.1 unnested
    let cell : Cell := { packed.toCell with result := packed.marker }
    refine ⟨ahead, behind ++ cell.tiles, ?_, fun h => ?_⟩
    · rw [Outline.parts, parts, List.map_append, List.append_assoc]
    · rw [Outline.body, Packed.entries, ← List.append_assoc] at h
      have role := role_of_atOpening_concat h
      rw [closing] at role
      cases role
  | @block _ hoists _ _ _ before inner opening closing _ opens within ends ihBefore ihInner =>
    simp only [Outline.cells, List.forall_mem_append] at unpadded
    obtain ⟨ahead, behind, parts, bare⟩ := ihBefore unpadded.1 unnested.1
    cases hoists with
    | true =>
      have front : inner.front = [] := unnested.2.2 rfl
      have opening := opens.hoists_eq.symm
      simp only [Bool.and_eq_true] at opening
      have stays : ∀ part ∈ inner.parts true, part.1 = true := by
        rintro ⟨moved, field⟩ hpart
        rw [within.mem_parts] at hpart
        by_contra other
        simp [other, front] at hpart
      rw [bare opening.2] at parts
      refine ⟨ahead ++ (inner.parts true).map Prod.snd, [], ?_, fun _ => rfl⟩
      rw [Outline.parts, parts, if_pos rfl, List.map_append, ← eq_map_of_forall stays]
      simp
    | false =>
      refine ⟨ahead, behind ++ inner.cells.flatMap Cell.tiles, ?_, fun h => ?_⟩
      · rw [Outline.parts, parts, if_neg Bool.false_ne_true, List.map_append, List.append_assoc]
      · rw [Outline.body_block_false, ← List.append_assoc, ← List.append_assoc] at h
        have role := role_of_atOpening_concat h
        rw [ends.result_role] at role
        cases role

theorem Follows.settled_of_unnested (follows : Follows rules sizing inside start outline cursor)
    (unpadded : ∀ cell ∈ outline.cells, cell.source.role ≠ .padding) (unnested : outline.Unnested) :
    outline.Settled := by
  induction follows with
  | nil => trivial
  | mark _ _ ih => exact ih unpadded unnested
  | byte _ _ _ ih => exact ih (List.forall_mem_append.1 unpadded).1 unnested
  | pack _ _ _ _ _ ih => exact ih (List.forall_mem_append.1 unpadded).1 unnested
  | block _ _ within _ ihBefore ihInner =>
    obtain ⟨unpadded_before, unpadded_inner⟩ := List.forall_mem_append.1 unpadded
    obtain ⟨unnested_before, unnested_inner, -⟩ := unnested
    refine ⟨ihBefore unpadded_before unnested_before, ihInner unpadded_inner unnested_inner, ?_⟩
    intro _
    obtain ⟨ahead, behind, parts, -⟩ := within.exists_parts_eq unpadded_inner unnested_inner
    rw [parts]
    exact inOrder_append ahead behind

/-- In a stream without padding, offsets are the sums of the lengths before them as long as header
structures that go to the front hold no others that do. -/
theorem Follows.offsetsAreSums_of_unnested {size : ExpandCall → Nat → Logged Nat}
    (follows : Follows rules (.strict size) false (some 0) outline cursor)
    (unpadded : ∀ cell ∈ outline.cells, cell.source.role ≠ .padding) (unnested : outline.Unnested) :
    OffsetsAreSums (byteFields outline.body) :=
  follows.offsetsAreSums_iff.2 (follows.settled_of_unnested unpadded unnested)

end Layout
end BoardSchema
