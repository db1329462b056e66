import BoardSchema.Proofs.Layout.Faults
import BoardSchema.Proofs.Layout.Lenient
import BoardSchema.Proofs.Layout.Order
import BoardSchema.Proofs.Layout.UnderWay
import Mathlib.Data.List.Induction
/-!
Padding fills the gaps before explicit offsets and stands nowhere else. An offset behind what has been
placed before its field is the one thing that a strict layout refuses as a regression, apart from
what the size of an expansion fails with.
-/
namespace BoardSchema.Layout

/-- What stops a strict layout at a byte field with a regression: its offset lies behind the bytes
that are placed before it, or the size of its expansion is not found for such a reason. -/
inductive Regresses (size : ExpandCall → Nat → Logged Nat) (placed : Nat) (field : Field) :
    CompileError → Prop
  | behind {offset : Nat} (declared : field.declaredOffset = .fixed offset)
      (behind : offset < placed) :
      Regresses size placed field (.offsetRegression field.line field.name offset placed)
  | inside {call : ExpandCall} {line offset cursor : Nat} {name : String}
      (ahead : ∀ declared, field.declaredOffset = .fixed declared → placed ≤ declared)
      (expand : field.expand = some call)
      (failed : (size call field.line).outcome =
        .error (.offsetRegression line name offset cursor)) :
      Regresses size placed field (.offsetRegression line name offset cursor)

/-- A byte field that is placed behind so many bytes: at its own offset with padding up to there, or
else right there. -/
structure PlacedBehind (placed : Nat) (cell : Cell) : Prop where
  auto : cell.source.declaredOffset = .auto →
    cell.padding = none ∧ cell.result.offset = some placed
  fixed : ∀ offset, cell.source.declaredOffset = .fixed offset →
    placed ≤ offset ∧ cell.result.offset = some offset ∧
      (placed = offset → cell.padding = none) ∧
      (placed < offset → ∃ padding, cell.padding = some padding ∧ padding.role = .padding ∧
        padding.offset = some placed ∧ padding.length = .fixed (offset - placed))

/-- A byte field is put out behind its padding as it is, or as the marker of a container that opens
there. -/
def PutOut (rules : Rules) (cell : Cell) (entries : List Entry) : Prop :=
  cell.result.name = cell.source.name ∧ cell.entries <:+: entries ∨
    cell.result.name = rules.bitGroupTag ∧ cell.gap ++
      [.field (containerOpening { cell.result with name := cell.source.name }),
        .field cell.result] <:+: entries

def paddings (entries : List Entry) : List Field :=
  (byteFields entries).filter fun field => field.role = .padding

/-- Cells that are put out behind all the padding there is. -/
structure Padded (rules : Rules) (cells : List Cell) (entries : List Entry) : Prop where
  behind : ∀ before cell after, cells = before ++ cell :: after →
    PlacedBehind ((before.flatMap Cell.tiles).map Field.bytes).sum cell
  putOut : ∀ cell ∈ cells, PutOut rules cell entries
  perm : (cells.flatMap (·.padding.toList)).Perm (paddings entries)
  nodup : (paddings entries).Nodup

variable {rules : Rules} {sizing : Sizing} {size : ExpandCall → Nat → Logged Nat}
  {line offset cursor : Nat} {name : String}

/-! ## Regressions -/

theorem seek_isOk {field : Field} {state : State} {placed : Nat}
    (known : state.cursor = some placed)
    (ahead : ∀ declared, field.declaredOffset = .fixed declared → placed ≤ declared) :
    ∃ next, seek field state = .ok next := by
  cases h : seek field state with
  | ok next => exact ⟨next, rfl⟩
  | error error =>
    obtain ⟨offset, cursor, declared, there, behind, -⟩ := seek_eq_error_iff.1 h
    cases known.symm.trans there
    have := ahead offset declared
    omega

theorem extent_eq_regression {field : Field} :
    (extent (.strict size) field).outcome = .error (.offsetRegression line name offset cursor) ↔
      ∃ call, field.expand = some call ∧ (size call field.line).outcome =
        .error (.offsetRegression line name offset cursor) := by
  unfold extent
  cases hexpand : field.expand with
  | some call =>
    simp only [Option.some.injEq, exists_eq_left']
    rw [Logged.outcome_bind_eq_error]
    simp
  | none => cases hlength : field.length <;> simp

/-- Placing a byte field fails with a regression just where its offset lies behind the cursor or its
size does so. -/
theorem place_eq_regression_iff {field : Field} {state : State} {placed : Nat}
    (known : state.cursor = some placed) :
    (place (.strict size) field state).outcome =
        .error (.offsetRegression line name offset cursor) ↔
      Regresses size placed field (.offsetRegression line name offset cursor) := by
  unfold place
  constructor
  · intro h
    rcases Logged.outcome_bind_eq_error.1 h with failed | ⟨sought, hseek, h⟩
    · obtain ⟨declared, there, fixed, found, behind, error⟩ := seek_eq_error_iff.1 failed
      cases known.symm.trans found
      rw [error]
      exact .behind fixed behind
    · rcases Logged.outcome_bind_eq_error.1 h with failed | ⟨found, -, h⟩
      · obtain ⟨call, expand, failed⟩ := extent_eq_regression.1 failed
        refine .inside (fun declared fixed => ?_) expand failed
        by_contra behind
        simp [seek, fixed, known, Nat.lt_of_not_le behind] at hseek
      · rcases Logged.outcome_bind_eq_error.1 h with failed | ⟨next, -, h⟩
        · obtain ⟨detail, error⟩ := advance_eq_error failed
          cases error
        · cases h
  · intro regresses
    cases regresses with
    | behind fixed behind =>
      refine Logged.outcome_bind_eq_error.2 (.inl ?_)
      exact seek_eq_error_iff.2 ⟨_, _, fixed, known, behind, rfl⟩
    | inside ahead expand failed =>
      obtain ⟨next, hseek⟩ := seek_isOk known ahead
      refine Logged.outcome_bind_eq_error.2 (.inr ⟨next, hseek, ?_⟩)
      exact Logged.outcome_bind_eq_error.2 (.inl (extent_eq_regression.2 ⟨_, expand, failed⟩))

@[simp] theorem cursor_closeGroup (state : State) : (closeGroup state).cursor = state.cursor := by
  unfold closeGroup
  split
  · rfl
  · simp

/-- A step fails with a regression at byte fields only. -/
theorem step_eq_regression_iff {state : State} {entry : Entry} {placed : Nat}
    (known : state.cursor = some placed) :
    (step rules (.strict size) state entry).outcome =
        .error (.offsetRegression line name offset cursor) ↔
      ∃ field, entry = .field field ∧ (field.role = .plain ∨ field.role = .padding) ∧
        Regresses size placed field (.offsetRegression line name offset cursor) := by
  cases entry with
  | includeOpen path => simp [step]
  | includeClose =>
    simp only [step, reduceCtorEq, false_and, exists_false, iff_false]
    split <;> simp
  | field field =>
    have byte : (place (.strict size) field (closeGroup { state with lastLine := field.line })).outcome
        = .error (.offsetRegression line name offset cursor) ↔
          Regresses size placed field (.offsetRegression line name offset cursor) :=
      place_eq_regression_iff (by simpa using known)
    simp only [step, addField, Entry.field.injEq, exists_eq_left']
    split
    · next role =>
      have other : bitMember rules field { state with lastLine := field.line } ≠
          .error (.offsetRegression line name offset cursor) := fun h => by
        rcases bitMember_eq_error h with ⟨_, error⟩ | ⟨_, _, error⟩ <;> cases error
      simp [role, other]
    · next role => simp [role]
    · next role =>
      have other : closeStruct field (closeGroup { state with lastLine := field.line }) ≠
          .error (.offsetRegression line name offset cursor) := fun h => by
        cases closeStruct_eq_error h
      simp [role, other]
    · next role => simp [role]
    · next role => simp [role, byte]
    · next role => simp [role, byte]

/-- A strict layout fails with a regression just where the first of its byte fields does that is
behind what was put out before it. -/
theorem ofEntries_eq_regression_iff {names : NamePool} {entries : List Entry}
    (unpadded : Unpadded entries) :
    (ofEntries rules (.strict size) names entries).outcome =
        .error (.offsetRegression line name offset cursor) ↔
      ∃ before field after state, entries = before ++ .field field :: after ∧ field.role = .plain ∧
        (run rules (.strict size) { names } before).outcome = .ok state ∧
        Regresses size (placedBytes state.output) field
          (.offsetRegression line name offset cursor) := by
  constructor
  · intro h
    rcases Logged.outcome_bind_eq_error.1 h with failed | ⟨state, -, failed⟩
    · obtain ⟨before, entry, after, state, rfl, hrun, failed⟩ := run_eq_error failed
      obtain ⟨field, rfl, role, regresses⟩ :=
        (step_eq_regression_iff (cursor_eq_placedBytes hrun)).1 failed
      have plain : field.role = .plain := role.resolve_right (unpadded field (by simp))
      exact ⟨before, field, after, state, rfl, plain, hrun, regresses⟩
    · obtain ⟨_, _, error⟩ := finish_eq_error failed
      cases error
  · rintro ⟨before, field, after, state, rfl, plain, hrun, regresses⟩
    have failed : (step rules (.strict size) state (.field field)).outcome =
        .error (.offsetRegression line name offset cursor) :=
      (step_eq_regression_iff (cursor_eq_placedBytes hrun)).2 ⟨field, rfl, .inl plain, regresses⟩
    exact Logged.outcome_bind_eq_error.2 (.inl (run_eq_error_of_step hrun failed))

/-! ## Padding -/

variable {inside : Bool} {start next : Option Nat} {outline : Outline} {cell : Cell}

theorem Places.placedBehind {placed : Nat}
    (places : Places sizing (some placed) cell next) : PlacedBehind placed cell := by
  obtain ⟨start, bytes, seeks, -, -, result⟩ := places
  have there : cell.result.offset = start := congrArg Field.offset result
  obtain ⟨padding, hpadding⟩ : ∃ padding, cell.padding = padding := ⟨_, rfl⟩
  rw [hpadding] at seeks
  cases seeks with
  | auto auto =>
    refine ⟨fun _ => ⟨hpadding, there⟩, fun offset fixed => ?_⟩
    simp [auto] at fixed
  | here fixed =>
    refine ⟨fun auto => ?_, fun declared h => ?_⟩
    · simp [auto] at fixed
    · obtain rfl : placed = declared := by simpa [fixed] using h
      exact ⟨Nat.le_refl _, there, fun _ => hpadding, fun ahead => absurd ahead (Nat.lt_irrefl _)⟩
  | @gap _ offset name fixed ahead =>
    refine ⟨fun auto => ?_, fun declared h => ?_⟩
    · simp [auto] at fixed
    · obtain rfl : offset = declared := by simpa [fixed] using h
      refine ⟨Nat.le_of_lt ahead, there, fun here => absurd here (Nat.ne_of_lt ahead), fun _ => ?_⟩
      exact ⟨_, hpadding, rfl, rfl, rfl⟩

theorem PlacedBehind.bytes_ne_zero {placed : Nat} (behind : PlacedBehind placed cell)
    {padding : Field} (h : cell.padding = some padding) : padding.bytes ≠ 0 := by
  cases declared : cell.source.declaredOffset with
  | auto => simp [(behind.auto declared).1] at h
  | fixed offset =>
    obtain ⟨le, -, here, ahead⟩ := behind.fixed offset declared
    rcases Nat.eq_or_lt_of_le le with same | lt
    · simp [here same] at h
    · obtain ⟨found, hfound, -, -, length⟩ := ahead lt
      obtain rfl : padding = found := Option.some.inj (h.symm.trans hfound)
      rw [Field.bytes_eq length]
      omega

/-- A chain can be cut behind any of its cells. -/
theorem Chain.of_append {left right : List Cell} {stop : Option Nat}
    (chain : Chain sizing start (left ++ right) stop) :
    ∃ cursor, Chain sizing start left cursor := by
  -- Chains grow at the end, so cells are taken off there.
  induction right using List.reverseRecOn generalizing stop with
  | nil =>
    rw [List.append_nil] at chain
    exact ⟨stop, chain⟩
  | append_singleton right last ih =>
    rw [← List.append_assoc] at chain
    obtain ⟨cursor, -, before, -⟩ := chain.of_concat
    exact ih before

/-- In a strict layout each cell is placed behind the bytes of those before it. -/
theorem Chain.placedBehind {cells before after : List Cell} {stop : Option Nat}
    (chain : Chain (.strict size) (some 0) cells stop) (split : cells = before ++ cell :: after) :
    PlacedBehind ((before.flatMap Cell.tiles).map Field.bytes).sum cell := by
  have here : cells = (before ++ [cell]) ++ after := by simp [split]
  rw [here] at chain
  obtain ⟨_, upto⟩ := chain.of_append
  obtain ⟨cursor, name, chain_before, places⟩ := upto.of_concat
  obtain ⟨placed, rfl, -, contiguous, -⟩ := chain_before.strict (by decide)
  have sum := contiguous.sum
  rw [Nat.zero_add] at sum
  rw [← sum]
  -- The name of a marker plays no part in where it is placed.
  obtain ⟨auto, fixed⟩ := places.placedBehind
  exact ⟨auto, fixed⟩

theorem PutOut.mono {entries more : List Entry} (h : PutOut rules cell entries)
    (sub : entries <:+: more) : PutOut rules cell more :=
  h.imp (.imp_right (·.trans sub)) (.imp_right (·.trans sub))

/-- Each byte field keeps its neighbourhood, wherever the structure around it goes. -/
theorem Follows.putOut (follows : Follows rules sizing inside start outline next) :
    ∀ cell ∈ outline.cells, PutOut rules cell outline.front ∨ PutOut rules cell outline.body := by
  induction follows with
  | nil => simp [Outline.cells]
  | mark _ _ ih =>
    intro cell hcell
    exact (ih cell hcell).imp id (·.mono (List.prefix_append ..).isInfix)
  | @byte _ _ _ _ before last _ _ places ih =>
    intro cell hcell
    rcases List.mem_append.1 hcell with hcell | hcell
    · exact (ih cell hcell).imp id (·.mono (List.prefix_append ..).isInfix)
    · rw [List.mem_singleton.1 hcell]
      have name : last.result.name = last.source.name := by rw [places.kept]
      exact .inr (.inl ⟨name, (List.suffix_append ..).isInfix⟩)
  | @pack _ _ _ _ before packed _ _ places contains _ _ ih =>
    intro cell hcell
    rcases List.mem_append.1 hcell with hcell | hcell
    · exact (ih cell hcell).imp id (·.mono (List.prefix_append ..).isInfix)
    · rw [List.mem_singleton.1 hcell]
      have name : packed.source.name = packed.result.name := by rw [places.kept]
      refine .inr (.inr ⟨by rw [contains.marker]; rfl, ?_⟩)
      refine ⟨before.body, (packed.members.map fun member => .field member.result) ++
        [Entry.field packed.closing], ?_⟩
      simp [Outline.body, Packed.entries, Packed.start, Cell.gap, contains.opening,
        contains.marker, containerMarker, name]
  | @block _ hoists _ _ _ before inner opening closing _ _ _ _ ihBefore ihInner =>
    intro cell hcell
    cases hoists with
    | true =>
      rw [Outline.front_block_true, Outline.body_block_true]
      rcases List.mem_append.1 hcell with hcell | hcell
      · exact (ihBefore cell hcell).imp (·.mono (List.prefix_append ..).isInfix)
          (·.mono (List.prefix_append ..).isInfix)
      -- What stays in a header goes to the front with it, and what is in front of it stays.
      · refine (ihInner cell hcell).symm.imp (·.mono ?_)
          (·.mono (List.suffix_append ..).isInfix)
        exact ⟨before.front ++ [Entry.field opening.result], [.field closing.result], by simp⟩
    | false =>
      rw [Outline.front_block_false, Outline.body_block_false]
      rcases List.mem_append.1 hcell with hcell | hcell
      · exact (ihBefore cell hcell).imp id (·.mono (List.prefix_append ..).isInfix)
      · rcases ihInner cell hcell with front | body
        · exact .inr (front.mono ⟨before.body, .field opening.result :: inner.body ++
            [Entry.field closing.result], by simp⟩)
        · exact .inr (body.mono ⟨before.body ++ inner.front ++ [Entry.field opening.result],
            [.field closing.result], by simp⟩)

/-- The padding among byte fields that are no padding themselves. -/
theorem filter_tiles {cells : List Cell} (plain : ∀ cell ∈ cells, cell.result.role ≠ .padding)
    (filled : ∀ cell ∈ cells, ∀ padding, cell.padding = some padding → padding.role = .padding) :
    (cells.flatMap Cell.tiles).filter (fun field => field.role = .padding) =
      cells.flatMap (·.padding.toList) := by
  induction cells with
  | nil => rfl
  | cons cell rest ih =>
    have tail := ih (fun cell hcell => plain cell (by simp [hcell]))
      (fun cell hcell => filled cell (by simp [hcell]))
    have here : cell.tiles.filter (fun field => field.role = .padding) = cell.padding.toList := by
      cases hpadding : cell.padding with
      | none => simp [Cell.tiles, hpadding, plain cell (by simp)]
      | some padding =>
        simp [Cell.tiles, hpadding, plain cell (by simp), filled cell (by simp) padding hpadding]
    rw [List.flatMap_cons, List.filter_append, here, tail, List.flatMap_cons]

/-- Padding that takes bytes does not stand twice among fields that lie next to each other. -/
theorem Contiguous.nodup {stop : Nat} {fields : List Field} (h : Contiguous 0 fields stop)
    (bytes : ∀ field ∈ fields, field.role = .padding → field.bytes ≠ 0) :
    (fields.filter fun field => field.role = .padding).Nodup := by
  have precedes := h.pairwise.filter (fun field => field.role = .padding)
  refine precedes.imp_of_mem fun {first later} hfirst _ precedes same => ?_
  -- A field that ends before it starts has no bytes.
  rw [← same] at precedes
  obtain ⟨hfirst, role⟩ := List.mem_filter.1 hfirst
  exact bytes first hfirst (by simpa using role) (precedes.bytes_eq_zero precedes)

/-- The byte fields of a strict layout stand behind the padding that they need. -/
theorem Follows.padded (follows : Follows rules (.strict size) false (some 0) outline next)
    (unpadded : Unpadded outline.source) : Padded rules outline.cells outline.body := by
  have chain := follows.chain
  obtain ⟨stop, rfl, -, contiguous⟩ := follows.contiguous (by decide)
  have plain : ∀ cell ∈ outline.cells, cell.result.role ≠ .padding := by
    intro cell hcell
    rw [chain.kept cell hcell]
    exact source_role_ne_padding unpadded follows.byteFields_source cell hcell
  have filled : ∀ cell ∈ outline.cells, ∀ padding, cell.padding = some padding →
      padding.role = .padding := by
    intro cell hcell padding hpadding
    obtain ⟨name, offset, gap, line, rfl⟩ := chain.exists_paddingField cell hcell padding hpadding
    rfl
  have tiles := follows.tiles_perm
  rw [follows.front_eq_nil, List.nil_append] at tiles
  have perm := tiles.filter fun field => field.role = .padding
  have bytes : ∀ field ∈ outline.cells.flatMap Cell.tiles, field.role = .padding →
      field.bytes ≠ 0 := by
    intro field hfield role
    obtain ⟨cell, hcell, hfield⟩ := List.mem_flatMap.1 hfield
    obtain ⟨before, after, split⟩ := List.append_of_mem hcell
    rcases List.mem_append.1 hfield with hpadding | hresult
    · exact (chain.placedBehind split).bytes_ne_zero (Option.mem_toList.1 hpadding)
    · rw [List.mem_singleton.1 hresult] at role
      exact absurd role (plain cell hcell)
  refine ⟨fun before cell after split => chain.placedBehind split, ?_, ?_, ?_⟩
  · intro cell hcell
    refine (follows.putOut cell hcell).resolve_left fun front => ?_
    rw [follows.front_eq_nil] at front
    rcases front with ⟨-, h⟩ | ⟨-, h⟩ <;> simp [Cell.entries] at h
  · rwa [filter_tiles plain filled] at perm
  · exact perm.nodup_iff.1 (contiguous.nodup bytes)

/-- A strict layout is refused with a regression just at an offset that lies behind what was placed
before. Otherwise each byte field has the place that it declares, or the next one, with padding
right before it over the gap up to there, and there is no other padding. -/
theorem ofEntries_padding {names : NamePool} {entries : List Entry} (unpadded : Unpadded entries) :
    (∀ line name offset cursor, (ofEntries rules (.strict size) names entries).outcome =
        .error (.offsetRegression line name offset cursor) ↔
      ∃ before field after state, entries = before ++ .field field :: after ∧ field.role = .plain ∧
        (run rules (.strict size) { names } before).outcome = .ok state ∧
        Regresses size (placedBytes state.output) field
          (.offsetRegression line name offset cursor)) ∧
    ∀ layout pool, (ofEntries rules (.strict size) names entries).outcome = .ok (layout, pool) →
      ∃ cells bytes, Tiling size entries layout cells bytes ∧
        Padded rules cells layout.entries := by
  refine ⟨fun line name offset cursor => ofEntries_eq_regression_iff unpadded, ?_⟩
  intro layout pool h
  obtain ⟨outline, rfl, body, follows⟩ := exists_outline h
  obtain ⟨bytes, size_eq, fits, contiguous, takes⟩ := follows.chain.strict (by decide)
  have perm := follows.tiles_perm
  rw [follows.front_eq_nil, List.nil_append, body] at perm
  have padded := follows.padded unpadded
  rw [body] at padded
  exact ⟨outline.cells, bytes, ⟨size_eq, fits, follows.byteFields_source, perm, contiguous,
    follows.chain.kept, takes⟩, padded⟩

/-- A gap before a container in a header structure, and one behind it. -/
def gapsInStructures : List Entry :=
  [.field { name := "BOARD", role := .structOpen, line := 1 },
    .field { name := "CFGHDR_TMPL", role := .structOpen, line := 2 },
    .field { name := "Flags", role := .plain, line := 3, declaredOffset := .fixed 4
             length := .fixed 1 },
    .field { name := "Enable", role := .bitField, line := 4, length := .fixed 3 },
    .field { name := "CFGHDR_TMPL", role := .structClose, line := 5 },
    .field { name := "Rest", role := .plain, line := 6, declaredOffset := .fixed 8
             length := .fixed 2 },
    .field { name := "BOARD", role := .structClose, line := 7 }]

theorem gapsInStructures_padding : Unpadded gapsInStructures ∧ ∃ layout pool,
    (ofEntries {} (.strict fun _ _ => pure 0) ⟨"Pad", [], 0⟩ gapsInStructures).outcome =
      .ok (layout, pool) ∧
    (byteFields layout.entries).map (fun field => (field.name, field.span)) =
      [("Pad0", some 0, .fixed 4), ("$STRUCT", some 4, .fixed 1), ("Pad1", some 5, .fixed 3),
        ("Rest", some 8, .fixed 2)] ∧
    ∃ cells bytes, Tiling (fun _ _ => pure 0) gapsInStructures layout cells bytes ∧
      Padded {} cells layout.entries := by
  have unpadded : Unpadded gapsInStructures := by simp [Unpadded, gapsInStructures]
  have view : (ofEntries {} (.strict fun _ _ => pure 0) ⟨"Pad", [], 0⟩
      gapsInStructures).outcome.toOption.map (fun result =>
        (byteFields result.1.entries).map fun field => (field.name, field.span)) = some
      [("Pad0", some 0, .fixed 4), ("$STRUCT", some 4, .fixed 1), ("Pad1", some 5, .fixed 3),
        ("Rest", some 8, .fixed 2)] := by
    decide +kernel
  obtain ⟨⟨layout, pool⟩, h, view⟩ := exists_eq_ok view
  exact ⟨unpadded, layout, pool, h, view, (ofEntries_padding unpadded).2 layout pool h⟩

end BoardSchema.Layout
