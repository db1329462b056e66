import BoardSchema.Proofs.Layout.Tiling
/-!
A layout under way. After any part of a stream, what was put out so far holds the bytes of the fields
that were declared so far; a layout fails where the first of its steps does.
-/
namespace BoardSchema

/-- The number of bytes that entries take. -/
def placedBytes (entries : List Entry) : Nat := ((byteFields entries).map Field.bytes).sum

namespace Layout

variable {rules : Rules} {sizing : Sizing}

/-! ## Runs -/

theorem run_append (state : State) (left right : List Entry) :
    (run rules sizing state (left ++ right)).outcome =
      (run rules sizing state left).outcome >>= fun next => (run rules sizing next right).outcome := by
  induction left generalizing state with
  | nil => rfl
  | cons entry rest ih =>
    simp only [List.cons_append, run, Logged.outcome_bind, ih, bind_assoc]

/-- A run that fails does so at one of its entries. -/
theorem run_eq_error {state : State} {entries : List Entry} {error : CompileError}
    (h : (run rules sizing state entries).outcome = .error error) :
    ∃ before entry after next, entries = before ++ entry :: after ∧
      (run rules sizing state before).outcome = .ok next ∧
        (step rules sizing next entry).outcome = .error error := by
  induction entries generalizing state with
  | nil => cases h
  | cons entry rest ih =>
    rcases Logged.outcome_bind_eq_error.1 h with failed | ⟨stepped, hstep, failed⟩
    · exact ⟨[], entry, rest, state, rfl, rfl, failed⟩
    · obtain ⟨before, later, after, next, rfl, hrun, failed⟩ := ih failed
      refine ⟨entry :: before, later, after, next, rfl, ?_, failed⟩
      exact Logged.outcome_bind_eq_ok.2 ⟨stepped, hstep, hrun⟩

/-- A step that fails ends the run. -/
theorem run_eq_error_of_step {state next : State} {before after : List Entry} {entry : Entry}
    {error : CompileError} (hrun : (run rules sizing state before).outcome = .ok next)
    (failed : (step rules sizing next entry).outcome = .error error) :
    (run rules sizing state (before ++ entry :: after)).outcome = .error error := by
  rw [run_append, hrun]
  exact Logged.outcome_bind_eq_error.2 (.inl failed)

/-! ## What has been put out -/

/-- The byte fields declared so far, in and around the open structures. -/
def cellsOf : Outline → List Level → List Cell
  | inner, [] => inner.cells
  | inner, level :: outer => cellsOf level.before outer ++ inner.cells

/-- What has been put out so far. -/
def outputOf (front body : List Entry) : List Level → List Entry
  | [] => body
  | level :: outer => outputOf level.before.front level.before.body outer ++ front ++
      .field level.opening.result :: body

theorem outputOf_append (front body more : List Entry) (path : List Level) :
    outputOf front (body ++ more) path = outputOf front body path ++ more := by
  cases path with
  | nil => rfl
  | cons level outer => simp [outputOf]

theorem Matches.output_eq {state : State} {front body : List Entry} {path : List Level}
    (shape : Matches state front body path) : state.output = outputOf front body path := by
  obtain ⟨root, scopes⟩ := shape
  rw [State.output, root, scopes]
  clear root scopes
  induction path generalizing front body with
  | nil => rfl
  | cons level outer ih => rw [scopesOf, rootOf, outputOf, List.foldr_cons, ih]

theorem Nests.chain {extra cursor : Option Nat} {inner : Outline} {path : List Level}
    (nests : Nests rules sizing extra inner path cursor) :
    Chain sizing (some 0) (cellsOf inner path) cursor := by
  induction nests with
  | root follows => exact follows.chain
  | level _ _ follows ih => exact ih.append follows.chain

theorem Nests.byteFields_source {extra cursor : Option Nat} {inner : Outline} {path : List Level}
    (nests : Nests rules sizing extra inner path cursor) :
    byteFields (sourceOf inner path) = (cellsOf inner path).map (·.source) := by
  induction nests with
  | root follows => exact follows.byteFields_source
  | @level _ _ _ _ level _ _ opens follows ih =>
    have opening : (Entry.field level.opening.source).byteField? = none := by
      simp [Entry.byteField?, opens.role]
    rw [sourceOf, byteFields_append, ih, byteFields_cons_of_not opening, follows.byteFields_source,
      cellsOf, List.map_append]

theorem Nests.tiles_perm {extra cursor : Option Nat} {inner : Outline} {path : List Level}
    (nests : Nests rules sizing extra inner path cursor) :
    ((cellsOf inner path).flatMap Cell.tiles).Perm
      (byteFields (outputOf inner.front inner.body path)) := by
  induction nests with
  | root follows =>
    have perm := follows.tiles_perm
    rwa [follows.front_eq_nil] at perm
  | @level _ _ _ _ level _ _ opens follows ih =>
    have opening : (Entry.field level.opening.result).byteField? = none := by
      simp [Entry.byteField?, opens.result_role]
    have inner_perm := follows.tiles_perm
    rw [byteFields_append] at inner_perm
    rw [cellsOf, List.flatMap_append, outputOf, List.append_assoc, byteFields_append,
      byteFields_append, byteFields_cons_of_not opening]
    exact ih.append inner_perm

/-- The byte fields of a state are those declared so far, placed one after the other. -/
theorem Reads.exists_chain {state : State} {done : List Entry}
    (reads : Reads rules sizing state done) : ∃ cells : List Cell,
      byteFields done = cells.map (·.source) ∧
        (cells.flatMap Cell.tiles).Perm (byteFields state.output) ∧
          Chain sizing (some 0) cells state.cursor := by
  cases reads with
  | @settled inner path _ nests shape =>
    refine ⟨cellsOf inner path, nests.byteFields_source, ?_, nests.chain⟩
    rw [shape.output_eq]
    exact nests.tiles_perm
  | @packing inner path packed group start _ nests places contains _ shape =>
    let cell : Cell := { packed.toCell with result := packed.marker }
    let closed : Packed := { packed with closing := groupClosing packed.result.name 0 none }
    have contains_closed : Contains rules closed group :=
      ⟨contains.plain, contains.opening, contains.marker, contains.packs⟩
    -- The bytes of a container do not depend on whether it is closed.
    have start_eq : byteFields packed.start = cell.tiles := by
      have entries : byteFields closed.entries = cell.tiles :=
        byteFields_packed places contains_closed rfl
      rwa [Packed.entries, byteFields_append, byteFields_cons_of_not rfl, byteFields_nil,
        List.append_nil] at entries
    obtain ⟨bytes, -, -, packs⟩ := contains.packs
    have members := byteFields_map_of_bitField Placed.source
      fun member hmember => (packs.role_eq member hmember).1
    refine ⟨cellsOf inner path ++ [cell], ?_, ?_, ?_⟩
    · rw [byteFields_append, nests.byteFields_source,
        byteFields_cons_of_byte (.inl (role_of_isPlain contains.plain)), members, List.map_append]
      rfl
    · rw [shape.output_eq, outputOf_append, byteFields_append, start_eq, List.flatMap_append,
        List.flatMap_singleton]
      exact nests.tiles_perm.append_right _
    · refine .cell packed.result.name nests.chain ?_
      have marker : packed.marker = containerMarker rules packed.result := contains.marker
      simp only [cell, marker]
      exact places

/-- In a strict layout the cursor counts the bytes that have been put out. -/
theorem cursor_eq_placedBytes {size : ExpandCall → Nat → Logged Nat} {names : NamePool}
    {entries : List Entry} {state : State}
    (hrun : (run rules (.strict size) { names } entries).outcome = .ok state) :
    state.cursor = some (placedBytes state.output) := by
  obtain ⟨cells, -, perm, chain⟩ := (reads_run (reads_nil names) hrun).exists_chain
  obtain ⟨bytes, known, -, contiguous, -⟩ := chain.strict (by decide)
  have sum := contiguous.sum
  rw [Nat.zero_add, (perm.map Field.bytes).sum_nat] at sum
  rw [known, sum, placedBytes]

end Layout
end BoardSchema
