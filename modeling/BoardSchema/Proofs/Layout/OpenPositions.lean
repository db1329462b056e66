import BoardSchema.Proofs.Layout.Hoisting
import BoardSchema.Proofs.Layout.Positions
/-!
Where structures are open in the list of a layout. Their positions are noted when they open and stay
right while blocks are put in before them and containers are made. In front of a header structure,
down to the structure that it goes in front of, there is nothing but padding and header structures
that have closed.
-/
namespace BoardSchema.Layout

/-- Padding and header structures with all that they hold. -/
inductive Closed (rules : Rules) : List Entry → Prop
  | nil : Closed rules []
  | padding {field : Field} {entries : List Entry} (role : field.role = .padding)
      (closed : Closed rules entries) : Closed rules (.field field :: entries)
  | block {header : Field} {block entries : List Entry} (whole : HeaderBlock rules header block)
      (closed : Closed rules entries) : Closed rules (block ++ entries)

/-- Open structures, innermost first. One that goes to the front is a header structure, with nothing
but padding before it in the structure around it. -/
inductive Sits (rules : Rules) : List Scope → Prop
  | nil : Sits rules []
  | cons {scope : Scope} {outer : List Scope} (opens : scope.opening.role = .structOpen)
      (front : Closed rules scope.front)
      (hoists : scope.hoists = true → isHeader rules scope.opening.name = true ∧
        ∃ around rest, outer = around :: rest ∧ atOpening around.body = true)
      (sits : Sits rules outer) : Sits rules (scope :: outer)

variable {rules : Rules} {sizing : Sizing}

namespace Closed

variable {left right : List Entry}

theorem append (h : Closed rules left) (h' : Closed rules right) : Closed rules (left ++ right) := by
  induction h with
  | nil => exact h'
  | padding role _ ih => exact .padding role ih
  | block whole _ ih =>
    rw [List.append_assoc]
    exact .block whole ih

theorem of_atOpening (opening : atOpening left = true) : Closed rules left := by
  unfold atOpening at opening
  split at opening
  · exact .nil
  · exact .padding (by simpa using opening) .nil
  · cases opening

end Closed

/-- What goes in front of a structure are header structures. -/
theorem Follows.closed_front {inside : Bool} {start cursor : Option Nat} {outline : Outline}
    (follows : Follows rules sizing inside start outline cursor) : Closed rules outline.front := by
  induction follows with
  | nil => exact .nil
  | mark _ _ ih => exact ih
  | byte _ _ _ ih => exact ih
  | pack _ _ _ _ _ ih => exact ih
  | @block _ hoists _ _ _ before inner opening closing _ opens within ends ih _ =>
    cases hoists with
    | false => simpa using ih
    | true =>
      have moves := opens.hoists_eq.symm
      simp only [Bool.and_eq_true] at moves
      have whole : HeaderBlock rules opening.result
          (.field opening.result :: inner.body ++ [Entry.field closing.result]) := by
        refine ⟨inner.body, closing.result, rfl, opens.result_role, ?_, within.balanced.2.2,
          ends.result_role, ?_⟩
        · rw [opens.result]
          exact moves.1.2
        · rw [opens.result, ends.result]
          exact ends.named
      rw [Outline.front_block_true, ← List.append_nil (_ :: _ ++ _)]
      exact ih.append (.block whole .nil)

section

variable {extra cursor : Option Nat} {inner : Outline} {path : List Level}

theorem Nests.exists_follows (nests : Nests rules sizing extra inner path cursor) :
    ∃ inside start, Follows rules sizing inside start inner cursor := by
  cases nests with
  | root follows => exact ⟨_, _, follows⟩
  | level _ _ follows => exact ⟨_, _, follows⟩

theorem Nests.sits (nests : Nests rules sizing extra inner path cursor) (body : List Entry) :
    Sits rules (scopesOf inner.front body path) := by
  induction nests generalizing body with
  | root => exact .nil
  | @level _ _ _ inner level outer _ opens follows ih =>
    refine .cons opens.result_role follows.closed_front (fun hoists => ?_) (ih _)
    have hoists : level.hoists = true := hoists
    have moves := opens.hoists_eq.symm
    rw [hoists] at moves
    simp only [Bool.and_eq_true] at moves
    refine ⟨?_, ?_⟩
    · rw [opens.result]
      exact moves.1.2
    · cases outer with
      | nil => simp at moves
      | cons around rest => exact ⟨_, _, rfl, moves.2⟩

end

theorem Reads.sits {state : State} {done : List Entry} (reads : Reads rules sizing state done) :
    Sits rules state.scopes := by
  cases reads with
  | settled _ nests shape => exact shape.scopes ▸ nests.sits _
  | packing _ nests _ _ _ shape => exact shape.scopes ▸ nests.sits _

/-! ## Positions -/

/-- The opening of a structure that is open is where its position says. -/
def OpensAt (output : List Entry) (struct : OpenStruct) : Prop :=
  ∃ opening, output[struct.index]? = some (.field opening) ∧ opening.role = .structOpen ∧
    opening.name = struct.name ∧ opening.line = struct.line

/-- What is known of the open structures of a list. -/
structure Flat.Sound (rules : Rules) (flat : Flat) : Prop where
  increasing : flat.opens.Pairwise fun inner outer => outer.index < inner.index
  within : ∀ struct ∈ flat.opens, struct.index < flat.output.length
  opening : ∀ struct ∈ flat.opens, OpensAt flat.output struct
  hoisting : ∀ struct outer target, struct :: outer <:+ flat.opens →
    struct.hoistTo = some target → ∃ around, outer.head? = some around ∧ target = around.index ∧
      Closed rules ((flat.output.take struct.index).drop (target + 1))

theorem pairwise_positions (root : List Entry) (scopes : List Scope) :
    (positions root scopes).Pairwise fun inner outer => outer.index < inner.index := by
  induction scopes with
  | nil => exact .nil
  | cons scope outer ih =>
    refine .cons (fun struct mem => ?_) ih
    have before := index_lt_length root outer struct mem
    exact Nat.lt_of_lt_of_le before (by simp)

theorem take_drop_between (before : List Entry) (entry : Entry) (body front after : List Entry) :
    ((before ++ entry :: body ++ front ++ after).take
      (before ++ entry :: body ++ front).length).drop (before.length + 1) = body ++ front := by
  rw [List.take_left, List.append_assoc, List.drop_length_add_append]
  rfl

namespace Sits

variable {scopes : List Scope}

theorem opensAt (sits : Sits rules scopes) (root : List Entry) :
    ∀ struct ∈ positions root scopes, OpensAt (putOut root scopes) struct := by
  induction sits with
  | nil => exact List.forall_mem_nil _
  | @cons scope outer opens _ _ _ ih =>
    refine List.forall_mem_cons.2 ⟨⟨scope.opening, ?_, opens, rfl, rfl⟩, fun struct mem => ?_⟩
    · rw [putOut, List.getElem?_append_right (Nat.le_refl _)]
      simp
    · obtain ⟨opening, found, rest⟩ := ih struct mem
      refine ⟨opening, ?_, rest⟩
      rw [putOut, List.append_assoc,
        List.getElem?_append_left (index_lt_length root outer struct mem)]
      exact found

/-- From the structure that it goes in front of up to a header structure all is closed. -/
theorem closed_between (sits : Sits rules scopes) (root : List Entry) :
    ∀ struct outer target, struct :: outer <:+ positions root scopes →
      struct.hoistTo = some target → ∃ around, outer.head? = some around ∧ target = around.index ∧
        Closed rules (((putOut root scopes).take struct.index).drop (target + 1)) := by
  induction sits with
  | nil => simp [positions]
  | @cons scope outer' _ front hoists _ ih =>
    intro struct outer target suffix saved
    rcases List.suffix_cons_iff.1 suffix with innermost | further
    · obtain ⟨rfl, rfl⟩ := List.cons.inj innermost
      cases moves : scope.hoists with
      | false => simp [moves] at saved
      | true =>
        obtain ⟨-, around, rest, rfl, opening⟩ := hoists moves
        simp only [moves, if_true, positions, List.head?_cons, Option.map_some,
          Option.some.injEq] at saved
        subst target
        refine ⟨_, rfl, rfl, ?_⟩
        have closed : Closed rules (around.body ++ scope.front) :=
          (Closed.of_atOpening opening).append front
        rw [← take_drop_between (putOut root rest ++ around.front) (.field around.opening)
          around.body scope.front (.field scope.opening :: scope.body)] at closed
        exact closed
    · obtain ⟨around, head, same, closed⟩ := ih struct outer target further saved
      refine ⟨around, head, same, ?_⟩
      have before := index_lt_length root outer' struct (further.subset List.mem_cons_self)
      rw [putOut, List.append_assoc, List.take_append_of_le_length (Nat.le_of_lt before)]
      exact closed

end Sits

theorem Reads.sound {state : State} {done : List Entry} (reads : Reads rules sizing state done) :
    (Flat.ofState state).Sound rules := by
  have output : (Flat.ofState state).output = putOut state.root state.scopes :=
    output_eq_putOut state
  refine ⟨pairwise_positions .., ?_, ?_, ?_⟩
  · rw [output]
    exact index_lt_length state.root state.scopes
  · rw [output]
    exact reads.sits.opensAt state.root
  · rw [output]
    exact reads.sits.closed_between state.root

/-! ## Header structures that close -/

/-- What is cut out at a position is a whole header structure, and it goes further to the front. -/
structure Flat.Cuts (rules : Rules) (flat : Flat) (source target : Nat) : Prop where
  forward : target ≤ source
  within : source ≤ flat.output.length
  whole : ∃ header, HeaderBlock rules header (flat.output.drop source)

theorem Nests.balanced_body {extra cursor : Option Nat} {inner : Outline} {path : List Level}
    (nests : Nests rules sizing extra inner path cursor) : Balanced inner.body := by
  obtain ⟨_, _, follows⟩ := nests.exists_follows
  exact follows.balanced.2.2

/-- A header structure goes to a position before its own. -/
theorem Flat.Sound.target_lt {flat : Flat} {innermost : OpenStruct} {outer : List OpenStruct}
    {target : Nat} (sound : flat.Sound rules) (opens : flat.opens = innermost :: outer)
    (saved : innermost.hoistTo = some target) : target < innermost.index := by
  obtain ⟨around, head, rfl, -⟩ :=
    sound.hoisting innermost outer target (opens ▸ List.suffix_refl _) saved
  have increasing := sound.increasing
  rw [opens] at increasing
  exact List.rel_of_pairwise_cons increasing (List.mem_of_head? head)

/-- All that was put out since a header structure opened is that structure, once it closes. -/
theorem Reads.cuts {state : State} {done : List Entry} {field : Field} {innermost : OpenStruct}
    {outer : List OpenStruct} {target : Nat} (reads : Reads rules sizing state done)
    (settled : state.group = none) (opens : (Flat.ofState state).opens = innermost :: outer)
    (closes : field.role = .structClose) (named : innermost.name = field.name)
    (saved : innermost.hoistTo = some target) :
    Flat.Cuts rules ((Flat.ofState state).putClosing field) innermost.index target := by
  have forward := reads.sound.target_lt opens saved
  have sits := reads.sits
  obtain ⟨inner, path, nests, shape, -⟩ := reads.of_group_eq_none settled
  obtain ⟨scope, rest, scopes⟩ : ∃ scope rest, state.scopes = scope :: rest := by
    refine List.exists_cons_of_ne_nil fun none => ?_
    simp [Flat.ofState, none, positions] at opens
  have balanced : Balanced scope.body := by
    have current : scope.body = inner.body := by
      rw [← shape.current_eq, State.current, scopes]
    exact current ▸ nests.balanced_body
  let closing := { field with offset := state.cursor }
  let before := putOut state.root rest ++ scope.front
  have output : ((Flat.ofState state).putClosing field).output =
      before ++ (.field scope.opening :: scope.body ++ [Entry.field closing]) := by
    simp [Flat.putClosing, Flat.output, Flat.ofState, merge, output_eq_putOut, scopes, putOut,
      State.push, State.withCurrent, State.current, before, closing]
  simp only [Flat.ofState, scopes, positions, List.cons.injEq] at opens
  obtain ⟨rfl, rfl⟩ := opens
  refine ⟨Nat.le_of_lt forward, ?_, scope.opening, ?_⟩
  · rw [output]
    simp [before]
  · rw [output, List.drop_left]
    rw [scopes] at sits
    cases sits with
    | cons role _ hoists _ =>
      have moves : scope.hoists = true := by
        by_contra stays
        simp [stays] at saved
      exact ⟨scope.body, closing, rfl, role, (hoists moves).1, balanced, closes, named.symm⟩

/-- How a structure closes: the innermost one that is open, under its name, in place or at the
position that was noted for it. -/
theorem Flat.closeStruct_eq_ok {flat next : Flat} {field : Field}
    (h : flat.closeStruct field = .ok next) : ∃ innermost outer, flat.opens = innermost :: outer ∧
      innermost.name = field.name ∧ next = innermost.hoistTo.elim (flat.putClosing field)
        fun target => (flat.putClosing field).hoist innermost.index target := by
  unfold closeStruct at h
  split at h
  · cases h
  · next innermost outer opens =>
    split at h
    · next named =>
      cases h
      exact ⟨innermost, outer, opens, named, rfl⟩
    · cases h

/-- The positions of open structures stay right in every run, and whatever is put in at one of them is
a whole header structure from further behind. -/
theorem run_positions (names : NamePool) (entries : List Entry) :
    Flat.run rules sizing { state := { names } } entries =
      Flat.ofState <$> run rules sizing { names } entries ∧
    ∀ flat, (Flat.run rules sizing { state := { names } } entries).outcome = .ok flat →
      flat.Sound rules ∧
      ∀ field next, field.role = .structClose →
        (flat.step rules sizing (.field field)).outcome = .ok next →
        ∃ innermost outer, flat.opens = innermost :: outer ∧ innermost.name = field.name ∧
          next = innermost.hoistTo.elim ((flat.settle field).putClosing field)
            (fun target => ((flat.settle field).putClosing field).hoist innermost.index target) ∧
          ∀ target, innermost.hoistTo = some target →
            ((flat.settle field).putClosing field).Cuts rules innermost.index target := by
  refine ⟨run_ofState names entries, fun flat hrun => ?_⟩
  rw [run_ofState] at hrun
  obtain ⟨state, hstate, rfl⟩ : ∃ state, (run rules sizing { names } entries).outcome = .ok state ∧
      Flat.ofState state = flat := by
    rw [map_eq_pure_bind] at hrun
    obtain ⟨state, hstate, same⟩ := Logged.outcome_bind_eq_ok.1 hrun
    exact ⟨state, hstate, Except.ok.inj same⟩
  have reads := reads_run (reads_nil names) hstate
  rw [List.nil_append] at reads
  refine ⟨reads.sound, fun field next closes hstep => ?_⟩
  have noted : Reads rules sizing { state with lastLine := field.line } entries :=
    reads.congr rfl rfl rfl rfl
  have ⟨closed, group, _⟩ := reads_closeGroup noted
  have hclose : ((Flat.ofState state).settle field).closeStruct field = .ok next := by
    simpa only [Flat.step, closes, Logged.outcome_ofExcept] using hstep
  obtain ⟨innermost, outer, opens, named, same⟩ := Flat.closeStruct_eq_ok hclose
  refine ⟨innermost, outer, opens, named, same, fun target saved => ?_⟩
  rw [settle_ofState field reads.listed] at opens ⊢
  exact closed.cuts group opens closes named saved

/-- A header structure that has closed in another one, which stands behind padding in a third one. -/
def openHeaders : List Entry :=
  [.field { name := "BOARD", role := .structOpen, line := 1 },
    .field { name := "Reserved0", role := .padding, line := 2 },
    .field { name := "CFGHDR_A", role := .structOpen, line := 3 },
    .field { name := "CFGHDR_B", role := .structOpen, line := 4 },
    .field { name := "Mode", role := .plain, line := 5, length := .fixed 1 },
    .field { name := "Fast", role := .bitField, line := 6, length := .fixed 3 },
    .field { name := "CFGHDR_B", role := .structClose, line := 7 }]

/-- The inner header stands in front of the outer one, which is six entries further back since. The
outer one goes in front of everything when it closes. -/
theorem openHeaders_positions :
    let closing : Field := { name := "CFGHDR_A", role := .structClose, line := 8 }
    ∃ flat next, (Flat.run {} .lenient { state := { names := ⟨"Pad", [], 0⟩ } }
        openHeaders).outcome = .ok flat ∧
      flat.opens = [⟨"CFGHDR_A", 3, 8, some 0⟩, ⟨"BOARD", 1, 0, none⟩] ∧ flat.Sound {} ∧
      (flat.step {} .lenient (.field closing)).outcome = .ok next ∧
      next.opens = [⟨"BOARD", 1, 2, none⟩] ∧
      ((flat.settle closing).putClosing closing).Cuts {} 8 0 := by
  intro closing
  let closed (flat : Flat) := (flat.step {} .lenient (.field closing)).outcome
  have known : (Flat.run {} .lenient { state := { names := ⟨"Pad", [], 0⟩ } }
      openHeaders).outcome.toOption.map (fun flat =>
        (flat.opens, (closed flat).toOption.map Flat.opens)) =
      some ([⟨"CFGHDR_A", 3, 8, some 0⟩, ⟨"BOARD", 1, 0, none⟩],
        some [⟨"BOARD", 1, 2, none⟩]) := by decide +kernel
  obtain ⟨flat, hrun, opens_next⟩ := exists_eq_ok known
  obtain ⟨opens, step⟩ := Prod.mk.inj opens_next
  obtain ⟨next, hnext, moved⟩ := exists_eq_ok step
  obtain ⟨sound, closes⟩ := (run_positions ⟨"Pad", [], 0⟩ openHeaders).2 flat hrun
  obtain ⟨innermost, outer, here, -, -, cuts⟩ := closes closing next rfl hnext
  obtain ⟨rfl, -⟩ := List.cons.inj (opens.symm.trans here)
  exact ⟨flat, next, hrun, opens, sound, hnext, moved, cuts 0 rfl⟩

end BoardSchema.Layout
