import BoardSchema.Proofs.Layout.Reading
/-!
A layout in one list. All that is put out goes to the end of the list, an open structure is a position
in it, and a header structure that closes is cut out and put in at a position that was noted when it
opened. `run_ofState` says that a layout with its open structures apart is such a layout all along.
-/
namespace BoardSchema

namespace Logged

variable {α β : Type}

theorem ofExcept_map (f : α → β) (x : Except CompileError α) :
    ofExcept (f <$> x) = f <$> ofExcept x := by
  cases x <;> rfl

theorem bind_congr {x : Logged α} {f g : α → Logged β}
    (same : ∀ a, x.outcome = .ok a → f a = g a) : x >>= f = x >>= g := by
  obtain ⟨notices, outcome⟩ := x
  cases outcome with
  | error error => rfl
  | ok a => rw [mk_ok_bind, mk_ok_bind, same a rfl]

end Logged

namespace Layout

/-- A structure that is open, as a position in the list. -/
structure OpenStruct where
  name : String
  line : Nat
  /-- Where its opening stands. -/
  index : Nat
  /-- Where its block goes once it closes, if it goes to the front. -/
  hoistTo : Option Nat
  deriving DecidableEq, Repr

/-- A structure from a position on moves back. -/
def OpenStruct.shift (position moved : Nat) (struct : OpenStruct) : OpenStruct :=
  if position ≤ struct.index then { struct with index := struct.index + moved } else struct

/-- A layout under way that puts everything out in one list, the root of a state without scopes. -/
structure Flat where
  state : State
  /-- The open structures, innermost first. -/
  opens : List OpenStruct := []
  deriving Repr

namespace Flat

def output (flat : Flat) : List Entry := flat.state.root

/-- The position before another one. -/
def before? : Nat → Option Nat
  | 0 => none
  | position + 1 => some position

def isPadding : Option Entry → Bool
  | some (.field field) => field.role = .padding
  | _ => false

/-- The position of the last entry, padding aside. -/
def anchor? (output : List Entry) : Option Nat := do
  let last ← before? output.length
  if isPadding output[last]? then before? last else some last

/-- The position in front of which a header structure goes that opens here: that of the innermost open
structure, if nothing but padding was put out since. -/
def target? (rules : Rules) (name : String) (flat : Flat) : Option Nat :=
  if (rules.headerForStruct? name).isSome then do
    let anchor ← anchor? flat.output
    let around ← flat.opens.head?
    match flat.output[anchor]? with
    | some (.field field) =>
      if field.role = .structOpen ∧ anchor = around.index then some anchor else none
    | _ => none
  else none

/-- A structure takes over a tag, unless it has one. -/
def takeTag (tag : Option Nat) : Entry → Entry
  | .field field => .field { field with tag := field.tag <|> tag }
  | entry => entry

def openStruct (rules : Rules) (field : Field) (flat : Flat) : Flat :=
  let target := flat.target? rules field.name
  let tagged := target.elim flat.output fun position =>
    flat.output.modify position (takeTag field.tag)
  { state := { flat.state with root := tagged ++ [.field { field with offset := flat.state.cursor }] }
    opens := ⟨field.name, field.line, flat.output.length, target⟩ :: flat.opens }

/-- Cuts out what stands from one position on and puts it in at another one. -/
def hoist (source target : Nat) (flat : Flat) : Flat :=
  let block := flat.output.drop source
  let kept := flat.output.take source
  { state := { flat.state with root := kept.take target ++ block ++ kept.drop target }
    opens := flat.opens.map (·.shift target block.length) }

/-- Puts out the bracket that closes the innermost structure. -/
def putClosing (field : Field) (flat : Flat) : Flat :=
  { state := flat.state.push [.field { field with offset := flat.state.cursor }]
    opens := flat.opens.tail }

def closeStruct (field : Field) (flat : Flat) : Except CompileError Flat :=
  match flat.opens with
  | [] => .error (.unbalancedStruct field.line field.name)
  | innermost :: _ =>
    if innermost.name = field.name then
      let closed := flat.putClosing field
      .ok (innermost.hoistTo.elim closed fun target => closed.hoist innermost.index target)
    else .error (.unbalancedStruct field.line field.name)

/-- Ends the group of bit members before a field. -/
def settle (field : Field) (flat : Flat) : Flat :=
  { flat with state := closeGroup { flat.state with lastLine := field.line } }

/-- Entries other than brackets of structures only go to the end of the list. -/
def step (rules : Rules) (sizing : Sizing) (flat : Flat) (entry : Entry) : Logged Flat :=
  let putOut := do return { flat with state := ← Layout.step rules sizing flat.state entry }
  match entry with
  | .field field =>
    match field.role with
    | .structOpen => return (flat.settle field).openStruct rules field
    | .structClose => Logged.ofExcept ((flat.settle field).closeStruct field)
    | _ => putOut
  | _ => putOut

def run (rules : Rules) (sizing : Sizing) (flat : Flat) : List Entry → Logged Flat
  | [] => pure flat
  | entry :: rest => do
    let flat ← step rules sizing flat entry
    run rules sizing flat rest

end Flat

/-! ## The list of a layout -/

/-- What was put out around and in open structures. -/
def putOut (root : List Entry) : List Scope → List Entry
  | [] => root
  | scope :: outer => putOut root outer ++ scope.front ++ .field scope.opening :: scope.body

/-- Open structures as positions. One that goes to the front goes to the position of the one around
it. -/
def positions (root : List Entry) : List Scope → List OpenStruct
  | [] => []
  | scope :: outer =>
    { name := scope.opening.name, line := scope.opening.line
      index := (putOut root outer ++ scope.front).length
      hoistTo := if scope.hoists then (positions root outer).head?.map OpenStruct.index else none } ::
    positions root outer

/-- A state whose open structures are put out with what they hold. -/
def merge (state : State) : State := { state with root := state.output, scopes := [] }

def Flat.ofState (state : State) : Flat := ⟨merge state, positions state.root state.scopes⟩

variable {rules : Rules} {sizing : Sizing} {state next : State}

theorem output_eq_putOut (state : State) : state.output = putOut state.root state.scopes := by
  unfold State.output
  induction state.scopes with
  | nil => rfl
  | cons scope outer ih => rw [List.foldr_cons, ih, putOut]

theorem output_ofState (state : State) : (Flat.ofState state).output = state.output := rfl

theorem merge_push (state : State) (entries : List Entry) :
    merge (state.push entries) = (merge state).push entries := by
  have root : (merge (state.push entries)).root = state.output ++ entries :=
    State.output_push state entries
  unfold State.push State.withCurrent State.current at root ⊢
  cases scopes : state.scopes with
  | nil => simp [merge, State.output, scopes]
  | cons scope outer => simp [merge, State.output, scopes]

/-- What is put out moves no open structure. -/
theorem positions_withCurrent (state : State) (entries : List Entry) :
    positions (state.withCurrent entries).root (state.withCurrent entries).scopes =
      positions state.root state.scopes := by
  unfold State.withCurrent
  cases scopes : state.scopes <;> simp [positions]

theorem positions_push (state : State) (entries : List Entry) :
    positions (state.push entries).root (state.push entries).scopes =
      positions state.root state.scopes := positions_withCurrent state _

theorem ofState_push (state : State) (entries : List Entry) : Flat.ofState (state.push entries) =
    ⟨(merge state).push entries, positions state.root state.scopes⟩ := by
  rw [Flat.ofState, merge_push, positions_push]

/-- The last entry inside the innermost structure is the last one of all. -/
theorem getLast?_output (filled : state.current ≠ []) :
    state.output.getLast? = state.current.getLast? := by
  obtain ⟨entries, last, current⟩ := (List.eq_nil_or_concat state.current).resolve_left filled
  rw [output_eq_putOut, current]
  unfold State.current at current
  cases scopes : state.scopes with
  | nil =>
    rw [scopes] at current
    simp [putOut, current]
  | cons scope outer =>
    rw [scopes] at current
    have split : putOut state.root (scope :: outer) =
        (putOut state.root outer ++ scope.front ++ .field scope.opening :: entries) ++ [last] := by
      simp [putOut, show scope.body = _ from current]
    rw [split, List.getLast?_concat, List.concat_eq_append, List.getLast?_concat]

/-- Nothing is inside the innermost structure if the last entry is its opening. -/
theorem container?_output (opens : ∀ scope ∈ state.scopes, scope.opening.role = .structOpen) :
    container? state.output.getLast? = container? state.current.getLast? := by
  by_cases filled : state.current = []
  · rw [output_eq_putOut, filled]
    unfold State.current at filled
    cases scopes : state.scopes with
    | nil =>
      rw [scopes] at filled
      simp [putOut, show state.root = [] from filled]
    | cons scope outer =>
      rw [scopes] at filled
      have role := opens scope (by simp [scopes])
      simp [putOut, show scope.body = [] from filled, container?, Field.isPlain, role]
  · rw [getLast?_output filled]

/-! ## Steps that only put out -/

theorem closeGroup_merge (filled : state.group.isSome → state.current ≠ []) :
    closeGroup (merge state) = merge (closeGroup state) := by
  have same : (merge state).group = state.group := rfl
  unfold closeGroup
  rw [same]
  cases group : state.group with
  | none => rfl
  | some group' =>
    have last : (merge state).current.getLast? = state.current.getLast? :=
      getLast?_output (filled (by simp [group]))
    simp only [last, merge_push]
    rfl

theorem pad_merge (cursor gap line : Nat) (state : State) :
    pad cursor gap line (merge state) = merge (pad cursor gap line state) := by
  simp only [pad, merge_push]
  rfl

theorem seek_merge (field : Field) (state : State) :
    seek field (merge state) = merge <$> seek field state := by
  have same : (merge state).cursor = state.cursor := rfl
  unfold seek
  rw [same]
  split
  · rfl
  · rfl
  · split
    · rfl
    · split
      · rw [pad_merge]
        rfl
      · rfl

theorem place_merge (sizing : Sizing) (field : Field) (state : State) :
    place sizing field (merge state) = merge <$> place sizing field state := by
  unfold place
  rw [seek_merge]
  cases seek field state with
  | error error => rfl
  | ok sought =>
    have found {α β : Type} (a : α) (f : α → Logged β) : (Logged.ofExcept (.ok a) >>= f) = f a := rfl
    have merged : merge <$> (Except.ok sought : Except CompileError State) = .ok (merge sought) := rfl
    simp only [merged, found, map_bind, map_pure, merge_push]
    rfl

theorem replaceLast_merge (filled : state.current ≠ []) (entries : List Entry) :
    (merge state).replaceLast entries = merge (state.replaceLast entries) := by
  unfold State.replaceLast State.withCurrent
  unfold State.current at filled ⊢
  cases scopes : state.scopes with
  | nil => simp [merge, State.output, scopes]
  | cons scope outer =>
    rw [scopes] at filled
    have body : scope.body ≠ [] := filled
    simp [merge, State.output, scopes, List.dropLast_append_of_ne_nil,
      List.dropLast_cons_of_ne_nil body]

theorem openGroup_merge (member : Field)
    (opens : ∀ scope ∈ state.scopes, scope.opening.role = .structOpen) :
    openGroup rules member (merge state) =
      (fun (state, group) => (merge state, group)) <$> openGroup rules member state := by
  have last : container? (merge state).current.getLast? = container? state.current.getLast? :=
    container?_output opens
  unfold openGroup
  rw [last]
  split
  · rfl
  · next container bytes found =>
    split
    · rfl
    · have filled : state.current ≠ [] := by
        intro empty
        rw [empty] at found
        cases found
      rw [replaceLast_merge filled]
      rfl

theorem bitMember_merge (member : Field)
    (opens : ∀ scope ∈ state.scopes, scope.opening.role = .structOpen) :
    bitMember rules member (merge state) = merge <$> bitMember rules member state := by
  have same : (merge state).group = state.group := rfl
  unfold bitMember
  rw [same]
  cases state.group with
  | some group => simp only [pure_bind, map_bind, map_pure, merge_push]; rfl
  | none =>
    simp only [openGroup_merge member opens, map_bind, map_pure, merge_push, bind_map_left]
    rfl

/-- Where structures open is left alone by all that is not a bracket of a structure. -/
def SamePositions (state next : State) : Prop :=
  positions next.root next.scopes = positions state.root state.scopes

theorem samePositions_closeGroup (state : State) : SamePositions state (closeGroup state) := by
  unfold closeGroup
  split
  · rfl
  · exact positions_push ..

theorem samePositions_place {field : Field} (h : (place sizing field state).outcome = .ok next) :
    SamePositions state next := by
  obtain ⟨cell, names, -, -, next_eq⟩ := place_eq_ok h
  rw [next_eq]
  exact positions_push ..

theorem samePositions_bitMember {member : Field} (h : bitMember rules member state = .ok next) :
    SamePositions state next := by
  unfold bitMember at h
  cases group : state.group with
  | none =>
    simp only [group] at h
    obtain ⟨⟨opened, group⟩, hopened, h⟩ := bind_eq_ok.1 h
    obtain ⟨packed, -, h⟩ := bind_eq_ok.1 h
    cases h
    have same : SamePositions state opened := by
      unfold openGroup at hopened
      split at hopened
      · cases hopened
      · split at hopened
        · cases hopened
        · cases hopened
          exact positions_withCurrent ..
    exact (positions_push ..).trans same
  | some group =>
    simp only [group, pure_bind] at h
    obtain ⟨packed, -, h⟩ := bind_eq_ok.1 h
    cases h
    exact positions_push ..

/-- What the list needs to know of a state: the brackets that structures open with, and that a group of
bit members has put something out. -/
structure Listed (state : State) : Prop where
  opens : ∀ scope ∈ state.scopes, scope.opening.role = .structOpen
  filled : state.group.isSome → state.current ≠ []

/-- Entries other than brackets of structures. -/
def PutsOut : Entry → Prop
  | .field field => field.role ≠ .structOpen ∧ field.role ≠ .structClose
  | _ => True

theorem step_merge {entry : Entry} (listed : Listed state) (puts : PutsOut entry) :
    step rules sizing (merge state) entry = merge <$> step rules sizing state entry := by
  cases entry with
  | field field =>
    have noted : Listed { state with lastLine := field.line } := ⟨listed.opens, listed.filled⟩
    have merged : { merge state with lastLine := field.line } =
        merge { state with lastLine := field.line } := rfl
    simp only [step, addField, merged]
    cases role : field.role with
    | structOpen => exact absurd role puts.1
    | structClose => exact absurd role puts.2
    | bitField => simp only [bitMember_merge field noted.opens, Logged.ofExcept_map]
    | action => simp only [closeGroup_merge noted.filled, map_pure, merge_push]; rfl
    | plain => simp only [closeGroup_merge noted.filled, place_merge]
    | padding => simp only [closeGroup_merge noted.filled, place_merge]
  | includeOpen path =>
    simp only [step, closeGroup_merge listed.filled, map_pure, merge_push]
    rfl
  | includeClose =>
    simp only [step, closeGroup_merge listed.filled]
    show (if (closeGroup state).includes = 0 then _ else _) = _
    split
    · rfl
    · simp only [map_pure, merge_push]
      rfl

theorem samePositions_step {entry : Entry} (puts : PutsOut entry)
    (h : (step rules sizing state entry).outcome = .ok next) : SamePositions state next := by
  cases entry with
  | field field =>
    have closed := samePositions_closeGroup { state with lastLine := field.line }
    simp only [step, addField] at h
    cases role : field.role with
    | structOpen => exact absurd role puts.1
    | structClose => exact absurd role puts.2
    | bitField =>
      rw [role] at h
      have same : SamePositions { state with lastLine := field.line } next :=
        samePositions_bitMember h
      exact same
    | action =>
      rw [role] at h
      cases h
      exact (positions_push ..).trans closed
    | plain =>
      rw [role] at h
      exact (samePositions_place h).trans closed
    | padding =>
      rw [role] at h
      exact (samePositions_place h).trans closed
  | includeOpen path =>
    cases h
    exact (positions_push ..).trans (samePositions_closeGroup state)
  | includeClose =>
    simp only [step] at h
    split at h
    · cases h
    · cases h
      exact (positions_push ..).trans (samePositions_closeGroup state)

/-! ## Brackets of structures -/

/-- Behind the opening of a structure the last entry, padding aside, is that opening just if nothing
else was put out. -/
theorem anchor?_eq_some_iff {opening : Field} (before body : List Entry)
    (role : opening.role = .structOpen) :
    Flat.anchor? (before ++ .field opening :: body) = some before.length ↔
      atOpening body = true := by
  match body with
  | [] => simp [Flat.anchor?, Flat.before?, Flat.isPadding, role, atOpening]
  | [entry] =>
    have last : (before ++ [Entry.field opening, entry])[before.length + 1]? = some entry := by simp
    simp only [Flat.anchor?, List.length_append, List.length_cons, List.length_nil, Flat.before?,
      Option.bind_eq_bind, Option.bind_some, last]
    cases entry with
    | field field => by_cases padding : field.role = .padding <;>
        simp [Flat.isPadding, atOpening, padding]
    | includeOpen path => simp [Flat.isPadding, atOpening]
    | includeClose => simp [Flat.isPadding, atOpening]
  | first :: second :: rest =>
    simp only [Flat.anchor?, List.length_append, List.length_cons, Flat.before?,
      Option.bind_eq_bind, Option.bind_some, atOpening, Bool.false_eq_true, iff_false]
    split
    · intro same
      have position : before.length + (rest.length + 1) = before.length := Option.some.inj same
      omega
    · intro same
      have position : before.length + (rest.length + 2) = before.length := Option.some.inj same
      omega

/-- A structure goes in front of the innermost one that is open if it is a header structure and
nothing but padding was put out there. -/
theorem target?_eq {scope : Scope} {outer : List Scope} (name : String)
    (scopes : state.scopes = scope :: outer) (role : scope.opening.role = .structOpen) :
    (Flat.ofState state).target? rules name =
      if (rules.headerForStruct? name).isSome && atOpening scope.body then
        some (putOut state.root outer ++ scope.front).length
      else none := by
  have output : (Flat.ofState state).output =
      (putOut state.root outer ++ scope.front) ++ .field scope.opening :: scope.body := by
    rw [output_ofState, output_eq_putOut, scopes, putOut]
  obtain ⟨around, opens, index⟩ : ∃ around, (Flat.ofState state).opens.head? = some around ∧
      around.index = (putOut state.root outer ++ scope.front).length := by
    simp [Flat.ofState, scopes, positions]
  have anchor := anchor?_eq_some_iff (putOut state.root outer ++ scope.front) scope.body role
  rw [← output] at anchor
  unfold Flat.target?
  rw [opens]
  by_cases header : (rules.headerForStruct? name).isSome = true
  · by_cases here : atOpening scope.body = true
    · have found : (Flat.ofState state).output[around.index]? = some (.field scope.opening) := by
        rw [output, index, List.getElem?_append_right (Nat.le_refl _)]
        simp
      rw [← index] at anchor ⊢
      simp [header, here, anchor.2 here, found, role]
    · have other : Flat.anchor? (Flat.ofState state).output ≠ some around.index := by
        rw [index]
        exact mt anchor.1 here
      simp only [header, here]
      cases position : Flat.anchor? (Flat.ofState state).output with
      | none => rfl
      | some position' =>
        have differ : position' ≠ around.index := by
          rintro rfl
          exact other position
        simp only [Option.bind_eq_bind, Option.bind_some, differ, and_false, if_false, if_true,
          Bool.true_and, Bool.false_eq_true]
        split <;> rfl
  · simp [header]

/-- The opening of the innermost structure takes over a tag. -/
theorem modify_takeTag (before body : List Entry) (opening : Field) (tag : Option Nat) :
    (before ++ .field opening :: body).modify before.length (Flat.takeTag tag) =
      before ++ .field { opening with tag := opening.tag <|> tag } :: body := by
  induction before with
  | nil => rfl
  | cons entry rest ih => simpa using ih

theorem openStruct_ofState (field : Field) (listed : Listed state) :
    (Flat.ofState state).openStruct rules field = Flat.ofState (openStruct rules field state) := by
  cases scopes : state.scopes with
  | nil =>
    have target : (Flat.ofState state).target? rules field.name = none := by
      unfold Flat.target?
      split
      · cases Flat.anchor? (Flat.ofState state).output <;> simp [Flat.ofState, scopes, positions]
      · rfl
    have opened : openStruct rules field state = { state with scopes :=
        [{ opening := { field with offset := state.cursor }, hoists := false }] } := by
      simp only [openStruct, scopes]
    simp only [Flat.openStruct, target, opened]
    simp [Flat.ofState, merge, State.output, scopes, positions, putOut, Flat.output]
  | cons scope outer =>
    have role := listed.opens scope (by simp [scopes])
    have target := @target?_eq rules state scope outer field.name scopes role
    have output : (Flat.ofState state).output =
        (putOut state.root outer ++ scope.front) ++ .field scope.opening :: scope.body := by
      rw [output_ofState, output_eq_putOut, scopes, putOut]
    by_cases hoists : ((rules.headerForStruct? field.name).isSome && atOpening scope.body) = true
    · rw [if_pos hoists] at target
      have opened : openStruct rules field state = { state with scopes :=
          { opening := { field with offset := state.cursor }, hoists := true } ::
            { scope with
              opening := { scope.opening with tag := scope.opening.tag <|> field.tag } } ::
            outer } := by
        simp only [openStruct, scopes, hoists, if_true]
      simp only [Flat.openStruct, target, opened, Option.elim, output, modify_takeTag]
      simp [Flat.ofState, merge, output_eq_putOut, scopes, positions, putOut]
    · rw [if_neg hoists] at target
      have opened : openStruct rules field state = { state with scopes :=
          { opening := { field with offset := state.cursor }, hoists := false } ::
            scope :: outer } := by
        simp only [openStruct, scopes, hoists]
        rfl
      simp only [Flat.openStruct, target, opened, Option.elim, output]
      simp [Flat.ofState, merge, output_eq_putOut, scopes, positions, putOut]

/-- An open structure is where it is since it opened, in front of all that came later. -/
theorem index_lt_length (root : List Entry) (scopes : List Scope) :
    ∀ struct ∈ positions root scopes, struct.index < (putOut root scopes).length := by
  induction scopes with
  | nil => exact List.forall_mem_nil _
  | cons scope outer ih =>
    refine List.forall_mem_cons.2 ⟨?_, fun struct mem => ?_⟩
    · simp [putOut]
    · have before := ih struct mem
      simp only [putOut, List.length_append]
      omega

theorem map_shift_eq_self (moved : Nat) (root : List Entry) (scopes : List Scope) (more : List Entry) :
    (positions root scopes).map (OpenStruct.shift (putOut root scopes ++ more).length moved) =
      positions root scopes := by
  refine (List.map_congr_left fun struct mem => ?_).trans (List.map_id _)
  have before := index_lt_length root scopes struct mem
  rw [List.length_append]
  exact if_neg (by omega)

/-- Cutting out at the end and putting in further to the front swaps two pieces. -/
theorem Flat.hoist_append (state : State) (before inside block : List Entry)
    (opens : List OpenStruct) :
    hoist (before ++ inside).length before.length
        ⟨{ state with root := before ++ inside ++ block, scopes := [] }, opens⟩ =
      ⟨{ state with root := before ++ block ++ inside, scopes := [] },
        opens.map (·.shift before.length block.length)⟩ := by
  have kept : (before ++ inside ++ block).take (before ++ inside).length = before ++ inside :=
    List.take_left
  have cut : (before ++ inside ++ block).drop (before ++ inside).length = block := List.drop_left
  simp only [hoist, output, kept, cut, List.take_left, List.drop_left]

/-- A header structure goes in front of the structure around it, whose opening moves back. -/
theorem hoist_ofState {field : Field} {scope around : Scope} {outer : List Scope}
    (scopes : state.scopes = scope :: around :: outer) (hoists : scope.hoists = true)
    (named : scope.opening.name = field.name) :
    (Flat.ofState state).closeStruct field = Flat.ofState <$> closeStruct field state := by
  let before := putOut state.root outer ++ around.front
  let inside := Entry.field around.opening :: around.body ++ scope.front
  let closing := { field with offset := state.cursor }
  let block := Entry.field scope.opening :: scope.body ++ [Entry.field closing]
  let moved := { around with front := around.front ++ block, body := around.body ++ scope.front }
  have closed : closeStruct field state = .ok { state with scopes := moved :: outer } := by
    simp only [closeStruct, scopes, named, hoists, if_true]
    rfl
  have opens : (Flat.ofState state).opens =
      ⟨scope.opening.name, scope.opening.line, (before ++ inside).length, some before.length⟩ ::
        positions state.root (around :: outer) := by
    simp [Flat.ofState, scopes, positions, putOut, hoists, before, inside]
  have put : (Flat.ofState state).putClosing field =
      ⟨{ state with root := before ++ inside ++ block, scopes := [] },
        positions state.root (around :: outer)⟩ := by
    simp [Flat.putClosing, Flat.ofState, merge, output_eq_putOut, scopes, positions, putOut,
      State.push, State.withCurrent, State.current, before, inside, block, closing]
  have shifted : (positions state.root (around :: outer)).map
      (·.shift before.length block.length) = positions state.root (moved :: outer) := by
    rw [positions, positions, List.map_cons, map_shift_eq_self]
    simp [OpenStruct.shift, before, moved, Nat.add_assoc]
  have arranged : putOut state.root (moved :: outer) = before ++ block ++ inside := by
    simp [putOut, before, inside, moved]
  simp only [Flat.closeStruct, opens, named, if_true, Option.elim, put, Flat.hoist_append, shifted]
  rw [closed, ← arranged, ← output_eq_putOut { state with scopes := moved :: outer }]
  rfl

/-- Any other structure closes where it is. -/
theorem close_ofState {field : Field} {scope : Scope} {outer : List Scope}
    (scopes : state.scopes = scope :: outer) (stays : scope.hoists = false ∨ outer = [])
    (named : scope.opening.name = field.name) :
    (Flat.ofState state).closeStruct field = Flat.ofState <$> closeStruct field state := by
  let block : List Entry := .field scope.opening :: scope.body ++
    [Entry.field { field with offset := state.cursor }]
  have opens : (Flat.ofState state).opens =
      ⟨scope.opening.name, scope.opening.line, (putOut state.root outer ++ scope.front).length,
        none⟩ :: positions state.root outer := by
    rcases stays with stays | stays <;> simp [Flat.ofState, scopes, positions, stays]
  have closed : closeStruct field state =
      .ok ({ state with scopes := outer }.push (scope.front ++ block)) := by
    rcases stays with stays | stays <;> simp [closeStruct, scopes, named, stays, block]
  have put : (Flat.ofState state).putClosing field =
      Flat.ofState ({ state with scopes := outer }.push (scope.front ++ block)) := by
    rw [ofState_push]
    simp [Flat.putClosing, Flat.ofState, merge, output_eq_putOut, scopes, positions, putOut,
      State.push, State.withCurrent, State.current, block]
  simp only [Flat.closeStruct, opens, named, if_true, closed, Option.elim, put]
  rfl

theorem closeStruct_ofState (field : Field) (state : State) :
    (Flat.ofState state).closeStruct field = Flat.ofState <$> closeStruct field state := by
  cases scopes : state.scopes with
  | nil =>
    simp only [Flat.closeStruct, closeStruct, Flat.ofState, scopes, positions]
    rfl
  | cons scope outer =>
    by_cases named : scope.opening.name = field.name
    case neg =>
      simp only [Flat.closeStruct, closeStruct, Flat.ofState, scopes, positions, named, if_false]
      rfl
    cases hoists : scope.hoists with
    | false => exact close_ofState scopes (.inl hoists) named
    | true =>
      cases outer with
      | nil => exact close_ofState scopes (.inr rfl) named
      | cons around rest => exact hoist_ofState scopes hoists named

/-! ## Runs -/

theorem Listed.closeGroup (listed : Listed state) : Listed (closeGroup state) := by
  unfold Layout.closeGroup
  split
  · exact listed
  · refine ⟨?_, fun packing => by simp at packing⟩
    have opens := listed.opens
    unfold State.push State.withCurrent
    cases scopes : state.scopes with
    | nil => simp
    | cons scope outer => simpa [scopes] using opens

theorem settle_ofState (field : Field) (listed : Listed state) :
    (Flat.ofState state).settle field =
      Flat.ofState (closeGroup { state with lastLine := field.line }) := by
  have noted : Listed { state with lastLine := field.line } := ⟨listed.opens, listed.filled⟩
  have merged := closeGroup_merge noted.filled
  have same : SamePositions _ _ := samePositions_closeGroup { state with lastLine := field.line }
  simp only [Flat.settle, Flat.ofState, merged.symm, show positions _ _ = _ from same]
  rfl

theorem Flat.putOut_ofState {entry : Entry} (listed : Listed state) (puts : PutsOut entry) :
    (do return { Flat.ofState state with
      state := ← Layout.step rules sizing (Flat.ofState state).state entry }) =
      Flat.ofState <$> Layout.step rules sizing state entry := by
  show Layout.step rules sizing (merge state) entry >>= _ = _
  rw [step_merge listed puts, bind_map_left, map_eq_pure_bind]
  refine Logged.bind_congr fun next stepped => ?_
  have same : ofState next = ⟨merge next, positions state.root state.scopes⟩ :=
    congrArg (Flat.mk (merge next)) (samePositions_step puts stepped)
  rw [same]
  rfl

/-- Each step does to the list what it does to the open structures. -/
theorem step_ofState (listed : Listed state) (entry : Entry) :
    (Flat.ofState state).step rules sizing entry =
      Flat.ofState <$> step rules sizing state entry := by
  cases entry with
  | includeOpen path => exact Flat.putOut_ofState listed trivial
  | includeClose => exact Flat.putOut_ofState listed trivial
  | field field =>
    have noted : Listed { state with lastLine := field.line } := ⟨listed.opens, listed.filled⟩
    by_cases opens : field.role = .structOpen
    · simp only [Flat.step, step, addField, opens, settle_ofState field listed,
        openStruct_ofState field noted.closeGroup, map_pure]
    by_cases closes : field.role = .structClose
    · simp only [Flat.step, step, addField, closes, settle_ofState field listed,
        closeStruct_ofState, Logged.ofExcept_map]
    have puts := @Flat.putOut_ofState rules sizing state (.field field) listed ⟨opens, closes⟩
    rw [← puts]
    cases role : field.role with
    | structOpen => exact absurd role opens
    | structClose => exact absurd role closes
    | bitField => simp only [Flat.step, role]
    | action => simp only [Flat.step, role]
    | plain => simp only [Flat.step, role]
    | padding => simp only [Flat.step, role]

theorem Nests.opens {extra cursor : Option Nat} {inner : Outline} {path : List Level}
    (nests : Nests rules sizing extra inner path cursor) (front body : List Entry) :
    ∀ scope ∈ scopesOf front body path, scope.opening.role = .structOpen := by
  induction nests generalizing front body with
  | root => exact List.forall_mem_nil _
  | level _ opens _ ih => exact List.forall_mem_cons.2 ⟨opens.result_role, ih _ _⟩

theorem Reads.listed {done : List Entry} (reads : Reads rules sizing state done) :
    Listed state := by
  cases reads with
  | settled group nests shape =>
    exact ⟨shape.scopes ▸ nests.opens _ _, fun packing => by simp [group] at packing⟩
  | packing open_group nests places contains members_ne shape =>
    refine ⟨shape.scopes ▸ nests.opens _ _, fun _ => ?_⟩
    rw [shape.current_eq]
    simp [Packed.start]

theorem run_flat {done : List Entry} (reads : Reads rules sizing state done)
    (entries : List Entry) :
    (Flat.ofState state).run rules sizing entries =
      Flat.ofState <$> run rules sizing state entries := by
  induction entries generalizing state done with
  | nil => rfl
  | cons entry rest ih =>
    rw [Flat.run, run, step_ofState reads.listed, bind_map_left, map_bind]
    exact Logged.bind_congr fun next stepped => ih (reads_step reads stepped)

/-- A layout that keeps what it puts out in one list gives what a layout with its open structures
apart gives, notices and errors included. -/
theorem run_ofState (names : NamePool) (entries : List Entry) :
    Flat.run rules sizing { state := { names } } entries =
      Flat.ofState <$> run rules sizing { names } entries :=
  run_flat (reads_nil names) entries

end Layout
end BoardSchema
