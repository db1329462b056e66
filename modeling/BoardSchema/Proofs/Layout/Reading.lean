import BoardSchema.Proofs.Layout.Following
/-!
A layout reads a stream as an outline. While it is under way, the structures that are open form a
path of levels, each with the outline of what was declared before it. `Reads` is the invariant of a
run, and `exists_outline` is what it gives at the end.
-/
namespace BoardSchema.Layout

/-- A structure that is still open, with the outline of what was declared before it. -/
structure Level where
  before : Outline
  hoists : Bool
  opening : Placed

/-- The open structures as a layout keeps them, innermost first, where `front` and `body` are the
entries in front of the innermost one and in it. -/
def scopesOf (front body : List Entry) : List Level → List Scope
  | [] => []
  | level :: outer => ⟨level.opening.result, level.hoists, front, body⟩ ::
    scopesOf level.before.front level.before.body outer

def rootOf (body : List Entry) : List Level → List Entry
  | [] => body
  | level :: outer => rootOf level.before.body outer

/-- The stream declared so far. -/
def sourceOf : Outline → List Level → List Entry
  | inner, [] => inner.source
  | inner, level :: outer =>
    sourceOf level.before outer ++ .field level.opening.source :: inner.source

/-- A state holds these entries in front of and inside its innermost structure. -/
structure Matches (state : State) (front body : List Entry) (path : List Level) : Prop where
  root : state.root = rootOf body path
  scopes : state.scopes = scopesOf front body path

/-- Open structures that are laid out up to the cursor. The innermost one takes over the tag
`extra`, if it takes one over. -/
inductive Nests (rules : Rules) (sizing : Sizing) :
    (extra : Option Nat) → Outline → List Level → Option Nat → Prop
  | root {extra cursor : Option Nat} {inner : Outline}
      (follows : Follows rules sizing false (some 0) inner cursor) :
      Nests rules sizing extra inner [] cursor
  | level {extra start cursor : Option Nat} {inner : Outline} {level : Level} {outer : List Level}
      (around : Nests rules sizing (if level.hoists then level.opening.source.tag else none)
        level.before outer start)
      (opens : Opens rules (!outer.isEmpty) level.before start level.hoists level.opening
        (inner.headerTag.or extra))
      (follows : Follows rules sizing true start inner cursor) :
      Nests rules sizing extra inner (level :: outer) cursor

/-- A state that has read a stream. Between two members of a container its closing bracket is still
to come. -/
inductive Reads (rules : Rules) (sizing : Sizing) (state : State) : List Entry → Prop
  | settled {inner : Outline} {path : List Level} (group : state.group = none)
      (nests : Nests rules sizing none inner path state.cursor)
      (shape : Matches state inner.front inner.body path) :
      Reads rules sizing state (sourceOf inner path)
  | packing {inner : Outline} {path : List Level} {packed : Packed} {group : BitGroup}
      {start : Option Nat} (open_group : state.group = some group)
      (nests : Nests rules sizing none inner path start)
      (places : Places sizing start packed.toCell state.cursor)
      (contains : Contains rules packed group) (members_ne : packed.members ≠ [])
      (shape : Matches state inner.front (inner.body ++ packed.start) path) :
      Reads rules sizing state (sourceOf inner path ++
        .field packed.source :: packed.members.map fun member => .field member.source)

/-! ## States and their entries -/

namespace Matches

variable {state : State} {front body : List Entry} {path : List Level}

theorem current_eq (shape : Matches state front body path) : state.current = body := by
  obtain ⟨root, scopes⟩ := shape
  cases path with
  | nil => simp [State.current, root, scopes, rootOf, scopesOf]
  | cons level outer => simp [State.current, scopes, scopesOf]

theorem withCurrent (shape : Matches state front body path) (entries : List Entry) :
    Matches (state.withCurrent entries) front entries path := by
  obtain ⟨root, scopes⟩ := shape
  cases path with
  | nil => exact ⟨by simp [State.withCurrent, scopes, scopesOf, rootOf],
      by simp [State.withCurrent, scopes, scopesOf]⟩
  | cons level outer => exact ⟨by simp [State.withCurrent, scopes, scopesOf, root, rootOf],
      by simp [State.withCurrent, scopes, scopesOf]⟩

theorem push (shape : Matches state front body path) (entries : List Entry) :
    Matches (state.push entries) front (body ++ entries) path := by
  rw [State.push, shape.current_eq]
  exact shape.withCurrent _

end Matches

theorem cursor_withCurrent (state : State) (entries : List Entry) :
    (state.withCurrent entries).cursor = state.cursor := by
  unfold State.withCurrent
  cases state.scopes <;> rfl

theorem group_withCurrent (state : State) (entries : List Entry) :
    (state.withCurrent entries).group = state.group := by
  unfold State.withCurrent
  cases state.scopes <;> rfl

@[simp] theorem cursor_push (state : State) (entries : List Entry) :
    (state.push entries).cursor = state.cursor := cursor_withCurrent _ _

@[simp] theorem group_push (state : State) (entries : List Entry) :
    (state.push entries).group = state.group := group_withCurrent _ _

/-- What is added to the innermost outline leaves the structures around it alone. -/
theorem Nests.grow {rules : Rules} {sizing : Sizing} {extra more cursor next : Option Nat}
    {inner grown : Outline} {path : List Level}
    (nests : Nests rules sizing extra inner path cursor)
    (tag : inner.headerTag.or extra = grown.headerTag.or more)
    (follows : ∀ start, Follows rules sizing (!path.isEmpty) start inner cursor →
      Follows rules sizing (!path.isEmpty) start grown next) :
    Nests rules sizing more grown path next := by
  cases nests with
  | root h => exact .root (follows _ h)
  | level around opens h =>
    rw [tag] at opens
    exact .level around opens (follows _ h)

theorem sourceOf_grow {inner : Outline} (grown : Outline) {entries : List Entry} (path : List Level)
    (h : grown.source = inner.source ++ entries) :
    sourceOf grown path = sourceOf inner path ++ entries := by
  cases path with
  | nil => exact h
  | cons level outer => simp [sourceOf, h]

/-! ## Byte fields -/

theorem push_push (state : State) (left right : List Entry) :
    (state.push left).push right = state.push (left ++ right) := by
  unfold State.push State.withCurrent State.current
  cases state.scopes <;> simp

theorem push_nil (state : State) : state.push [] = state := by
  obtain ⟨_, _, _, scopes, _, _, _⟩ := state
  cases scopes <;> simp [State.push, State.withCurrent, State.current]

theorem cursor_push_comm (state : State) (entries : List Entry) (cursor : Option Nat) :
    { state.push entries with cursor } = { state with cursor }.push entries := by
  unfold State.push State.withCurrent State.current
  cases state.scopes <;> rfl

/-- On its way to a field a layout takes a name at most, moves the cursor and puts out padding. -/
theorem seek_eq_ok {field : Field} {state next : State} (h : seek field state = .ok next) :
    ∃ (padding : Option Field) (names : NamePool), Seeks field state.cursor padding next.cursor ∧
      next = { state with names, cursor := next.cursor }.push (padding.toList.map .field) := by
  unfold seek at h
  split at h
  · next declared =>
    cases h
    exact ⟨none, state.names, .auto declared, (push_nil state).symm⟩
  · next offset declared unknown =>
    cases h
    refine ⟨none, state.names, ?_, (push_nil _).symm⟩
    rw [unknown]
    exact .jump declared
  · next offset cursor declared known =>
    split at h
    · cases h
    · next behind =>
      split at h
      · next ahead =>
        cases h
        refine ⟨some (paddingField state.names.take.1 cursor (offset - cursor) field.line),
          state.names.take.2, ?_, cursor_push_comm _ _ _⟩
        rw [known]
        exact .gap _ declared ahead
      · next ahead =>
        cases h
        have here : cursor = offset := by omega
        refine ⟨none, state.names, ?_, (push_nil state).symm⟩
        rw [known, here]
        exact .here declared

theorem place_eq_ok {sizing : Sizing} {field : Field} {state next : State}
    (h : (place sizing field state).outcome = .ok next) :
    ∃ (cell : Cell) (names : NamePool), cell.source = field ∧
      Places sizing state.cursor cell next.cursor ∧
        next = { state with names, cursor := next.cursor }.push cell.entries := by
  unfold place at h
  obtain ⟨sought, hseek, h⟩ := Logged.outcome_bind_eq_ok.1 h
  obtain ⟨⟨length, bytes⟩, hextent, h⟩ := Logged.outcome_bind_eq_ok.1 h
  obtain ⟨cursor, hadvance, h⟩ := Logged.outcome_bind_eq_ok.1 h
  obtain ⟨padding, names, seeks, sought_eq⟩ := seek_eq_ok hseek
  cases h
  refine ⟨⟨⟨field, { field with offset := sought.cursor, length }⟩, padding⟩, names, rfl, ?_, ?_⟩
  · exact ⟨sought.cursor, bytes, seeks, hextent, by simpa using hadvance, rfl⟩
  · have padded : { sought with cursor } =
        { state with names, cursor }.push (padding.toList.map .field) :=
      (congrArg (fun state : State => { state with cursor }) sought_eq).trans
        (cursor_push_comm _ _ _)
    rw [Cell.entries, Cell.gap, ← push_push, cursor_push, padded, cursor_push]

/-- The last entry of an unfinished container is its last member. -/
theorem getLast?_start {packed : Packed} (members_ne : packed.members ≠ []) (body : List Entry) :
    (((body ++ packed.start).getLast?.bind Entry.field?).map Field.line).getD 0 =
      packed.lastLine := by
  obtain ⟨members, member, hmembers⟩ := List.eq_nil_or_concat packed.members |>.resolve_left
    members_ne
  have last : (body ++ packed.start).getLast? = some (.field member.result) := by
    have split : body ++ packed.start = (body ++ packed.gap ++ .field packed.opening ::
        .field packed.marker :: members.map fun member => .field member.result) ++
          [Entry.field member.result] := by
      simp [Packed.start, hmembers]
    rw [split, List.getLast?_concat]
  simp [last, Packed.lastLine, hmembers, Entry.field?]

/-- Ending the group of bit members completes the container. -/
theorem reads_closeGroup {rules : Rules} {sizing : Sizing} {state : State} {done : List Entry}
    (reads : Reads rules sizing state done) :
    Reads rules sizing (closeGroup state) done ∧ (closeGroup state).group = none ∧
      (closeGroup state).cursor = state.cursor := by
  cases reads with
  | settled group nests shape =>
    have same : closeGroup state = state := by simp [closeGroup, group]
    rw [same]
    exact ⟨.settled group nests shape, group, rfl⟩
  | @packing inner path packed group start open_group nests places contains members_ne shape =>
    let closing := groupClosing packed.result.name packed.lastLine state.cursor
    have closed : closeGroup state = { state with group := none }.push [.field closing] := by
      simp only [closeGroup, open_group]
      rw [shape.current_eq, getLast?_start members_ne, contains.name_eq]
    let done : Packed := { packed with closing }
    have contains_done : Contains rules done group := ⟨contains.plain, contains.opening,
      contains.marker, contains.packs⟩
    have nests_done : Nests rules sizing none (.pack inner done) path state.cursor :=
      nests.grow rfl fun _ follows => .pack follows places contains_done members_ne rfl
    have ended : Matches { state with group := none } inner.front (inner.body ++ packed.start)
        path := ⟨shape.root, shape.scopes⟩
    have shape_done := ended.push [.field closing]
    rw [List.append_assoc] at shape_done
    rw [closed]
    refine ⟨?_, by simp, by simp⟩
    rw [← sourceOf_grow (.pack inner done) path rfl]
    exact .settled (by simp) (by simpa using nests_done) shape_done

/-! ## Marks and byte fields -/

variable {rules : Rules} {sizing : Sizing} {state : State} {done : List Entry}

theorem Reads.of_group_eq_none (reads : Reads rules sizing state done)
    (group : state.group = none) : ∃ inner path, Nests rules sizing none inner path state.cursor ∧
      Matches state inner.front inner.body path ∧ done = sourceOf inner path := by
  cases reads with
  | settled _ nests shape => exact ⟨_, _, nests, shape, rfl⟩
  | packing open_group => simp [group] at open_group

theorem reads_push_mark {source result : Entry} (reads : Reads rules sizing state done)
    (group : state.group = none) (marks : Marks state.cursor source result) :
    Reads rules sizing (state.push [result]) (done ++ [source]) := by
  obtain ⟨inner, path, nests, shape, rfl⟩ := reads.of_group_eq_none group
  have nests_mark : Nests rules sizing none (.mark inner source result) path state.cursor :=
    nests.grow rfl fun _ follows => .mark follows marks
  rw [← sourceOf_grow (.mark inner source result) path rfl]
  exact .settled (by simpa using group) (by simpa using nests_mark) (shape.push _)

theorem reads_place {field : Field} {next : State} (reads : Reads rules sizing state done)
    (group : state.group = none) (role : field.role = .plain ∨ field.role = .padding)
    (h : (place sizing field state).outcome = .ok next) :
    Reads rules sizing next (done ++ [Entry.field field]) := by
  obtain ⟨inner, path, nests, shape, rfl⟩ := reads.of_group_eq_none group
  obtain ⟨cell, names, rfl, places, next_eq⟩ := place_eq_ok h
  have nests_byte : Nests rules sizing none (.byte inner cell) path next.cursor :=
    nests.grow rfl fun _ follows => .byte follows role places
  have shape_before : Matches { state with names, cursor := next.cursor } inner.front inner.body
      path := ⟨shape.root, shape.scopes⟩
  rw [← sourceOf_grow (.byte inner cell) path rfl]
  rw [next_eq]
  exact .settled (by simpa using group) (by simpa using nests_byte) (shape_before.push _)

/-! ## Structures -/

/-- A structure that was opened has nothing in it yet. -/
theorem reads_opened (level : Level) (path : List Level) {state next : State}
    (group : next.group = none) (cursor : next.cursor = state.cursor)
    (nests : Nests rules sizing (if level.hoists then level.opening.source.tag else none)
      level.before path state.cursor)
    (opens : Opens rules (!path.isEmpty) level.before state.cursor level.hoists level.opening none)
    (root : next.root = rootOf level.before.body path)
    (scopes : next.scopes = ⟨level.opening.result, level.hoists, [], []⟩ ::
      scopesOf level.before.front level.before.body path) :
    Reads rules sizing next (sourceOf level.before path ++ [Entry.field level.opening.source]) := by
  have nests_level : Nests rules sizing none .nil (level :: path) next.cursor := by
    rw [cursor]
    exact .level nests opens .nil
  have shape : Matches next Outline.nil.front Outline.nil.body (level :: path) :=
    ⟨root, by rw [scopes, Outline.front, Outline.body, scopesOf]⟩
  exact .settled group nests_level shape

theorem reads_openStruct {field : Field} (reads : Reads rules sizing state done)
    (group : state.group = none) (role : field.role = .structOpen) :
    Reads rules sizing (openStruct rules field state) (done ++ [Entry.field field]) := by
  obtain ⟨inner, path, nests, shape, rfl⟩ := reads.of_group_eq_none group
  let opening : Placed := ⟨field, { field with offset := state.cursor }⟩
  have opening_eq : opening.result =
      { opening.source with offset := state.cursor, tag := opening.source.tag.or none } := by
    simp [opening]
  cases path with
  | nil =>
    have scopes : state.scopes = [] := shape.scopes
    have opened : openStruct rules field state =
        { state with scopes := [⟨opening.result, false, [], []⟩] } := by
      simp [openStruct, scopes, opening]
    have opens : Opens rules false inner state.cursor false opening none :=
      ⟨role, opening_eq, rfl⟩
    rw [opened]
    exact reads_opened ⟨inner, false, opening⟩ [] group rfl nests opens
      shape.root rfl
  | cons level outer =>
    have scopes : state.scopes = ⟨level.opening.result, level.hoists, inner.front, inner.body⟩ ::
      scopesOf level.before.front level.before.body outer := shape.scopes
    cases header : (rules.headerForStruct? field.name).isSome && atOpening inner.body with
    | true =>
      -- The structure around takes over the tag, so its level changes as well.
      let result := { level.opening.result with tag := level.opening.result.tag <|> field.tag }
      let tagged : Level := { level with opening := { level.opening with result } }
      have opened : openStruct rules field state = { state with scopes :=
          (⟨opening.result, true, [], []⟩ :: ⟨result, level.hoists, inner.front, inner.body⟩ ::
            scopesOf level.before.front level.before.body outer) } := by
        simp only [openStruct, scopes, header, ↓reduceIte]
        rfl
      have opens : Opens rules true inner state.cursor true opening none :=
        ⟨role, opening_eq, by simpa [isHeader] using header.symm⟩
      have nests_tagged : Nests rules sizing field.tag inner (tagged :: outer) state.cursor := by
        cases nests with
        | level before opens_level follows =>
          refine .level before ⟨opens_level.role, ?_, opens_level.hoists_eq⟩ follows
          simp [tagged, result, opens_level.result, Option.or_assoc]
      rw [opened]
      exact reads_opened ⟨inner, true, opening⟩ (tagged :: outer) group rfl
        nests_tagged opens shape.root rfl
    | false =>
      have opened : openStruct rules field state = { state with scopes :=
          (⟨opening.result, false, [], []⟩ :: state.scopes) } := by
        simp only [openStruct, scopes, header, Bool.false_eq_true, ↓reduceIte]
        rfl
      have opens : Opens rules true inner state.cursor false opening none :=
        ⟨role, opening_eq, by simpa [isHeader] using header.symm⟩
      rw [opened]
      exact reads_opened ⟨inner, false, opening⟩ (level :: outer) group rfl
        nests opens shape.root (by rw [scopes]; rfl)

theorem reads_closeStruct {field : Field} {next : State} (reads : Reads rules sizing state done)
    (group : state.group = none) (role : field.role = .structClose)
    (h : closeStruct field state = .ok next) :
    Reads rules sizing next (done ++ [Entry.field field]) := by
  obtain ⟨inner, path, nests, shape, rfl⟩ := reads.of_group_eq_none group
  let closing : Placed := ⟨field, { field with offset := state.cursor }⟩
  cases path with
  | nil =>
    have scopes : state.scopes = [] := shape.scopes
    simp [closeStruct, scopes] at h
  | cons level outer =>
    have scopes : state.scopes = ⟨level.opening.result, level.hoists, inner.front, inner.body⟩ ::
      scopesOf level.before.front level.before.body outer := shape.scopes
    obtain ⟨start, around, opens, follows⟩ : ∃ start, Nests rules sizing
        (if level.hoists then level.opening.source.tag else none) level.before outer start ∧
        Opens rules (!outer.isEmpty) level.before start level.hoists level.opening
          inner.headerTag ∧ Follows rules sizing true start inner state.cursor := by
      cases nests with
      | level around opens follows => exact ⟨_, around, by simpa using opens, follows⟩
    have result_name : level.opening.result.name = level.opening.source.name := by
      rw [opens.result]
    by_cases named : level.opening.result.name = field.name
    case neg => simp [closeStruct, scopes, named] at h
    let grown : Outline := .block level.before level.hoists level.opening inner closing
    have nests_grown : Nests rules sizing none grown outer state.cursor := by
      refine around.grow ?_ fun _ before => .block before opens follows ?_
      · cases hoists : level.hoists <;> simp [grown, Outline.headerTag, hoists]
      · exact ⟨role, named.symm.trans result_name, rfl⟩
    have source : sourceOf grown outer =
        sourceOf inner (level :: outer) ++ [Entry.field field] := by
      have growth : grown.source = level.before.source ++
          (.field level.opening.source :: inner.source ++ [Entry.field field]) := by
        simp [grown, Outline.source, closing]
      rw [sourceOf_grow grown outer growth]
      simp [sourceOf]
    rw [← source]
    cases hoists : level.hoists with
    | true =>
      cases outer with
      -- Outside of structures nothing goes to the front.
      | nil => simpa [hoists] using opens.hoists_eq
      | cons around rest =>
        simp only [closeStruct, scopes, named, ↓reduceIte, hoists, scopesOf] at h
        cases h
        refine .settled group nests_grown ⟨shape.root, ?_⟩
        simp [grown, scopesOf, Outline.front, Outline.body, hoists, closing]
    | false =>
      simp only [closeStruct, scopes, named, ↓reduceIte, hoists] at h
      cases h
      have shape_before : Matches
          { state with scopes := scopesOf level.before.front level.before.body outer }
          level.before.front level.before.body outer := ⟨shape.root, rfl⟩
      have front : grown.front = level.before.front := by simp [grown, hoists]
      have body : grown.body = level.before.body ++
          (inner.front ++
            (.field level.opening.result :: inner.body ++ [Entry.field closing.result])) := by
        simp [grown, hoists, closing]
      refine .settled (by simpa using group) (by simpa using nests_grown) ?_
      rw [front, body]
      exact shape_before.push _

/-! ## Containers -/

theorem container?_eq_some {entry : Option Entry} {field : Field} {bytes : Nat}
    (h : container? entry = some (field, bytes)) :
    entry = some (.field field) ∧ field.isPlain = true ∧ field.length = .fixed bytes := by
  unfold container? at h
  split at h
  · next last =>
    split at h
    · next plain =>
      obtain ⟨n, hn, heq⟩ := Option.map_eq_some_iff.1 h
      cases heq
      refine ⟨rfl, plain, ?_⟩
      unfold Length.fixed? at hn
      split at hn <;> simp_all
    · cases h
  · cases h

theorem Nests.of_getLast?_body {extra cursor : Option Nat} {inner : Outline} {path : List Level}
    {container : Field} (nests : Nests rules sizing extra inner path cursor)
    (last : inner.body.getLast? = some (.field container)) (plain : container.isPlain = true) :
    ∃ before cell, inner = .byte before cell ∧ cell.result = container := by
  cases nests with
  | root follows => exact follows.of_getLast?_body last plain
  | level _ _ follows => exact follows.of_getLast?_body last plain

theorem Nests.of_byte {extra cursor : Option Nat} {before : Outline} {cell : Cell}
    {path : List Level} (nests : Nests rules sizing extra (.byte before cell) path cursor) :
    ∃ start, Nests rules sizing extra before path start ∧ Places sizing start cell cursor := by
  cases nests with
  | root follows =>
    cases follows with
    | byte follows _ places => exact ⟨_, .root follows, places⟩
  | level around opens follows =>
    cases follows with
    | byte follows _ places => exact ⟨_, .level around opens follows, places⟩

/-- The byte field before the first member becomes a container without members. -/
theorem reads_openGroup {member : Field} {next : State} {group : BitGroup}
    (reads : Reads rules sizing state done) (settled : state.group = none)
    (h : openGroup rules member state = .ok (next, group)) :
    ∃ (inner : Outline) (path : List Level) (packed : Packed) (start : Option Nat),
      Nests rules sizing none inner path start ∧ Places sizing start packed.toCell next.cursor ∧
      Contains rules packed group ∧ packed.members = [] ∧
      Matches next inner.front (inner.body ++ packed.start) path ∧
      done = sourceOf inner path ++ [Entry.field packed.source] := by
  obtain ⟨inner, path, nests, shape, rfl⟩ := reads.of_group_eq_none settled
  unfold openGroup at h
  rw [shape.current_eq] at h
  split at h
  · cases h
  · next container bytes found =>
    obtain ⟨last, plain, length⟩ := container?_eq_some found
    split at h
    · cases h
    · next fits =>
      cases h
      obtain ⟨before, cell, rfl, rfl⟩ := nests.of_getLast?_body last plain
      obtain ⟨start, nests, places⟩ := nests.of_byte
      let packed : Packed := { cell with
        opening := containerOpening cell.result, marker := containerMarker rules cell.result
        members := [], closing := cell.result }
      have contains : Contains rules packed (.ofContainer cell.result bytes) :=
        ⟨places.isPlain_source plain, rfl, rfl, bytes, Nat.le_of_not_lt fits, length, .nil⟩
      refine ⟨before, path, packed, start, nests, ?_, contains, rfl, ?_, ?_⟩
      · rwa [State.replaceLast, cursor_withCurrent]
      · have body : (Outline.byte before cell).body.dropLast ++
            [Entry.field packed.opening, .field packed.marker] = before.body ++ packed.start := by
          rw [Outline.body, Cell.entries, ← List.append_assoc, List.dropLast_concat]
          simp [packed, Packed.start, Cell.gap]
        rw [State.replaceLast, shape.current_eq, body]
        exact shape.withCurrent _
      · rw [sourceOf_grow _ path rfl]

theorem reads_packMember {inner : Outline} {path : List Level} {packed : Packed}
    {group next : BitGroup} {start : Option Nat} {member result : Field}
    (nests : Nests rules sizing none inner path start)
    (places : Places sizing start packed.toCell state.cursor)
    (contains : Contains rules packed group)
    (shape : Matches state inner.front (inner.body ++ packed.start) path)
    (role : member.role = .bitField) (h : packMember member group = .ok (result, next)) :
    Reads rules sizing ({ state with group := some next }.push [.field result])
      (sourceOf inner path ++ (.field packed.source ::
        packed.members.map fun member => .field member.source) ++ [Entry.field member]) := by
  -- The container stays where it is and only gets longer.
  let grown : Packed := { packed with members := packed.members ++ [⟨member, result⟩] }
  have contains_grown : Contains rules grown next := by
    obtain ⟨bytes, fits, length, packs⟩ := contains.packs
    exact ⟨contains.plain, contains.opening, contains.marker, bytes, fits, length,
      packs.member role h⟩
  have start_grown : packed.start ++ [Entry.field result] = grown.start := by
    simp [Packed.start, grown, Cell.gap]
  have shape_group : Matches { state with group := some next } inner.front
      (inner.body ++ packed.start) path := ⟨shape.root, shape.scopes⟩
  have shape_grown := shape_group.push [.field result]
  rw [List.append_assoc, start_grown] at shape_grown
  have source : (.field packed.source :: packed.members.map fun member => .field member.source) ++
      [Entry.field member] = .field grown.source ::
        grown.members.map fun member => Entry.field member.source := by
    simp [grown]
  rw [List.append_assoc, source]
  have open_group : ({ state with group := some next }.push [.field result]).group = some next := by
    simp
  exact .packing open_group nests (by simpa using places) contains_grown (by simp [grown])
    shape_grown

theorem reads_bitMember {member : Field} {next : State} (reads : Reads rules sizing state done)
    (role : member.role = .bitField) (h : bitMember rules member state = .ok next) :
    Reads rules sizing next (done ++ [Entry.field member]) := by
  cases hgroup : state.group with
  | none =>
    simp only [bitMember, hgroup] at h
    obtain ⟨⟨opened, group⟩, hopen, h⟩ := bind_eq_ok.1 h
    obtain ⟨⟨result, group'⟩, hpack, h⟩ := bind_eq_ok.1 h
    cases h
    obtain ⟨inner, path, packed, start, nests, places, contains, empty, shape, rfl⟩ :=
      reads_openGroup reads hgroup hopen
    have grown := reads_packMember nests places contains shape role hpack
    simpa [empty] using grown
  | some group =>
    simp only [bitMember, hgroup, pure_bind] at h
    obtain ⟨⟨result, group'⟩, hpack, h⟩ := bind_eq_ok.1 h
    cases h
    cases reads with
    | settled settled => simp [settled] at hgroup
    | packing open_group nests places contains _ shape =>
      cases hgroup.symm.trans open_group
      exact reads_packMember nests places contains shape role hpack

/-! ## Runs -/

/-- Names, include brackets and line numbers play no part in what was read. -/
theorem Reads.congr {next : State} (reads : Reads rules sizing state done)
    (root : next.root = state.root) (scopes : next.scopes = state.scopes)
    (cursor : next.cursor = state.cursor) (group : next.group = state.group) :
    Reads rules sizing next done := by
  cases reads with
  | settled settled nests shape =>
    exact .settled (group.trans settled) (cursor ▸ nests)
      ⟨root.trans shape.root, scopes.trans shape.scopes⟩
  | packing open_group nests places contains members_ne shape =>
    exact .packing (group.trans open_group) nests (cursor ▸ places) contains members_ne
      ⟨root.trans shape.root, scopes.trans shape.scopes⟩

theorem reads_addField {field : Field} {next : State} (reads : Reads rules sizing state done)
    (h : (addField rules sizing field state).outcome = .ok next) :
    Reads rules sizing next (done ++ [Entry.field field]) := by
  unfold addField at h
  have reads : Reads rules sizing { state with lastLine := field.line } done :=
    reads.congr rfl rfl rfl rfl
  have ⟨closed, group, cursor⟩ := reads_closeGroup reads
  split at h
  · next role => exact reads_bitMember reads role h
  · next role =>
    cases h
    exact reads_openStruct closed group role
  · next role => exact reads_closeStruct closed group role h
  · next role =>
    cases h
    exact reads_push_mark closed group (.action role)
  · next role => exact reads_place closed group (.inl role) h
  · next role => exact reads_place closed group (.inr role) h

theorem reads_step {entry : Entry} {next : State} (reads : Reads rules sizing state done)
    (h : (step rules sizing state entry).outcome = .ok next) :
    Reads rules sizing next (done ++ [entry]) := by
  have ⟨closed, group, cursor⟩ := reads_closeGroup reads
  cases entry with
  | field field => exact reads_addField reads h
  | includeOpen path =>
    cases h
    exact reads_push_mark (closed.congr rfl rfl rfl rfl) group (.includeOpen path)
  | includeClose =>
    simp only [step] at h
    split at h
    · cases h
    · cases h
      exact reads_push_mark (closed.congr rfl rfl rfl rfl) group .includeClose

theorem reads_run {entries : List Entry} {next : State} (reads : Reads rules sizing state done)
    (h : (run rules sizing state entries).outcome = .ok next) :
    Reads rules sizing next (done ++ entries) := by
  induction entries generalizing state done with
  | nil =>
    cases h
    simpa using reads
  | cons entry rest ih =>
    obtain ⟨stepped, hstep, hrun⟩ := Logged.outcome_bind_eq_ok.1 h
    have read := ih (reads_step reads hstep) hrun
    rwa [List.append_assoc] at read

theorem reads_nil (names : NamePool) : Reads rules sizing { names } [] := by
  have nests : Nests rules sizing none .nil [] (some 0) := .root .nil
  have shape : Matches { names } Outline.nil.front Outline.nil.body [] := ⟨rfl, rfl⟩
  exact .settled rfl nests shape

/-- A layout gives the body of an outline of its stream. -/
theorem exists_outline {names next : NamePool} {entries : List Entry} {layout : Layout}
    (h : (ofEntries rules sizing names entries).outcome = .ok (layout, next)) :
    ∃ outline : Outline, outline.source = entries ∧ outline.body = layout.entries ∧
      Follows rules sizing false (some 0) outline layout.size := by
  obtain ⟨state, hrun, hfinish⟩ := Logged.outcome_bind_eq_ok.1 h
  have reads := reads_run (reads_nil names) hrun
  have ⟨closed, group, cursor⟩ := reads_closeGroup reads
  obtain ⟨inner, path, nests, shape, source⟩ := closed.of_group_eq_none group
  cases path with
  | cons level outer =>
    have scopes := shape.scopes
    simp [finish, scopes, scopesOf] at hfinish
  | nil =>
    have scopes : (closeGroup state).scopes = [] := shape.scopes
    have root : (closeGroup state).root = inner.body := shape.root
    simp only [finish, scopes] at hfinish
    cases hfinish
    refine ⟨inner, source.symm, root.symm, ?_⟩
    cases nests with
    | root follows => exact follows

end BoardSchema.Layout
