import BoardSchema.Layout.State
import BoardSchema.Notice
import BoardSchema.Rules.Basic
/-!
Laying out a stream of entries. A cursor runs over the bytes: a field with an offset of its own ahead
of the cursor gets padding before it, one behind the cursor is an error. A bit member after a byte
field turns that field into a container. A header structure right after the opening of another
structure goes in front of it.
-/
namespace BoardSchema

/-- A stream with its offsets resolved, and its size if every length is a number. -/
structure Layout where
  entries : List Entry
  size : Option Nat
  deriving DecidableEq, Repr

/-- Whether lengths have to be numbers. Strict sizing asks for the size of a template's expansion,
given the call and the line it stands on; lenient sizing leaves it open. -/
inductive Sizing where
  | strict (size : ExpandCall → Nat → Logged Nat)
  | lenient

namespace Layout

/-- The widest byte field that bits are packed into. -/
def maxContainer : Nat := 8

/-- The padding over a gap. -/
def paddingField (name : String) (cursor gap line : Nat) : Field :=
  { name, role := .padding, line, declaredOffset := .fixed cursor, offset := some cursor
    length := .fixed gap, value := some "0", metadata := { kind := some "Reserved" } }

/-- Puts padding over a gap. -/
def pad (cursor gap line : Nat) (state : State) : State :=
  let (name, names) := state.names.take
  { state with names }.push [.field (paddingField name cursor gap line)]

/-- Moves the cursor to the offset that a field declares. -/
def seek (field : Field) (state : State) : Except CompileError State :=
  match field.declaredOffset, state.cursor with
  | .auto, _ => .ok state
  | .fixed offset, none => .ok { state with cursor := some offset }
  | .fixed offset, some cursor =>
    if offset < cursor then .error (.offsetRegression field.line field.name offset cursor)
    else if cursor < offset then
      .ok { pad cursor (offset - cursor) field.line state with cursor := some offset }
    else .ok state

/-- The length of a field and the number of bytes that it takes, if that is known. -/
def extent (sizing : Sizing) (field : Field) : Logged (Length × Option Nat) :=
  match sizing, field.expand with
  | .strict size, some call => do
    let bytes ← size call field.line
    return (.fixed bytes, some bytes)
  | .strict _, none =>
    match field.length with
    | .fixed bytes => return (.fixed bytes, some bytes)
    | .symbolic text => Logged.fail (.unresolvedLength field.line field.name text)
  | .lenient, some _ => return (field.length, none)
  | .lenient, none => return (field.length, field.length.fixed?)

/-- The cursor behind a field. It stays a number of 64 bits. -/
def advance (field : Field) (cursor bytes : Option Nat) : Except CompileError (Option Nat) :=
  match cursor, bytes with
  | some cursor, some bytes =>
    if cursor + bytes < Numeral.wordBound then .ok (some (cursor + bytes))
    else
      .error (.malformedField field.line (s!"`{field.name}` of {Numeral.hex 1 bytes} bytes at " ++
        s!"{Numeral.hex 1 cursor} overflows the offset range"))
  | _, _ => .ok none

/-- Places a byte field or an expansion at the cursor. -/
def place (sizing : Sizing) (field : Field) (state : State) : Logged State := do
  let state ← Logged.ofExcept (seek field state)
  let (length, bytes) ← extent sizing field
  let cursor ← Logged.ofExcept (advance field state.cursor bytes)
  return { state with cursor }.push [.field { field with offset := state.cursor, length }]

/-- The bracket that ends a group of bit members. -/
def groupClosing (name : String) (line : Nat) (cursor : Option Nat) : Field :=
  { name, role := .structClose, line, offset := cursor }

/-- Ends the group of bit members, if there is one. -/
def closeGroup (state : State) : State :=
  match state.group with
  | none => state
  | some group =>
    let line := ((state.current.getLast?.bind Entry.field?).map Field.line).getD 0
    { state with group := none }.push [.field (groupClosing group.name line state.cursor)]

/-- A byte field of known size, which bits can be packed into. -/
def container? : Option Entry → Option (Field × Nat)
  | some (.field field) =>
    if field.isPlain then field.length.fixed?.map fun bytes => (field, bytes) else none
  | _ => none

/-- The bracket that a container opens with. It has the name of the container. -/
def containerOpening (container : Field) : Field :=
  { name := container.name, role := .structOpen, line := container.line
    declaredOffset := container.declaredOffset, offset := container.offset
    length := container.length }

/-- The first entry of a container, which keeps the attributes of the byte field. -/
def containerMarker (rules : Rules) (container : Field) : Field :=
  { container with name := rules.bitGroupTag }

/-- The group of a container of that many bytes, before any member. -/
def BitGroup.ofContainer (container : Field) (bytes : Nat) : BitGroup :=
  { name := container.name, offset := container.offset
    image := (container.value.bind fun value => Numeral.parse value.toList).map
      (Bits.littleEndian bytes)
    bits := bytes * 8, nextBit := some 0 }

/-- Turns the byte field before a bit member into a container: a structure of the same name whose
first entry keeps the attributes of the field. -/
def openGroup (rules : Rules) (member : Field) (state : State) :
    Except CompileError (State × BitGroup) :=
  match container? state.current.getLast? with
  | none =>
    .error (.malformedField member.line
      s!"bit-field `{member.name}` does not follow a byte field it can be packed into")
  | some (container, bytes) =>
    if maxContainer < bytes then
      .error (.malformedField member.line
        (s!"bit-field `{member.name}` is packed into `{container.name}` of {bytes} bytes, " ++
          s!"containers hold at most {maxContainer}"))
    else
      .ok (state.replaceLast
          [.field (containerOpening container), .field (containerMarker rules container)],
        .ofContainer container bytes)

/-- The end of a member as it is reported, within 32 bits. -/
def overflow (member : Field) (last bits : Nat) : CompileError :=
  .bitFieldOverflow member.line member.name (min last 0xffffffff) bits

/-- A member takes the next bits of its group and reads its value there. Behind a member of unknown
width no bit is known. -/
def packMember (member : Field) (group : BitGroup) : Except CompileError (Field × BitGroup) :=
  let member := { member with offset := group.offset }
  match group.nextBit, member.length with
  | some start, .fixed width =>
    let last := start + width
    if group.bits < last then .error (overflow member last group.bits)
    else
      let packed := { member with bitOffset := some start }
      let group := { group with nextBit := some last }
      match group.image with
      | none => .ok (packed, group)
      | some image =>
        match Bits.read image start width with
        | .ok value => .ok ({ packed with value := some (Numeral.hex 1 value) }, group)
        | .error _ => .error (overflow member last group.bits)
  | _, _ => .ok (member, { group with nextBit := none })

/-- Packs a member into the group that is open, or into a new one. -/
def bitMember (rules : Rules) (member : Field) (state : State) : Except CompileError State := do
  let (state, group) ←
    match state.group with
    | some group => pure (state, group)
    | none => openGroup rules member state
  let (member, group) ← packMember member group
  return { state with group := some group }.push [.field member]

/-- Nothing stands between the opening of a structure and here, padding aside. -/
def atOpening : List Entry → Bool
  | [] => true
  | [.field field] => field.role = .padding
  | _ => false

/-- Opens a structure. A header structure that goes in front of the structure around it leaves its
tag there, unless that structure has one. -/
def openStruct (rules : Rules) (field : Field) (state : State) : State :=
  let opening := { field with offset := state.cursor }
  match state.scopes with
  | [] => { state with scopes := [{ opening, hoists := false }] }
  | scope :: outer =>
    if (rules.headerForStruct? field.name).isSome && atOpening scope.body then
      let around := { scope.opening with tag := scope.opening.tag <|> field.tag }
      { state with scopes := { opening, hoists := true } :: { scope with opening := around } :: outer }
    else { state with scopes := { opening, hoists := false } :: scope :: outer }

/-- Closes the innermost structure, which has to have the name. What was to stand in front of it
stays with the structure around it, also if the structure itself goes further to the front. -/
def closeStruct (field : Field) (state : State) : Except CompileError State :=
  match state.scopes with
  | [] => .error (.unbalancedStruct field.line field.name)
  | scope :: outer =>
    if scope.opening.name = field.name then
      let closing := { field with offset := state.cursor }
      let block := .field scope.opening :: scope.body ++ [.field closing]
      match scope.hoists, outer with
      | true, around :: rest =>
        let around := { around with front := around.front ++ block, body := around.body ++ scope.front }
        .ok { state with scopes := around :: rest }
      | _, outer => .ok ({ state with scopes := outer }.push (scope.front ++ block))
    else .error (.unbalancedStruct field.line field.name)

/-- Takes in a field. -/
def addField (rules : Rules) (sizing : Sizing) (field : Field) (state : State) : Logged State :=
  let state := { state with lastLine := field.line }
  match field.role with
  | .bitField => Logged.ofExcept (bitMember rules field state)
  | .structOpen => return openStruct rules field (closeGroup state)
  | .structClose => Logged.ofExcept (closeStruct field (closeGroup state))
  | .action =>
    let state := closeGroup state
    return state.push [.field { field with offset := state.cursor }]
  | .plain => place sizing field (closeGroup state)
  | .padding => place sizing field (closeGroup state)

/-- Takes in an entry. -/
def step (rules : Rules) (sizing : Sizing) (state : State) : Entry → Logged State
  | .field field => addField rules sizing field state
  | .includeOpen path =>
    let state := closeGroup state
    return { state with includes := state.includes + 1 }.push [.includeOpen path]
  | .includeClose =>
    let state := closeGroup state
    if state.includes = 0 then Logged.fail (.unbalancedInclude state.lastLine)
    else return { state with includes := state.includes - 1 }.push [.includeClose]

def run (rules : Rules) (sizing : Sizing) (state : State) : List Entry → Logged State
  | [] => pure state
  | entry :: rest => do
    let state ← step rules sizing state entry
    run rules sizing state rest

/-- Every structure has to be closed at the end. -/
def finish (state : State) : Except CompileError (Layout × NamePool) :=
  let state := closeGroup state
  match state.scopes with
  | [] => .ok (⟨state.root, state.cursor⟩, state.names)
  | scope :: _ => .error (.unbalancedStruct scope.opening.line scope.opening.name)

/-- Lays out a stream, with names for padding from a pool. -/
def ofEntries (rules : Rules) (sizing : Sizing) (names : NamePool) (entries : List Entry) :
    Logged (Layout × NamePool) := do
  let state ← run rules sizing { names } entries
  Logged.ofExcept (finish state)

end Layout
end BoardSchema
