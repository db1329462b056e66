import BoardSchema.Line.Event
import BoardSchema.Notice
import BoardSchema.Rules.Basic
/-!
Turning lines into a stream of entries. Metadata waits in the builder until a field takes it. A
faulty pragma block is reported and passed over; a bit member without a width ends the stream.
-/
namespace BoardSchema

/-- What the lines so far leave open: metadata that no field has taken yet, and the structures
that are open with their tags, innermost first. -/
structure Builder where
  pending : Metadata := {}
  embeds : List (String × Option Nat) := []
  deriving DecidableEq, Repr

namespace Builder

/-- What became of a block, a pragma or a line: the builder afterwards, the problems that were
passed over, and the entries or the error that ends the stream. -/
structure Step where
  builder : Builder
  problems : List CompileError := []
  result : Except CompileError (List Entry) := .ok []

/-- A number behind `TAG_`, as a tag of 32 bits. -/
def tagDigits? (text : List Char) : Option (List Char × Nat) :=
  ("TAG_".toList.isPrefixOf? text).bind fun digits =>
    (Numeral.read? 16 0x100000000 digits).map fun tag => (digits, tag)

/-- A plain value replaces a text; one that starts with `+` continues it on a new line. -/
def addMetadata (pending : Metadata) (key : MetaKey) (value : String) : Metadata :=
  match value.toList with
  | '+' :: rest =>
    let more := String.ofList (Text.trimStart rest)
    match pending.get key with
    | some text => pending.set key (text ++ "\n" ++ more)
    | none => pending.set key more
  | _ => pending.set key value

/-- The metadata keys of a pragma on a field. -/
def fieldKey? : String → Option MetaKey
  | "NAME" => some .name
  | "HELP" => some .help
  | "TYPE" => some .kind
  | "PAGE" => some .page
  | "OPTION" => some .choices
  | "CONDITION" => some .condition
  | "ORDER" => some .order
  | "MARKER" => some .marker
  | _ => none

/-- A width with its unit `b` dropped, if the rest is a number. -/
def withoutUnit (width : List Char) : List Char :=
  if width.getLast? = some 'b' && (Numeral.parse width.dropLast).isSome then width.dropLast
  else width

/-- The name and the width of a bit member. -/
def bitMember? (value : List Char) : Option (String × Length) :=
  (Text.cutAt? ':' value).bind fun (name, width) =>
    let name := Text.trim name
    if name.isEmpty then none
    else some (String.ofList name, .parse (withoutUnit (Text.trim width)))

/-- An argument `TAG_h` is the number `0xh`. -/
def argument (text : List Char) : String :=
  match tagDigits? text with
  | some (digits, _) => "0x" ++ String.ofList digits
  | none => String.ofList text

def isHexText (text : String) : Bool :=
  "0x".toList.isPrefixOf text.toList || "0X".toList.isPrefixOf text.toList

/-- The arguments of a header template. The tag of the structure around the call takes the place of
every sentinel, or else comes second unless a number already stands there. Without a tag the
arguments stay, and it is a problem if one was needed. -/
def headerArgs (line : Nat) (rule : HeaderRule) (tag : Option Nat) (args : List String) :
    List String × List CompileError :=
  let hasSentinel := args.contains rule.sentinel
  let hasTag := args[1]?.any isHexText
  match tag with
  | some tag =>
    let tagText := Numeral.hex 3 tag
    if hasSentinel then (args.map fun arg => if arg = rule.sentinel then tagText else arg, [])
    else if hasTag then (args, [])
    else (args.take 1 ++ tagText :: args.drop 1, [])
  | none =>
    if hasSentinel || !hasTag then
      (args, [.malformedPragma line "SUBT"
        s!"header template `{rule.template}` used outside of a tagged `EMBED` block"])
    else (args, [])

/-- The call of a template: its name and arguments, parted by colons. -/
def expandCall? (rules : Rules) (line : Nat) (tag : Option Nat) (value : List Char) :
    Option ExpandCall × List CompileError :=
  match (value.splitOn ':').map Text.trim with
  | [] => (none, [])
  | template :: args =>
    if template.isEmpty then
      (none, [.malformedPragma line "SUBT" "missing template name"])
    else
      let template := String.ofList template
      let args := args.map argument
      match rules.headerForTemplate? template with
      | none => (some ⟨template, args⟩, [])
      | some rule =>
        let (args, problems) := headerArgs line rule tag args
        (some ⟨template, args⟩, problems)

/-- A block of a pragma on a field. -/
def applyBsf (rules : Rules) (line : Nat) (builder : Builder) (block : Block) : Step :=
  match fieldKey? block.key with
  | some key => { builder := { builder with pending := addMetadata builder.pending key block.value } }
  | none =>
    match block.key with
    | "PAGES" =>
      let action : Field :=
        { name := "$ACTION", role := .action, line, metadata := { page := some block.value } }
      { builder, result := .ok [.field action] }
    | "FIELD" =>
      match bitMember? block.value.toList with
      | none => { builder, result := .error (.bitFieldSyntax line block.value) }
      | some (name, width) =>
        let member : Field :=
          { name, role := .bitField, line, length := width, metadata := builder.pending }
        { builder := { builder with pending := {} }, result := .ok [.field member] }
    | "SUBT" =>
      let tag := builder.embeds.head?.bind (·.2)
      let (call, problems) := expandCall? rules line tag block.value.toList
      let entries := call.toList.map fun call => Entry.field
        { name := call.template, role := .plain, line, length := .symbolic "", expand := some call }
      { builder := { builder with pending := {} }, problems, result := .ok entries }
    | _ => { builder }

/-- What `NAME:START`, `NAME:TAG_h:START` and the like say, or what is wrong with it. -/
inductive Embed where
  | start (name : String) (tag : Option Nat)
  | stop (name : String)
  deriving DecidableEq, Repr

/-- The number of parts is judged first, then the tag, the name and the last word. -/
def embed (value : List Char) : Except String Embed :=
  let bound (name : List Char) (tag : Option Nat) (word : List Char) : Except String Embed :=
    if name.isEmpty then .error "missing structure name"
    else
      match String.ofList (word.map Char.toUpper) with
      | "START" => .ok (.start (String.ofList name) tag)
      | "END" => .ok (.stop (String.ofList name))
      | other => .error s!"expected START or END, found `{other}`"
  match (value.splitOn ':').map Text.trim with
  | [name, word] => bound name none word
  | [name, tag, word] =>
    match tagDigits? tag with
    | some (_, tag) => bound name (some tag) word
    | none =>
      let shown := String.ofList tag
      .error s!"invalid tag `{shown}`"
  | _ =>
    let shown := String.ofList value
    .error s!"expected `NAME[:TAG_xxx]:START|END`, found `{shown}`"

/-- The structures left open when `name` ends: those around the innermost of that name, or all of
them if there is none. -/
def closeEmbed (embeds : List (String × Option Nat)) (name : String) :
    List (String × Option Nat) :=
  match embeds.dropWhile (·.1 ≠ name) with
  | [] => embeds
  | _ :: outer => outer

/-- A block of a pragma on a structure. -/
def applyHdr (line : Nat) (builder : Builder) (block : Block) : Step :=
  match block.key with
  | "EMBED" =>
    match embed block.value.toList with
    | .error detail => { builder, problems := [.malformedPragma line "EMBED" detail] }
    | .ok (.start name tag) =>
      let opening : Field := { name, role := .structOpen, line, tag, metadata := builder.pending }
      { builder := { pending := {}, embeds := (name, tag) :: builder.embeds }
        result := .ok [.field opening] }
    | .ok (.stop name) =>
      { builder := { builder with embeds := closeEmbed builder.embeds name }
        result := .ok [.field { name, role := .structClose, line }] }
  | "STRUCT" => { builder := { builder with pending := addMetadata builder.pending .layout block.value } }
  | _ => { builder }

/-- Block after block, up to the first error. -/
def applyBlocks (apply : Builder → Block → Step) (builder : Builder) : List Block → Step
  | [] => { builder }
  | block :: rest =>
    let first := apply builder block
    match first.result with
    | .error error => { first with result := .error error }
    | .ok entries =>
      let later := applyBlocks apply first.builder rest
      { later with
        problems := first.problems ++ later.problems
        result := later.result.map (entries ++ ·) }

def applyPragma (apply : Builder → Block → Step) (builder : Builder) (pragma : Pragma) : Step :=
  let step := applyBlocks apply builder pragma.blocks
  { step with problems := pragma.malformed ++ step.problems }

/-- Feeds one line to the builder. -/
def apply (rules : Rules) (builder : Builder) (line : Nat) : LineEvent → Step
  | .declaration d =>
    let field : Field :=
      { name := d.name, role := .plain, line, declaredOffset := d.offset, length := d.length
        value := some d.value, metadata := builder.pending }
    { builder := { builder with pending := {} }, result := .ok [.field field] }
  | .includeOpen path => { builder, result := .ok [.includeOpen path] }
  | .includeClose => { builder, result := .ok [.includeClose] }
  | .bsf pragma => applyPragma (applyBsf rules line) builder pragma
  | .hdr pragma => applyPragma (applyHdr line) builder pragma
  | .sectionHeader _ => { builder }
  | .unrecognized => { builder }

end Builder

/-- A stream of entries and the problems that were passed over on the way. -/
structure Built where
  entries : List Entry
  problems : List CompileError
  deriving DecidableEq, Repr

namespace Built

/-- Builds the entries of the lines that follow `builder`. -/
def ofLinesFrom (rules : Rules) (builder : Builder) : List SourceLine → Logged Built
  | [] => pure ⟨[], []⟩
  | line :: rest => do
    let event ← Logged.ofExcept (LineEvent.ofLine line)
    let step := builder.apply rules line.number event
    Logged.noteAll (step.problems.map .recovered)
    let entries ← Logged.ofExcept step.result
    let later ← ofLinesFrom rules step.builder rest
    return ⟨entries ++ later.entries, step.problems ++ later.problems⟩

/-- Builds the entries of a run of lines. -/
def ofLines (rules : Rules) (lines : List SourceLine) : Logged Built :=
  ofLinesFrom rules {} lines

end Built
end BoardSchema
