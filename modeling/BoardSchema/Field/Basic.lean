import BoardSchema.Field.Metadata
import BoardSchema.Numeral
/-!
Fields and the stream that they form: what a description declares, and what a layout resolves. A
stream also holds the brackets of include files, which say to which file a field belongs.
-/
namespace BoardSchema

/-- A declared offset: the running cursor, or a place of its own. -/
inductive Offset where
  | auto
  | fixed (offset : Nat)
  deriving DecidableEq, Repr, Inhabited

/-- A declared length: a number, or a text that is not a number yet. Byte fields count bytes and
bit members bits. -/
inductive Length where
  | fixed (length : Nat)
  | symbolic (text : String)
  deriving DecidableEq, Repr, Inhabited

namespace Length

/-- A text that is no number stays a symbol, trimmed. -/
def parse (text : List Char) : Length :=
  match Numeral.parse text with
  | some n => fixed n
  | none => symbolic (String.ofList (Text.trim text))

def fixed? : Length → Option Nat
  | fixed n => some n
  | symbolic _ => none

end Length

inductive Role where
  | plain
  /-- A member of a group of packed bits. -/
  | bitField
  | structOpen
  | structClose
  /-- Fills the gap before an explicit offset. -/
  | padding
  /-- A page marker, which takes no room. -/
  | action
  deriving DecidableEq, Repr, Inhabited

/-- A template with the arguments that it is to be expanded with. -/
structure ExpandCall where
  template : String
  args : List String
  deriving DecidableEq, Repr, Inhabited

def ExpandCall.text (call : ExpandCall) : String :=
  call.template ++ " : [ " ++ ", ".intercalate call.args ++ " ]"

structure Field where
  name : String
  role : Role
  /-- The line that declares the field. -/
  line : Nat
  declaredOffset : Offset := .auto
  /-- The byte offset that the layout gives. -/
  offset : Option Nat := none
  length : Length := .fixed 0
  value : Option String := none
  metadata : Metadata := {}
  expand : Option ExpandCall := none
  /-- The tag of a structure. -/
  tag : Option Nat := none
  /-- The first bit of a member inside its container. -/
  bitOffset : Option Nat := none
  deriving DecidableEq, Repr, Inhabited

/-- A byte field that stands for itself, so bits can be packed into it. -/
def Field.isPlain (field : Field) : Bool := field.role = .plain && field.expand.isNone

/-- An element of a stream. -/
inductive Entry where
  | field (field : Field)
  | includeOpen (path : String)
  | includeClose
  deriving DecidableEq, Repr, Inhabited

def Entry.field? : Entry → Option Field
  | .field f => some f
  | _ => none

end BoardSchema
