import BoardSchema.Text.Search
/-!
The arguments of the command. Flags of one letter may be joined, a value may be attached to its
option or follow it, and every option but the verbosity comes at most once.
-/
namespace BoardSchema.Command

structure Options where
  input : String
  output : String := "."
  all : Bool := false
  rules : Option String := none
  json : Bool := false
  noConfirmOverwrite : Bool := false
  verbosity : Nat := 0
  deriving DecidableEq, Repr

/-- What the arguments ask for. -/
inductive Request where
  | compile (options : Options)
  | version
  | help
  | misuse
  deriving DecidableEq, Repr

/-- The options read so far. -/
structure Given where
  input : Option String := none
  output : Option String := none
  all : Bool := false
  rules : Option String := none
  json : Bool := false
  noConfirmOverwrite : Bool := false
  verbosity : Nat := 0
  deriving DecidableEq, Repr

inductive Flag where
  | all
  | json
  | noConfirmOverwrite
  | verbose
  | version
  | help
  deriving DecidableEq, Repr

inductive ValueOption where
  | input
  | output
  | rules
  deriving DecidableEq, Repr

inductive OptionName where
  | flag (flag : Flag)
  | value (option : ValueOption)
  deriving DecidableEq, Repr

def longName? : String → Option OptionName
  | "input" => some (.value .input)
  | "output" => some (.value .output)
  | "rules" => some (.value .rules)
  | "all" => some (.flag .all)
  | "json" => some (.flag .json)
  | "no-confirm-overwrite" => some (.flag .noConfirmOverwrite)
  | "version" => some (.flag .version)
  | "help" => some (.flag .help)
  | _ => none

def shortName? : Char → Option OptionName
  | 'i' => some (.value .input)
  | 'o' => some (.value .output)
  | 'a' => some (.flag .all)
  | 'v' => some (.flag .verbose)
  | 'V' => some (.flag .version)
  | 'h' => some (.flag .help)
  | _ => none

/-- Reading stops early where an argument settles the request. -/
abbrev Reading := Except Request

def Given.setFlag (given : Given) : Flag → Reading Given
  | .all => if given.all then .error .misuse else .ok { given with all := true }
  | .json => if given.json then .error .misuse else .ok { given with json := true }
  | .noConfirmOverwrite =>
    if given.noConfirmOverwrite then .error .misuse
    else .ok { given with noConfirmOverwrite := true }
  | .verbose => .ok { given with verbosity := given.verbosity + 1 }
  | .version => .error .version
  | .help => .error .help

def Given.setValue (given : Given) (value : String) : ValueOption → Reading Given
  | .input => if given.input.isSome then .error .misuse else .ok { given with input := some value }
  | .output =>
    if given.output.isSome then .error .misuse else .ok { given with output := some value }
  | .rules => if given.rules.isSome then .error .misuse else .ok { given with rules := some value }

/-- An argument that an option cannot take as its value. -/
def isOptionLike (argument : String) : Bool :=
  argument.toList.head? = some '-' && argument ≠ "-"

/-- What one argument leaves to be read: an option may wait for its value. -/
structure Pending where
  given : Given
  waiting : Option ValueOption := none

/-- The value attached to a letter; an equals sign before it does not count. -/
def attached? : List Char → Option String
  | [] => none
  | '=' :: value => some (String.ofList value)
  | value => some (String.ofList value)

/-- Joined options of one letter; the first that takes a value takes the rest. -/
def readShort (given : Given) : List Char → Reading Pending
  | [] => .ok { given }
  | letter :: rest =>
    match shortName? letter with
    | none => .error .misuse
    | some (.flag flag) => do readShort (← given.setFlag flag) rest
    | some (.value option) =>
      match attached? rest with
      | some value => do return { given := ← given.setValue value option }
      | none => .ok { given, waiting := some option }

/-- An option by its full name, with or without a value behind an equals sign. -/
def readLong (given : Given) (text : List Char) : Reading Pending :=
  let (name, value) :=
    match Text.cutAt? '=' text with
    | some (name, value) => (name, some (String.ofList value))
    | none => (text, none)
  match longName? (String.ofList name), value with
  | none, _ => .error .misuse
  | some (.flag _), some _ => .error .misuse
  | some (.flag flag), none => do return { given := ← given.setFlag flag }
  | some (.value option), some value => do return { given := ← given.setValue value option }
  | some (.value option), none => .ok { given, waiting := some option }

/-- Reads the arguments that follow. Nothing may stand for itself. -/
def readAll (given : Given) (waiting : Option ValueOption) : List String → Reading Given
  | [] => if waiting.isSome then .error .misuse else .ok given
  | argument :: rest =>
    match waiting with
    | some option =>
      if isOptionLike argument then .error .misuse
      else do readAll (← given.setValue argument option) none rest
    | none =>
      match argument.toList with
      | ['-', '-'] => if rest.isEmpty then .ok given else .error .misuse
      | '-' :: '-' :: text => do
        let pending ← readLong given text
        readAll pending.given pending.waiting rest
      | '-' :: letter :: text => do
        let pending ← readShort given (letter :: text)
        readAll pending.given pending.waiting rest
      | _ => .error .misuse

/-- An input is needed. -/
def Given.request (given : Given) : Request :=
  match given.input with
  | none => .misuse
  | some input =>
    .compile {
      input
      output := given.output.getD "."
      all := given.all
      rules := given.rules
      json := given.json
      noConfirmOverwrite := given.noConfirmOverwrite
      verbosity := given.verbosity }

def Request.ofArguments (arguments : List String) : Request :=
  match readAll {} none arguments with
  | .ok given => given.request
  | .error request => request

end BoardSchema.Command
