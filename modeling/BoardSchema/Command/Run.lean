import BoardSchema.Command.Arguments
import BoardSchema.Files.Compile
import BoardSchema.Output.SchemaJson
/-!
What the command does. Nothing is written unless everything compiled and every document that is in
the way may be replaced.
-/
namespace BoardSchema.Command

/-- The exit code and what was printed. -/
structure Outcome where
  exitCode : Nat
  stdout : String := ""
  stderr : String := ""
  deriving DecidableEq, Repr

/-- Later lines of a cause are indented like its first. -/
def indented (margin text : String) : String :=
  ("\n" ++ margin).intercalate ((text.toList.splitOn '\n').map String.ofList)

/-- A failure and its causes, which are numbered if there is more than one. -/
def report (failure : String) (causes : List String) : String :=
  let shown :=
    match causes with
    | [cause] => ["    " ++ indented "    " cause]
    | causes => causes.mapIdx fun number cause => s!"    {number}: " ++ indented "       " cause
  if causes.isEmpty then failure ++ "\n"
  else failure ++ "\n\nCaused by:\n" ++ "\n".intercalate shown ++ "\n"

/-- An error and what lies behind it. -/
def causesOf (error : CompileError) : List String :=
  match error with
  | .file _ cause => [error.message, cause.message]
  | _ => [error.message]

/-- What is printed before the end. -/
structure Printed where
  stdout : String := ""
  stderr : String := ""

def Printed.finish (printed : Printed) : Outcome :=
  { exitCode := 0, stdout := printed.stdout, stderr := printed.stderr }

def Printed.failWith (printed : Printed) (failure : String) (causes : List String) : Outcome :=
  { exitCode := 1, stdout := printed.stdout, stderr := printed.stderr ++ report failure causes }

/-- The rules of the command: those of the rule file or the defaults, and whether include targets
get documents of their own as the flag says. -/
def loadRules (options : Options) : FileProgram (Except CompileError Rules) := do
  let loaded ←
    match options.rules with
    | none => pure (.ok {})
    | some path => Rules.ofFile path
  return loaded.map fun rules => { rules with emitAll := options.all }

/-- Why documents may not be replaced. -/
inductive Refusal where
  | unanswered
  | declined (path : String)
  deriving DecidableEq, Repr

/-- Asks before a document is replaced that is in the way. -/
def confirmOverwrite (noConfirm : Bool) : List String → FileProgram (Except Refusal Unit)
  | [] => .done (.ok ())
  | path :: rest =>
    .contains path fun isThere =>
      if isThere && !noConfirm then
        .confirm s!"Are you sure you want to override output file {path}" fun answer =>
          match answer with
          | none => .done (.error .unanswered)
          | some false => .done (.error (.declined path))
          | some true => confirmOverwrite noConfirm rest
      else confirmOverwrite noConfirm rest

def Printed.refuse (printed : Printed) : Refusal → Outcome
  | .unanswered =>
    printed.failWith "failed to read confirmation" ["IO error: not a terminal", "not a terminal"]
  | .declined path => printed.failWith s!"Cancelled: `{path}` already exists" []

def noticeLine (notice : Notice) : String :=
  let label :=
    match notice.severity with
    | .warning => "WARN"
    | .information => "INFO"
  s!"[{label}] {notice.message}\n"

/-- What a compilation prints: notices if they are asked for, the problems that were passed over,
and the schema if it is asked for. -/
def Printed.compilation (printed : Printed) (options : Options) (notices : List Notice)
    (compilation : Compilation) : Printed where
  stdout := printed.stdout ++
    (if 0 < options.verbosity then String.join (notices.map noticeLine) else "") ++
    (if options.json then compilation.schema.toJson.pretty ++ "\n" else "")
  stderr := printed.stderr ++
    String.join (compilation.problems.map fun problem => s!"warning: {problem.message}\n")

/-- Replaces what may be replaced and writes the documents. -/
def deliver (options : Options) (compilation : Compilation) (printed : Printed) :
    FileProgram Outcome := do
  match ← confirmOverwrite options.noConfirmOverwrite (compilation.paths options.output) with
  | .error refusal => return printed.refuse refusal
  | .ok () =>
    match ← compilation.writeTo options.output with
    | .error error =>
      return printed.failWith s!"failed to write output documents to `{options.output}`"
        (causesOf error)
    | .ok _ => return printed.finish

def compile (options : Options) : FileProgram Outcome := do
  let printed : Printed :=
    if 3 < options.verbosity then
      { stderr := "using more than -vvv does not affect verbosity level\n" }
    else {}
  match ← loadRules options with
  | .error error =>
    let path := options.rules.getD ""
    return printed.failWith s!"failed to load rule table `{path}`" (causesOf error)
  | .ok rules =>
    let logged ← Compilation.ofFile rules options.input
    match logged.outcome with
    | .error error =>
      return printed.failWith s!"failed to compile `{options.input}`" (causesOf error)
    | .ok compilation =>
      deliver options compilation (printed.compilation options logged.notices compilation)

def versionText : String := "cfgschema 0.1.0\n"

def usageText : String :=
  "Usage: cfgschema [OPTIONS] --input <SOURCE>\n\n" ++
  "Options:\n" ++
  "  -i, --input <SOURCE>        Description source to compile (.dsc).\n" ++
  "  -o, --output <DIR>          Directory the generated documents are written to. [default: .]\n" ++
  "  -a, --all                   Write one document per include target.\n" ++
  "      --rules <FILE>          JSON rule table.\n" ++
  "      --json                  Also print the schema as JSON.\n" ++
  "      --no-confirm-overwrite  Do not ask before replacing output files.\n" ++
  "  -v                          Print notices; may be repeated.\n" ++
  "  -h, --help                  Print help.\n" ++
  "  -V, --version               Print version.\n"

/-- Runs the command with its arguments. -/
def run (arguments : List String) : FileProgram Outcome :=
  match Request.ofArguments arguments with
  | .compile options => compile options
  | .version => .done { exitCode := 0, stdout := versionText }
  | .help => .done { exitCode := 0, stdout := usageText }
  | .misuse => .done { exitCode := 2, stderr := usageText }

end BoardSchema.Command
