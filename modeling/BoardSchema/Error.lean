import BoardSchema.Numeral
/-!
Why a description does not compile. An error that a source line is to blame for carries the number
of that line. `message` is the wording.
-/
namespace BoardSchema

/-- Why a file could not be read or written. -/
inductive FileError where
  | notFound
  | alreadyExists
  | notADirectory
  | isADirectory
  | invalidText
  | nameTooLong
  /-- The path holds the character NUL. -/
  | nulInPath
  /-- Any other reason, in the words of the system. -/
  | other (reason : String)
  deriving DecidableEq, Repr

def FileError.message : FileError → String
  | .notFound => "No such file or directory (os error 2)"
  | .alreadyExists => "File exists (os error 17)"
  | .notADirectory => "Not a directory (os error 20)"
  | .isADirectory => "Is a directory (os error 21)"
  | .invalidText => "stream did not contain valid UTF-8"
  | .nameTooLong => "File name too long (os error 36)"
  | .nulInPath => "file name contained an unexpected NUL byte"
  | .other reason => reason

inductive CompileError where
  | malformedPragma (line : Nat) (key detail : String)
  | malformedField (line : Nat) (detail : String)
  | offsetRegression (line : Nat) (name : String) (offset cursor : Nat)
  | unterminatedTemplate (line : Nat) (name : String)
  | templateReopened (line : Nat) (name current : String)
  | unmatchedTemplateEnd (line : Nat) (name : String)
  | unknownTemplateReference (line : Nat) (name : String)
  | recursiveTemplate (line : Nat) (name : String)
  | unresolvedLength (line : Nat) (name length : String)
  | bitFieldSyntax (line : Nat) (text : String)
  | bitFieldOverflow (line : Nat) (name : String) (last bits : Nat)
  | unbalancedInclude (line : Nat)
  | unbalancedStruct (line : Nat) (name : String)
  | unsupportedSourceFormat (path reason : String)
  | invalidRules
  | file (path : String) (cause : FileError)
  deriving DecidableEq, Repr

namespace CompileError

/-- The source line to blame, if there is one. -/
def line? : CompileError → Option Nat
  | malformedPragma line _ _ => some line
  | malformedField line _ => some line
  | offsetRegression line _ _ _ => some line
  | unterminatedTemplate line _ => some line
  | templateReopened line _ _ => some line
  | unmatchedTemplateEnd line _ => some line
  | unknownTemplateReference line _ => some line
  | recursiveTemplate line _ => some line
  | unresolvedLength line _ _ => some line
  | bitFieldSyntax line _ => some line
  | bitFieldOverflow line _ _ _ => some line
  | unbalancedInclude line => some line
  | unbalancedStruct line _ => some line
  | unsupportedSourceFormat _ _ => none
  | invalidRules => none
  | file _ _ => none

/-- What is wrong, without the line. -/
def reason : CompileError → String
  | malformedPragma _ key detail => s!"malformed `{key}` pragma block: {detail}"
  | malformedField _ detail => s!"malformed field declaration: {detail}"
  | offsetRegression _ name offset cursor =>
    s!"field `{name}` declares offset {Numeral.hex 1 offset}, which is behind the current offset " ++
      Numeral.hex 1 cursor
  | unterminatedTemplate _ name =>
    s!"template `{name}` is never closed with `DEFT:\x7b{name}:END\x7d`"
  | templateReopened _ name current =>
    s!"template `{name}` opened while template `{current}` is still open"
  | unmatchedTemplateEnd _ name => s!"`DEFT:\x7b{name}:END\x7d` does not close an open template"
  | unknownTemplateReference _ name => s!"reference to undefined template `{name}`"
  | recursiveTemplate _ name => s!"template `{name}` expands into itself"
  | unresolvedLength _ name length =>
    s!"length `{length}` of field `{name}` does not resolve to a number"
  | bitFieldSyntax _ text => s!"bit-field declaration `{text}` is missing its `:` length separator"
  | bitFieldOverflow _ name last bits =>
    s!"bit-field `{name}` ends at bit {last}, beyond the {bits} bits of its container"
  | unbalancedInclude _ => "`!>` without a matching `!< include`"
  | unbalancedStruct _ name => s!"structure close `{name}` without a matching open"
  | unsupportedSourceFormat path why => s!"unsupported source `{path}`: {why}"
  | invalidRules => "failed to read rule table"
  | file path cause => s!"an I/O error has occurred on `{path}`: {cause.message}"

def message (error : CompileError) : String :=
  match error.line? with
  | some line => s!"line {line}: {error.reason}"
  | none => error.reason

end CompileError
end BoardSchema
