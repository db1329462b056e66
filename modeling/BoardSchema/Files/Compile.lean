import BoardSchema.Compilation
import BoardSchema.Files.Program
import BoardSchema.Rules.Json
/-!
Compiling from files and to files.
-/
namespace BoardSchema

/-- Reads the rules of a file. -/
def Rules.ofFile (path : String) : FileProgram (Except CompileError Rules) :=
  .readText path fun answer =>
    .done (match answer with
      | .ok text => Rules.ofText text
      | .error cause => .error (.file path cause))

namespace Compilation

/-- Descriptions have this extension, in either case. -/
def isDescription (path : String) : Bool :=
  (Path.extension? path.toList).any fun extension =>
    (String.ofList extension).toLower = "dsc"

/-- Compiles a file, whose extension is judged before it is read. -/
def ofFile (rules : Rules) (path : String) : FileProgram (Logged Compilation) :=
  if isDescription path then
    .readText path fun answer =>
      .done (match answer with
        | .ok text => ofText rules path text
        | .error cause => Logged.fail (.file path cause))
  else
    .done (Logged.fail (.unsupportedSourceFormat path "expected a `.dsc` description file"))

/-- Writes documents one after the other, up to the first that cannot be written. -/
def writeDocuments (dir : String) :
    List OutputDocument → FileProgram (Except CompileError (List String))
  | [] => .done (.ok [])
  | document :: rest =>
    let path := Path.join dir document.file
    .writeText path document.text fun answer =>
      match answer with
      | .error cause => .done (.error (.file path cause))
      | .ok () => do
        let later ← writeDocuments dir rest
        return later.map (path :: ·)

/-- Writes all documents to a directory, which is made if it is missing. The result is the list of
paths that were written. -/
def writeTo (compilation : Compilation) (dir : String) :
    FileProgram (Except CompileError (List String)) :=
  FileProgram.makeDirectories dir >>= fun answer =>
    match answer with
    | .error cause => .done (.error (.file dir cause))
    | .ok () => writeDocuments dir compilation.documents

end Compilation
end BoardSchema
