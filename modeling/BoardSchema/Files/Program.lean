import BoardSchema.Files.Tree
/-!
Programs that read and write files. A program is the tree of its file operations, so the same
program runs over a tree of files and over the file system.
-/
namespace BoardSchema

inductive FileProgram (α : Type) where
  | done (result : α)
  | readText (path : String) (next : Except FileError String → FileProgram α)
  | contains (path : String) (next : Bool → FileProgram α)
  /-- Makes a directory, unless it is there. -/
  | makeDirectory (path : String) (next : Except FileError Unit → FileProgram α)
  | writeText (path text : String) (next : Except FileError Unit → FileProgram α)
  /-- Asks a question; there is no answer where nobody can be asked. -/
  | confirm (question : String) (next : Option Bool → FileProgram α)

namespace FileProgram

variable {α β : Type}

protected def bind (program : FileProgram α) (f : α → FileProgram β) : FileProgram β :=
  match program with
  | done result => f result
  | readText path next => readText path fun answer => (next answer).bind f
  | contains path next => contains path fun answer => (next answer).bind f
  | makeDirectory path next => makeDirectory path fun answer => (next answer).bind f
  | writeText path text next => writeText path text fun answer => (next answer).bind f
  | confirm question next => confirm question fun answer => (next answer).bind f

instance : Monad FileProgram where
  pure := done
  bind := FileProgram.bind

/-- The answer of an operation that changes the tree if it succeeds. -/
def changing (tree : FileTree) (changed : Except FileError FileTree) :
    Except FileError Unit × FileTree :=
  match changed with
  | .ok tree => (.ok (), tree)
  | .error cause => (.error cause, tree)

/-- Runs a program over a tree of files, where nobody answers questions. -/
def run (tree : FileTree) : FileProgram α → α × FileTree
  | done result => (result, tree)
  | readText path next => run tree (next (tree.readText path))
  | contains path next => run tree (next (tree.contains path))
  | makeDirectory path next =>
    let (answer, tree) := changing tree (tree.makeDirectory path)
    run tree (next answer)
  | writeText path text next =>
    let (answer, tree) := changing tree (tree.writeText path text)
    run tree (next answer)
  | confirm _ next => run tree (next none)

theorem run_pure (tree : FileTree) (result : α) :
    run tree (pure result : FileProgram α) = (result, tree) := rfl

theorem run_bind (tree : FileTree) (program : FileProgram α) (f : α → FileProgram β) :
    run tree (program >>= f) = run (run tree program).2 (f (run tree program).1) := by
  show run tree (program.bind f) = _
  induction program generalizing tree with
  | done result => rfl
  | readText path next ih => exact ih _ tree
  | contains path next ih => exact ih _ tree
  | makeDirectory path next ih => exact ih _ _
  | writeText path text next ih => exact ih _ _
  | confirm question next ih => exact ih _ tree

/-- Makes a directory. Only if it cannot be made without them, those around it are made first. -/
def makeWithin (path : String) (around : FileProgram (Except FileError Unit)) :
    FileProgram (Except FileError Unit) :=
  makeDirectory path fun answer =>
    match answer with
    | .error .notFound => do
      match ← around with
      | .ok () => makeDirectory path done
      | .error cause => return .error cause
    | answer => done answer

/-- Makes the directory that names lead to, given from the last name to the first. -/
def makeNamed (root : String) : (reversed : List String) → FileProgram (Except FileError Unit)
  | [] => done (.ok ())
  | name :: outer =>
    makeWithin (root ++ "/".intercalate (name :: outer).reverse) (makeNamed root outer)

/-- Makes a directory and those around it. The empty path is the working directory. Dots are no
names, so a path that ends with one needs the directory of its last name to be there. -/
def makeDirectories (path : String) : FileProgram (Except FileError Unit) :=
  if path.isEmpty then done (.ok ())
  else
    let root := if Path.isAbsolute path then "/" else ""
    makeWithin path (makeNamed root (Path.names path).reverse.tail)

end FileProgram
end BoardSchema
