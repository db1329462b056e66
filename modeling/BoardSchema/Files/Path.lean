import BoardSchema.Text.Search
/-!
Paths as text: parts between slashes, the name of a file without its extension, and joining.
-/
namespace BoardSchema.Path

/-- The parts of a path; empty ones and single dots say nothing. -/
def parts (path : List Char) : List (List Char) :=
  (path.splitOn '/').filter fun part => part ≠ [] ∧ part ≠ ['.']

/-- The last part of a path, unless it leads to a parent. -/
def fileName? (path : List Char) : Option (List Char) :=
  (parts path).getLast?.filter (· ≠ ['.', '.'])

/-- A file name cut at its last dot. A dot in front does not count. -/
def cutName (name : List Char) : List Char × Option (List Char) :=
  match Text.cutAtLast? '.' name with
  | some (stem, extension) => if stem.isEmpty then (name, none) else (stem, some extension)
  | none => (name, none)

/-- The name of a file without its extension. -/
def stem? (path : List Char) : Option (List Char) := (fileName? path).map fun name => (cutName name).1

def extension? (path : List Char) : Option (List Char) :=
  (fileName? path).bind fun name => (cutName name).2

/-- A path inside a directory. The empty directory adds nothing, an absolute path stays. -/
def join (dir path : String) : String :=
  if path.toList.head? = some '/' || dir.toList.isEmpty then path
  else if dir.toList.getLast? = some '/' then dir ++ path
  else dir ++ "/" ++ path

end BoardSchema.Path
