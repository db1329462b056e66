import BoardSchema.Error
import BoardSchema.Files.Path
/-!
A tree of files and the working directory in it, from which paths start. Places are lists of names
from the root on. Following a path needs every name on the way to be a directory.
-/
namespace BoardSchema

/-- What a file holds: a text, or bytes that are none. -/
inductive Content where
  | text (text : String)
  | undecodable
  deriving DecidableEq, Repr

inductive Node where
  | file (content : Content)
  | directory
  deriving DecidableEq, Repr

abbrev Place := List String

/-- Each place comes up at most once. The root and the working directory are not listed. -/
structure FileTree where
  nodes : List (Place × Node) := []
  deriving DecidableEq, Repr

/-- The content that bytes stand for in UTF-8. -/
def Content.ofBytes (bytes : List UInt8) : Content :=
  match String.fromUTF8? ⟨bytes.toArray⟩ with
  | some decoded => .text decoded
  | none => .undecodable

namespace Path

/-- The names on a path and the steps `..`, which lead to the parent. -/
def names (path : String) : List String := (parts path.toList).map String.ofList

/-- The steps of a path: those to its names, and dots, which stay where they are. -/
def steps (path : String) : List String :=
  ((path.toList.splitOn '/').filter (· ≠ [])).map String.ofList

def isAbsolute (path : String) : Bool := path.toList.head? = some '/'

/-- A path that ends with a slash means a directory. -/
def meansDirectory (path : String) : Bool := path.toList.getLast? = some '/'

/-- The number of bytes that a name may have. -/
def nameLimit : Nat := 255

/-- The number of bytes that a path may have. -/
def pathLimit : Nat := 4095

/-- A path that no file can be looked for under. The empty path is such a path. -/
def check (path : String) : Except FileError Unit :=
  if '\x00' ∈ path.toList then .error .nulInPath
  else if path.isEmpty then .error .notFound
  else if pathLimit < path.utf8ByteSize then .error .nameTooLong
  else .ok ()

end Path

namespace FileTree

/-- The working directory has a name that no path can spell. -/
def workingDirectory : Place := [""]

def node? (tree : FileTree) (place : Place) : Option Node :=
  if place = [] ∨ place = workingDirectory then some .directory
  else (tree.nodes.find? (·.1 = place)).map (·.2)

/-- Puts a node at a place, over the one that was there. -/
def put (tree : FileTree) (place : Place) (node : Node) : FileTree :=
  if tree.nodes.any (·.1 = place) then
    { nodes := tree.nodes.map fun entry => if entry.1 = place then (place, node) else entry }
  else { nodes := tree.nodes ++ [(place, node)] }

/-- The place that one step from a directory leads to. -/
def stepFrom (here : Place) (step : String) : Except FileError Place :=
  if step = "." then .ok here
  else if step = ".." then .ok here.dropLast
  else if Path.nameLimit < step.utf8ByteSize then .error .nameTooLong
  else .ok (here ++ [step])

/-- The place that steps lead to. The last of them need not be there. -/
def walk (tree : FileTree) : Place → List String → Except FileError Place
  | here, [] => .ok here
  | here, step :: rest =>
    match tree.node? here with
    | none => .error .notFound
    | some (.file _) => .error .notADirectory
    | some .directory => do walk tree (← stepFrom here step) rest

/-- The place at which a path starts. -/
def startOf (path : String) : Place := if Path.isAbsolute path then [] else workingDirectory

/-- The place that a path means. -/
def locate (tree : FileTree) (path : String) : Except FileError Place := do
  Path.check path
  tree.walk (startOf path) (Path.steps path)

/-- What is there under a path. -/
def find (tree : FileTree) (path : String) : Except FileError Node := do
  match tree.node? (← tree.locate path) with
  | none => .error .notFound
  | some (.file content) =>
    if Path.meansDirectory path then .error .notADirectory else .ok (.file content)
  | some .directory => .ok .directory

def readText (tree : FileTree) (path : String) : Except FileError String := do
  match ← tree.find path with
  | .directory => .error .isADirectory
  | .file .undecodable => .error .invalidText
  | .file (.text text) => .ok text

def contains (tree : FileTree) (path : String) : Bool :=
  match tree.find path with
  | .ok _ => true
  | .error _ => false

/-- Makes a directory, unless it is there. Those around it have to be there. -/
def makeDirectory (tree : FileTree) (path : String) : Except FileError FileTree := do
  let place ← tree.locate path
  match tree.node? place with
  | none => .ok (tree.put place .directory)
  | some .directory => .ok tree
  | some (.file _) => .error .alreadyExists

def writeText (tree : FileTree) (path text : String) : Except FileError FileTree := do
  let place ← tree.locate path
  match tree.node? place with
  | some .directory => .error .isADirectory
  | some (.file _) =>
    if Path.meansDirectory path then .error .notADirectory
    else .ok (tree.put place (.file (.text text)))
  | none =>
    if Path.meansDirectory path then .error .isADirectory
    else .ok (tree.put place (.file (.text text)))

/-- Puts a directory at a place where nothing is. -/
def putDirectory (tree : FileTree) (place : Place) : FileTree :=
  if (tree.node? place).isNone then tree.put place .directory else tree

/-- Adds a file with the directories around it. -/
def add (tree : FileTree) (path : String) (content : Content) : FileTree :=
  let names := Path.names path
  let around := (List.range names.length).map fun count => workingDirectory ++ names.take count
  (around.foldl putDirectory tree).put (workingDirectory ++ names) (.file content)

/-- The texts of files below the working directory that are new or not what they were, in the order
of their paths. -/
def changes (before after : FileTree) : List (String × String) :=
  let changed := after.nodes.filterMap fun (place, node) =>
    match workingDirectory.isPrefixOf? place, node with
    | some steps, .file (.text text) =>
      if before.node? place = some node then none else some ("/".intercalate steps, text)
    | _, _ => none
  changed.mergeSort fun a b => a.1 ≤ b.1

end FileTree
end BoardSchema
