import TypeFlow.Document.Reader
import TypeFlow.Program.Stmt

/-! # File trees

The files that an analysis can see, by the components of their paths. A directory exists as far
as it has files. Paths are relative to the root of the tree, and nothing outside of it exists. -/

namespace TypeFlow

inductive Contents where
  | program (program : Program.Module)
  | data (data : Document)
  | text (text : String)
  /-- A file that was opened and into which nothing was written. -/
  | empty
deriving Inhabited

structure FileTree where
  files : List (List String × Contents) := []
deriving Inhabited

namespace FileTree

def file? (t : FileTree) (place : List String) : Option Contents := t.files.lookup place

def isDirectoryAt (t : FileTree) (place : List String) : Bool :=
  place.isEmpty || t.files.any fun f => place.isPrefixOf f.1 && place != f.1

/-- Follow one component of a path in the text alone, whether or not the directories exist. -/
def retrace (place : List String) (part : String) : Except Fault (List String) :=
  match part with
  | "" | "." => .ok place
  | ".." => if place.isEmpty then .error .noSuchFile else .ok place.dropLast
  | name => .ok (place ++ [name])

/-- Follow one component of a path, from a directory that exists. -/
def follow (t : FileTree) (place : List String) (part : String) : Except Fault (List String) :=
  if t.isDirectoryAt place then retrace place part
  else if (t.file? place).isSome then .error .notDirectory
  else .error .noSuchFile

/-- The place that a path leads to. All directories on the way have to exist. -/
def locate (t : FileTree) (path : String) : Except Fault (List String) :=
  if path.isEmpty || Text.startsWith path "/" then .error .noSuchFile
  else (Text.split path "/").foldlM t.follow []

/-- A path without steps back. -/
def straighten (path : String) : Except Fault String := do
  if Text.startsWith path "/" then throw .noSuchFile
  return Text.join "/" ("." :: (← (Text.split path "/").foldlM retrace []))

def isFile (t : FileTree) (path : String) : Bool :=
  match t.locate path with
  | .ok place => (t.file? place).isSome
  | .error _ => false

def isDirectory (t : FileTree) (path : String) : Bool :=
  match t.locate path with
  | .ok place => t.isDirectoryAt place
  | .error _ => false

def hasPath (t : FileTree) (path : String) : Bool := t.isFile path || t.isDirectory path

def read (t : FileTree) (path : String) : Except Fault Contents := do
  let place ← t.locate path
  match t.file? place with
  | some c => return c
  | none => throw (if t.isDirectoryAt place then .isDirectory else .noSuchFile)

def readProgram (t : FileTree) (path : String) : Except Fault Program.Module := do
  match ← t.read path with
  | .program p => return p
  | _ => throw .badSource

def readData (t : FileTree) (path : String) : Except Fault Document := do
  match ← t.read path with
  | .data d => return d
  | .text s =>
    match Document.read? s with
    | some d => return d
    | none => throw .badData
  | _ => throw .badData

def write (t : FileTree) (path : String) (c : Contents) : Except Fault FileTree := do
  let place ← t.locate path
  if t.isDirectoryAt place then throw .isDirectory
  return ⟨(place, c) :: t.files.filter (·.1 != place)⟩

/-- Texts in order, each once. -/
def sorted (l : List String) : List String := (l.mergeSort (· ≤ ·)).eraseDups

/-- The names in a directory. A file system leaves their order open; here they are sorted. -/
def list (t : FileTree) (path : String) : Except Fault (List String) := do
  let place ← t.locate path
  if (t.file? place).isSome then throw .notDirectory
  if !t.isDirectoryAt place then throw .noSuchFile
  return sorted (t.files.filterMap fun f =>
    if place.isPrefixOf f.1 then f.1[place.length]? else none)

def trimSlashes (path : String) : String :=
  String.ofList (path.toList.reverse.dropWhile (· == '/')).reverse

def withSlash (path : String) : String := if Text.endsWith path "/" then path else path ++ "/"

/-- The paths of the files at and below a path whose names have an ending, in order. -/
def filesBelow (t : FileTree) (path ending : String) : Except Fault (List String) := do
  match t.locate path with
  | .error _ => throw .commandFailed
  | .ok place => do
    if !(t.isDirectoryAt place || (t.file? place).isSome) then throw .commandFailed
    return sorted (t.files.filterMap fun f =>
      if place.isPrefixOf f.1 then
        match f.1.drop place.length with
        | [] => if Text.endsWith path ending then some path else none
        | below =>
          if Text.endsWith (below.getLastD "") ending then
            some (withSlash path ++ Text.join "/" below)
          else none
      else none)

/-- A name that listings leave out. -/
def isHidden (name : String) : Bool := Text.startsWith name "."

/-- The directories on the way to a file, up to the first hidden one. -/
def directoriesOf : List String → List (List String)
  | name :: next :: rest =>
    [] :: if isHidden name then [] else (directoriesOf (next :: rest)).map (name :: ·)
  | _ => [[]]

/-- The directories at and below a place, without hidden ones, by their path from there. -/
def directoriesBelow (t : FileTree) (place : List String) : List (List String) :=
  (t.files.flatMap fun f =>
    if place.isPrefixOf f.1 then directoriesOf (f.1.drop place.length) else []).eraseDups

/-- The paths under which a file is found in a directory or in one below it, in order. -/
def findAll (t : FileTree) (directory name : String) : List String :=
  let root := trimSlashes directory
  match t.locate root with
  | .error _ => []
  | .ok place =>
    sorted <| ((t.directoriesBelow place).map fun below =>
      Text.join "/" (root :: below ++ [name])).filter t.hasPath

end FileTree
end TypeFlow
