import TypeFlow.Command.Arguments
import TypeFlow.Command.World

/-! # Finding user types

Searches for the user types of one file, of all files of a repository, or of all files that a
ground truth lists. -/

namespace TypeFlow.Command.Discover

structure Options where
  source : Option String := none
  repository : Option String := none
  groundTruth : Option String := none
  workers : Int := 8
  directory : Option String := none
deriving DecidableEq, Repr, Inhabited

def opts : List Opt := [
  { letter := 's', name := "source" },
  { letter := 'p', name := "repo" },
  { letter := 'g', name := "groundtruth" },
  { letter := 'c', name := "core", expects := .number },
  { letter := 'v', name := "validate", expects := .nothing },
  { letter := 'd', name := "output_directory" }]

def read (args : List String) : Except Fault Options := do
  let s ← readArguments opts args
  return {
    source := s.text? "source", repository := s.text? "repo"
    groundTruth := s.text? "groundtruth", workers := s.number "core" 8
    directory := s.text? "output_directory" }

def result : String := "_USERTYPES.json"

def findingsOf (repository path : String) : Act UserType.Findings := do
  let program ← Act.readProgram path
  Act.discover path repository program

def searchFile (directory repository source : String) : Act Unit :=
  Act.attempt do
    let f ← findingsOf repository source
    Act.save (outputFor directory source ".py" result) (return f.describe)

/-- Search a file of a repository, and add what is found to what has been found. -/
def addFile (repository : String) (found : Table String Document) (path : String) :
    Act (Table String Document) :=
  try (return found.insert path (← findingsOf repository path).describe) catch _ => return found

def searchRepository (directory repository : String) : Act Unit := do
  let paths ← Act.programsBelow repository
  let found ← paths.foldlM (addFile repository) {}
  Act.save (outputForAll directory repository result) (return .record found.entries)

/-! ## Files of a ground truth -/

/-- A path in a directory, if one is given. -/
def inDirectory (directory : Option String) (path : String) : String :=
  match directory with
  | none => path
  | some d => if Text.startsWith path "/" then path else FileTree.withSlash d ++ path

/-- The project of a file: the first three components of its path. -/
def projectOf (path : String) : String := Text.join "/" ((Text.split path "/").take 3)

/-- A search that runs out of time is repeated once without looking types up. Faults cannot be
reported, which is a fault of its own. -/
def searchInTime (path project : String) : Act (Option UserType.Findings) := do
  let search (validate : Bool) : Act UserType.Findings := do
    Act.discoverInTime path project (← Act.readProgram path) validate
  try (return some (← search true)) catch
    | .timedOut => do
      try (return some (← search false)) catch
        | .timedOut => return none
        | _ => throw .unknownName
    | _ => throw .unknownName

/-- The user types of a listed file, if it exists. -/
def findingsOfListed (directory : Option String) (path : String) :
    Act (Option UserType.Findings) := do
  let file := inDirectory directory path
  if (← get).tree.isFile file then searchInTime file (inDirectory directory (projectOf path))
  else return none

/-- The path that an item of a list gives. -/
def pathOf (directory : Option String) : Document → Except Fault String
  | .text s => .ok s
  | _ => .error (if directory.isSome then .wrongKind else .missingProperty)

/-- Search the listed files one after the other. -/
def searchListed (directory : Option String) (found : Table String Document) (item : Document) :
    Act (Table String Document) := do
  let path ← ofExcept (pathOf directory item)
  match ← findingsOfListed directory path with
  | some f => return found.insert path f.describe
  | none => return found

/-- Workers share the listed files out among them. Here they are searched one after the other. -/
def searchGroundTruth (o : Options) (directory groundTruth : String) : Act Unit := do
  let items ← ofExcept (← Act.readData groundTruth).parts
  if o.workers < 1 then throw .badValue
  let found ← items.foldlM (searchListed (nonEmpty? o.repository)) {}
  Act.save (FileTree.withSlash directory ++ "USERTYPES.json") (return .record found.entries)

def run (o : Options) : Act Unit := do
  let directory := outputDirectory o.directory
  Act.enterDirectory directory
  match nonEmpty? o.groundTruth, nonEmpty? o.repository, nonEmpty? o.source with
  | some groundTruth, _, _ => searchGroundTruth o directory groundTruth
  | none, some repository, some source => searchFile directory repository source
  | none, some repository, none => searchRepository directory repository
  | none, none, _ => pure ()

end TypeFlow.Command.Discover
