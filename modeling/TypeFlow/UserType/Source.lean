import TypeFlow.UserType.Survey

/-! # Source files of a repository

Where a source file stands in its repository, and where the modules that it imports should be:
level 0 counts from the repository, level 1 from the directory of the file, and every further
level from one directory above. -/

namespace TypeFlow.UserType

structure Source where
  path : String
  /-- What stands between the components of a path. -/
  separator : String := "/"
  repository : List String := []
  /-- Components of the path of the file below the repository. -/
  parts : List String := []
deriving DecidableEq, Repr, Inhabited

namespace Source

/-- How a file outside of its repository is refused. -/
def outside : Fault :=
  .rejectedValue "Repository path should be the preffix of source file path."

/-- Place a file in a repository. The two paths have to agree as far as both go. -/
def place (path : String) (repository : Option String) (separator : String := "/") :
    Except Fault Source :=
  let all := Text.split path separator
  let repository := (repository.map fun r => Text.split r separator).getD []
  if (all.zip repository).all fun (a, b) => a == b then
    .ok { path, separator, repository, parts := all.drop repository.length }
  else .error outside

def root (s : Source) : String := Text.join "/" s.repository

/-- The path of a module below its starting point. -/
def modulePath (name : String) : String := Text.replace name "." "/"

def moduleAt (s : Source) (level : Nat) (name : String) : String :=
  match level with
  | 0 => s.root ++ "/" ++ modulePath name
  | 1 =>
    let directory := s.root ++ "/" ++ Text.join "/" s.parts.dropLast
    if Text.startsWith name ownPackage then
      match Text.split name "." with
      | _ :: [] => directory
      | names => directory ++ "/" ++ Text.join "/" (names.drop 1)
    else directory ++ "/" ++ modulePath name
  | n =>
    let all := s.repository ++ s.parts
    Text.join "/" (all.take (all.length - n)) ++ "/" ++ modulePath name

def moduleName (s : Source) (path : String) : String :=
  Text.join "." ((Text.split path s.separator).drop s.repository.length)

/-- A path without the ending of source files, wherever it occurs. -/
def withoutEnding (path : String) : String := Text.replace path ".py" ""

def packageFile (directory : String) : String := directory ++ "/__init__.py"

end Source
end TypeFlow.UserType
