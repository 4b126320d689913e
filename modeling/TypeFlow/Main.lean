import TypeFlow.Command
import TypeFlow.Document.Writer
import TypeFlow.Program.Reader

/-! # The command line

Reads the files below the current directory, runs a command on them and writes the files that are
new or changed. Source files hold the trees of programs, and drawings are written as graph
descriptions. -/

namespace TypeFlow.CommandLine

def contentsOf (name text : String) : Contents :=
  match Document.read? text with
  | some d => if Text.endsWith name ".py" then .program (Program.ofDocument d) else .data d
  | none => .text text

def textOf : Contents → Option String
  | .data d => some d.write
  | .empty => some ""
  | .text _ | .program _ => none

def quoted (label : String) : String :=
  let escaped := Text.replace (Text.replace label "\\" "\\\\") "\"" "\\\""
  "\"" ++ Text.replace escaped "\n" "\\n" ++ "\""

def strokeLine : Stroke → String
  | .open title _ _ => "digraph " ++ quoted title ++ " \x7b\n"
  | .style kind attributes =>
    "  " ++ kind ++ " [" ++
      Text.join ", " (attributes.map fun (key, value) => key ++ "=" ++ quoted value) ++ "]\n"
  | .node label => "  " ++ quoted label ++ "\n"
  | .edge source target => "  " ++ quoted source ++ " -> " ++ quoted target ++ "\n"
  | .render _ => "\x7d\n"

def drawingFile? (d : Drawing) : Option String :=
  d.findSome? fun
    | .open _ fileName _ => some fileName
    | _ => none

def drawingText (d : Drawing) : String := String.join (d.map strokeLine)

/-- Read the files below the current directory. -/
def readTree : IO FileTree := do
  let root ← IO.currentDir
  let skip := root.components.length
  let mut files : List (List String × Contents) := []
  for path in ← root.walkDir do
    let place := path.components.drop skip
    let name := place.getLastD ""
    if !(← path.isDir) && (Text.endsWith name ".py" || Text.endsWith name ".json") then
      files := (place, contentsOf name (← IO.FS.readFile path)) :: files
  return ⟨files⟩

def writeChanges (before : FileTree) (w : Command.World) : IO Unit := do
  for (path, c) in Command.newFiles before w.tree do
    match textOf c with
    | some text => IO.FS.writeFile path text
    | none => pure ()
  for d in w.drawings do
    match drawingFile? d with
    | some path => IO.FS.writeFile path (drawingText d)
    | none => pure ()

/-- Run a command line on the current directory. -/
def run (args : List String) : IO UInt32 := do
  let tree ← readTree
  match (Command.runLine args).run { tree } with
  | .ok _ w => do
    writeChanges tree w
    return 0
  | .error fault w => do
    writeChanges tree w
    match fault with
    | .exit code => return code.toUInt32
    | _ => do
      IO.eprintln "The command could not be completed."
      return 1

end TypeFlow.CommandLine

def main (args : List String) : IO UInt32 := TypeFlow.CommandLine.run args
