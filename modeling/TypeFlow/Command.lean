import TypeFlow.Command.Discover
import TypeFlow.Command.Evaluate
import TypeFlow.Command.Graphs
import TypeFlow.Command.Infer
import TypeFlow.Command.Prepare

/-! # Commands

The commands of the command line. -/

namespace TypeFlow.Command

/-- The commands by name: how their arguments are read, and what they do. -/
def byName (name : String) : Option (List String → Except Fault (Act Unit)) :=
  match name with
  | "findusertype" => some fun args => Discover.run <$> Discover.read args
  | "gentdg" => some fun args => Graphs.run <$> Graphs.read args
  | "infer" => some fun args => Infer.run <$> Infer.read args
  | "eval" => some fun args => Evaluate.run <$> Evaluate.read args
  | "preprocess" => some fun args => Prepare.run <$> Prepare.read args
  | _ => none

def runLine (args : List String) : Act Unit := do (← ofExcept (readCommand byName false args))

/-- Files that are in one tree and not in another, in order of their paths. -/
def newFiles (before after : FileTree) : List (String × Contents) :=
  (after.files.filter fun f => (before.file? f.1).isNone).map fun (place, c) =>
    (Text.join "/" place, c)

end TypeFlow.Command
