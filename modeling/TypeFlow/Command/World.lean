import TypeFlow.Graph.Drawing
import TypeFlow.Prediction
import TypeFlow.UserType.Discovery

/-! # The world of a command

What a command sees and changes: files, what the search for user types has seen, the drawings
made, the answer of the model server, and how many searches run out of time. Changes made before
a fault stay. -/

namespace TypeFlow.Command

structure World where
  tree : FileTree := {}
  /-- Files and packages that the search for user types has seen. -/
  seen : List String := []
  drawings : List Drawing := []
  /-- What the model server answers, if it does. -/
  answer : Option Document := none
  /-- This many searches with a time limit will run out of time. -/
  timeouts : Nat := 0
deriving Inhabited

abbrev Act := EStateM Fault World

namespace Act

def readProgram (path : String) : Act Program.Module := do
  ofExcept ((← get).tree.readProgram path)

def readData (path : String) : Act Document := do ofExcept ((← get).tree.readData path)

def write (path : String) (c : Contents) : Act Unit := do
  let tree ← ofExcept ((← get).tree.write path c)
  modify ({ · with tree })

/-- Open a file, compute what belongs into it and write it. Without a result the file stays
empty. -/
def save (path : String) (content : Act Document) : Act Unit := do
  write path .empty
  write path (.data (← content))

/-- Do something whose faults are only reported. -/
def attempt (act : Act Unit) : Act Unit := try act catch _ => pure ()

def compute {α : Type} (x : Eval α) : Act (α × Store) := do
  match x.run {} with
  | .ok a s => return (a, s)
  | .error f _ => throw f

/-- Search for the user types of a program. -/
def discover (path repository : String) (program : Program.Module) (validate : Bool := true) :
    Act UserType.Findings := do
  let source ← ofExcept (UserType.Source.place path (some repository))
  let w ← get
  match (UserType.discover w.tree validate source program).run w.seen with
  | .ok f seen => do
    set { w with seen }
    return f
  | .error f seen => do
    set { w with seen }
    throw f

def discoverInTime (path repository : String) (program : Program.Module) (validate : Bool) :
    Act UserType.Findings := do
  let source ← ofExcept (UserType.Source.place path (some repository))
  let w ← get
  match w.timeouts with
  | n + 1 => do
    set { w with timeouts := n }
    throw .timedOut
  | 0 => discover source.path repository program validate

def programsBelow (path : String) : Act (List String) := do
  ofExcept ((← get).tree.filesBelow path ".py")

def keep (d : Drawing) : Act Unit := modify fun w => { w with drawings := w.drawings ++ [d] }

/-- Enter the directory for output, which has to exist. Steps back in its path are taken in the
text. -/
def enterDirectory (directory : String) : Act Unit := do
  let path ← ofExcept (FileTree.straighten directory)
  let _ ← ofExcept ((← get).tree.locate (path ++ "/."))

end Act

/-- A path as part of a file name. -/
def flatten (path : String) : String := Text.replace path "/" "_"

/-- The output file for an input file: the path becomes part of the name, and the ending gives
way to what the output is. -/
def outputFor (directory path ending result : String) : String :=
  directory ++ "/" ++ Text.replace (flatten path) ending result

def outputForAll (directory path result : String) : String :=
  directory ++ "/" ++ flatten path ++ result

def outputDirectory (given : Option String) : String :=
  match given with
  | none | some "" => "."
  | some d => d

/-- A text that was given and is not empty. -/
def nonEmpty? (s : Option String) : Option String :=
  match s with
  | some "" => none
  | s => s

end TypeFlow.Command
