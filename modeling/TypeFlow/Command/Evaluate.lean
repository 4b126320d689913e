import TypeFlow.Command.Arguments
import TypeFlow.Command.World
import TypeFlow.Score

/-! # Evaluation

Infers the types of all files of a ground truth and compares them with the classified ground
truth. -/

namespace TypeFlow.Command.Evaluate

structure Options where
  groundTruth : String
  classified : String
  userTypes : String
  recommendations : Option String := none
  useServer : Bool := false
  limit : Int := 1
  directory : Option String := none
  sources : Option String := none
deriving DecidableEq, Repr, Inhabited

def opts : List Opt := [
  { letter := 'g', name := "groundtruth", required := true },
  { letter := 'c', name := "classified_groundtruth", required := true },
  { letter := 'u', name := "usertype", required := true },
  { letter := 'm', name := "recommendations" },
  { letter := 't', name := "type4py", expects := .nothing },
  { letter := 'n', name := "topn", expects := .number },
  { letter := 'd', name := "output_directory" },
  { letter := 'p', name := "file_prefix" }]

def read (args : List String) : Except Fault Options := do
  let s ← readArguments opts args
  return {
    groundTruth := s.text "groundtruth", classified := s.text "classified_groundtruth"
    userTypes := s.text "usertype", recommendations := s.text? "recommendations"
    useServer := s.has "type4py", limit := s.number "topn" 1
    directory := s.text? "output_directory", sources := s.text? "file_prefix" }

/-- Score a file, and add its types to those of the others. -/
def addFile (tree : FileTree) (task : Score.Task) (found : Table String Document)
    (file : Document) : Except Fault (Table String Document) := do
  match file with
  | .text fileName =>
    match ← Score.scoreFile tree { task with fileName } with
    | some outcome => return found.insert fileName (Eval.describeReports outcome.reports)
    | none => return found
  | _ => return found

/-- Score all files of a ground truth. The answer has their types. -/
def evaluate (o : Options) : Act Document := do
  let truth ← Act.readData o.groundTruth
  let classified ← Act.readData o.classified
  let userTypes ← Act.readData o.userTypes
  let recommendations ← match nonEmpty? o.recommendations with
    | some path => Act.readData path
    | none => pure .null
  let _ ← ofExcept classified.parts
  let w ← get
  let task : Score.Task :=
    { fileName := "", truth := classified, userTypes, recommendations, useServer := o.useServer
      answer := w.answer, limit := o.limit, directory := o.sources, all := true }
  let found ← ofExcept do (← truth.parts).foldlM (addFile w.tree task) {}
  return .record found.entries

def run (o : Options) : Act Unit := do
  let directory := outputDirectory o.directory
  Act.enterDirectory directory
  let found ← evaluate o
  Act.save (outputFor directory o.groundTruth ".json" "_INFERREDTYPES.json") (return found)

end TypeFlow.Command.Evaluate
