import TypeFlow.Command.Arguments
import TypeFlow.Command.World
import TypeFlow.Dataset

/-! # Preparing datasets

Turns the dataset files of a directory into a ground truth and a classified ground truth. -/

namespace TypeFlow.Command.Prepare

structure Options where
  dataset : String
  directory : Option String := none
deriving DecidableEq, Repr, Inhabited

def opts : List Opt := [
  { letter := 'p', name := "json_repo", required := true },
  { letter := 'd', name := "output_directory" }]

def read (args : List String) : Except Fault Options := do
  let s ← readArguments opts args
  return { dataset := s.text "json_repo", directory := s.text? "output_directory" }

def run (o : Options) : Act Unit := do
  let directory := outputDirectory o.directory
  Act.enterDirectory directory
  let truths ← ofExcept (Dataset.read (← get).tree o.dataset)
  let path := FileTree.withSlash directory
  Act.save (path ++ "GROUNDTRUTH.json") (return Dataset.describe truths.full)
  Act.save (path ++ "CLASSIFIED_GROUNDTRUTH.json") (return Dataset.describeClassified truths)

end TypeFlow.Command.Prepare
