import TypeFlow.Build
import TypeFlow.Command.Arguments
import TypeFlow.Command.World
import TypeFlow.Inference
import TypeFlow.UserType.Names

/-! # Inferring types

Infers the types of one file or of all files of a repository. Recommendations come from a file,
by path of the source file, or from the model server. -/

namespace TypeFlow.Command.Infer

structure Options where
  source : Option String := none
  repository : String
  location : Option String := none
  directory : Option String := none
  recommendations : Option String := none
  useServer : Bool := false
  limit : Int := 1
deriving DecidableEq, Repr, Inhabited

def opts : List Opt := [
  { letter := 's', name := "source" },
  { letter := 'p', name := "repo", required := true },
  { letter := 'l', name := "location" },
  { letter := 'd', name := "output_directory" },
  { letter := 'm', name := "recommendations" },
  { letter := 't', name := "type4py", expects := .nothing },
  { letter := 'n', name := "topn", expects := .number }]

def read (args : List String) : Except Fault Options := do
  let s ← readArguments opts args
  return {
    source := s.text? "source", repository := s.text "repo", location := s.text? "location"
    directory := s.text? "output_directory", recommendations := s.text? "recommendations"
    useServer := s.has "type4py", limit := s.number "topn" 1 }

def result : String := "_INFERREDTYPES.json"

/-- The recommendations in the given file, if there is one. -/
def givenRecommendations (o : Options) : Act Document := do
  match nonEmpty? o.recommendations with
  | some path => do
    if (← get).tree.isFile path then Act.readData path else return .null
  | none => return .null

/-- The model server is to be asked. -/
def asksServer (o : Options) (given : Document) : Bool := given == .null && o.useServer

/-- The recommendations of the model server. -/
def serverRecommendations : Act Document := do
  return (← ofExcept (Prediction.ofAnswer (← get).answer)).getD .null

/-- The recommendations of a file among the given ones. -/
def recommendationsOf (given : Document) (path : String) : Option Document :=
  match given with
  | .record fields => fields.lookup path
  | _ => none

def graphOf (path : String) (location : Option String) (f : UserType.Findings)
    (program : Program.Module) : Eval GraphId := do
  let userNames ← ofExcept (UserType.names f.describe)
  let locations ← ofExcept (Build.readLocations (.list [.ofText? location]))
  return (← Build.graphsOf { fileName := path, locations, userNames } program).top

def modulesOf (f : UserType.Findings) : Document := .list (f.modules.map .text)

def inferFile (o : Options) (given : Document) (source : String) : Act Document := do
  let program ← Act.readProgram source
  let findings ← Act.discover source o.repository program
  let (top, store) ← Act.compute (graphOf source o.location findings program)
  let recommendations ←
    if asksServer o given then serverRecommendations
    else pure ((recommendationsOf given source).getD given)
  let infer : Eval (Table String Document) := do
    let advice := ⟨recommendations, modulesOf findings, o.limit⟩
    Eval.inferModule top advice
    Eval.inferFunctions top advice (← Eval.addReport Eval.moduleReportKey top {})
  match infer.run store with
  | .ok reports _ => return Eval.describeReports reports
  | .error f _ => throw f

/-- Infer the types of a file of a repository. The types at the top level of its module are
neither simplified nor recommended. -/
def inferNext (o : Options) (given : Document) (path : String) : Act Document := do
  let program ← Act.readProgram path
  let findings ← Act.discover path o.repository program
  let start : Eval (GraphId × Table String Document) := do
    let top ← graphOf path none findings program
    Eval.passTypes top
    return (top, ← Eval.addReport Eval.moduleReportKey top {})
  let ((top, reports), store) ← Act.compute start
  let recommendations ←
    if asksServer o given then serverRecommendations
    else pure ((recommendationsOf given path).getD .null)
  let advice := ⟨recommendations, modulesOf findings, o.limit⟩
  match (Eval.inferFunctions top advice reports).run store with
  | .ok reports _ => return Eval.describeReports reports
  | .error f _ => throw f

def runFile (o : Options) (directory : String) (given : Document) (source : String) : Act Unit :=
  Act.attempt do
    let d ← inferFile o given source
    Act.save (outputFor directory source ".py" result) (return d)

/-- Handle a file of a repository, and add its types to those of the others. -/
def addFile (o : Options) (given : Document) (found : Table String Document) (path : String) :
    Act (Table String Document) :=
  try (return found.insert path (← inferNext o given path)) catch _ => return found

def runRepository (o : Options) (directory : String) (given : Document) : Act Unit := do
  let paths ← Act.programsBelow o.repository
  let found ← paths.foldlM (addFile o given) {}
  Act.save (outputForAll directory o.repository result) (return .record found.entries)

def run (o : Options) : Act Unit := do
  if (← get).tree.isDirectory o.repository then
    let directory := outputDirectory o.directory
    Act.enterDirectory directory
    let given ← givenRecommendations o
    match nonEmpty? o.source with
    | some source => runFile o directory given source
    | none => runRepository o directory given

end TypeFlow.Command.Infer
