import TypeFlow.Build
import TypeFlow.FileTree
import TypeFlow.Graph.Drawing
import TypeFlow.Inference
import TypeFlow.Prediction
import TypeFlow.Score.Compare
import TypeFlow.UserType.Names

/-! # Scoring a file

The types of a file are inferred and compared with a ground truth, which lists annotations by
class of types, file, class and function. A file that is not in the ground truth, does not exist
or has no graph is not scored. -/

namespace TypeFlow

namespace Score

/-- What to score, and with which help. -/
structure Task where
  fileName : String
  /-- Annotations by class of types, file, class and function; `null` when they are in a file. -/
  truth : Document
  truthFile : String := ""
  /-- User types by file, or the path of such data. -/
  userTypes : Document := .null
  /-- Recommendations by file; `null` when there are none. -/
  recommendations : Document := .null
  /-- Ask the model server when there are no recommendations. -/
  useServer : Bool := false
  /-- What the model server answers. -/
  answer : Option Document := none
  /-- How many types are taken for each variable. -/
  limit : Int := 1
  directory : Option String := none
  /-- Give recommended types to every variable without types. -/
  all : Bool := false
  drawn : Bool := false

/-- The counts for each class of types, and the inferred types. -/
structure Outcome where
  tallies : List (String × Tally)
  reports : Table String Document

/-- Annotations by class of types and by place. -/
abbrev Truth := List (String × Table String Document)

/-- Enter the annotations of a class by place. -/
def placesOf (places : Table String Document) (cls : String × Document) :
    Except Fault (Table String Document) := do
  (← cls.2.entries).foldlM
    (fun places (func, d) => do
      return places.insert (func ++ "@" ++ cls.1) (← d.field "annotations")) places

def truthOf (truth : Document) (fileName : String) : Except Fault Truth := do
  let found ← (← truth.entries).mapM fun (kind, files) => do
    if ← files.holds fileName then
      let places ← (← (← files.field fileName).entries).foldlM placesOf {}
      return some (kind, places)
    else return none
  return found.filterMap id

/-- The description that stands for missing user types. It lists no unrecognized types. -/
def noUserTypes : Document :=
  .record [("direct", .list []), ("indirect", .list []), ("init", .list []), ("num", .int 0),
    ("module", .list [.text "a"])]

def userTypesIn (all : Document) (fileName : String) : Except Fault Document := do
  if ← all.holds fileName then all.field fileName else return noUserTypes

def userTypesFor (tree : FileTree) (t : Task) : Except Fault Document := do
  match t.userTypes with
  | .record fields => userTypesIn (.record fields) t.fileName
  | .text path => do userTypesIn (← tree.readData path) t.fileName
  | _ => return noUserTypes

/-- The recommendations for a task. The path of a file is not accepted. -/
def recommendationsFor (t : Task) : Except Fault Document := do
  match t.recommendations with
  | .text _ => throw .unknownName
  | .null =>
    if t.useServer then return (← Prediction.ofAnswer t.answer).getD .null else return .null
  | .record fields => return (Document.record fields).field? t.fileName |>.getD .null
  | d => return d

/-- There are recommendations for the top level of the module. -/
def advisesModule (recommendations : Document) : Except Fault Bool := do
  if recommendations == .null then return false
  if !(← recommendations.holds "global") then return false
  (← recommendations.field "global").holds "global"

/-- Infer the types at the top level of the module. -/
def inferTop (t : Task) (recommendations users : Document) (g : GraphId) : Eval Unit := do
  let advised ← ofExcept (advisesModule recommendations)
  Eval.passTypes g
  if advised then
    Eval.recommendModule g recommendations (← ofExcept (users.field "module")) t.limit
    Eval.passTypes g
  Eval.simplifyGraph g

/-- Infer the types of a function. Types are simplified in the end. -/
def inferFunction (t : Task) (recommendations users : Document) (g : GraphId) : Eval Unit := do
  if recommendations == .null then Eval.passTypes g
  else
    Eval.repeatRounds (do
      Eval.recommendOnce g
        ⟨recommendations, ← ofExcept (users.field "module"), t.limit⟩ t.all) Eval.maxRounds
  Eval.simplifyGraph g

def drawingDirectory : String := "testtgs"

/-- Draw a graph if that is asked for. Labels print types, which may change them. -/
def drawFor (t : Task) (g : GraphId) : Eval Unit := do
  if t.drawn then
    let _ ← Eval.draw g (some drawingDirectory)

/-- What was inferred so far: types to compare and types to show. -/
structure Inferred where
  types : Reports := {}
  shown : Table String Document := {}

def Inferred.add (i : Inferred) (name : String) (g : GraphId) : Eval Inferred := do
  return { types := i.types.insert name (← Eval.slotTypes g)
           shown := ← Eval.addReport name g i.shown }

/-- Infer the types of the functions with annotations. -/
def inferPlaces (t : Task) (recommendations users : Document) (places : List String)
    (top : GraphId) (i : Inferred) : Eval Inferred := do
  (← Eval.graph top).functions.foldlM
    (fun i g => do
      let name := (← Eval.graph g).name
      if name ∈ places then
        inferFunction t recommendations users g
        drawFor t g
        i.add name g
      else return i) i

def graphOf (t : Task) (users : Document) (program : Program.Module) : Eval GraphId := do
  let userNames ← ofExcept (UserType.names users)
  return (← Build.graphsOf { fileName := t.fileName, userNames } program).top

/-- A computation whose faults leave nothing to score. -/
def orNothing {α : Type} (x : Eval α) : Eval (Option α) :=
  try (return some (← x)) catch _ => return none

/-- Infer types and compare them with the annotations. -/
def scoreProgram (t : Task) (truth : Truth) (recommendations users : Document)
    (program : Program.Module) : Eval (Option Outcome) := do
  match ← orNothing (graphOf t users program) with
  | none => return none
  | some top => do
    inferTop t recommendations users top
    let i ← Inferred.add {} Eval.moduleReportKey top
    drawFor t top
    let places := truth.flatMap fun (_, places) => places.keys
    match ← orNothing (inferPlaces t recommendations users places top i) with
    | none => return none
    | some i => do
      let tallies ← truth.mapM fun (kind, places) => do
        return (kind, ← scoreClass i.types places)
      return some { tallies, reports := i.shown }

def Task.path (t : Task) : String :=
  match t.directory with
  | some d => d ++ "/" ++ t.fileName
  | none => t.fileName

end Score

/-- The result of a computation on an empty store. -/
def Eval.compute {α : Type} (x : Eval α) : Except Fault α :=
  match x.run {} with
  | .ok a _ => .ok a
  | .error f _ => .error f

namespace Score

def scoreFile (tree : FileTree) (t : Task) : Except Fault (Option Outcome) := do
  let all ← if t.truth == .null then tree.readData t.truthFile else pure t.truth
  let truth ← truthOf all t.fileName
  if truth.isEmpty || !tree.hasPath t.path then return none
  let program ← tree.readProgram t.path
  let users ← userTypesFor tree t
  let recommendations ← recommendationsFor t
  (scoreProgram t truth recommendations users program).compute

end Score
end TypeFlow
