import TypeFlow.Archive.Graph
import TypeFlow.Build
import TypeFlow.Command.Arguments
import TypeFlow.Command.World
import TypeFlow.UserType.Names

/-! # Building graphs

Builds the graphs of one file or of all files of a repository and saves or draws them. In a
repository, a file whose graphs cannot be built is given those of the file before it. -/

namespace TypeFlow.Command.Graphs

structure Options where
  source : Option String := none
  repository : String
  pruned : Bool := false
  location : Option String := none
  withAliases : Bool := false
  directory : Option String := none
  format : String := "json"
deriving DecidableEq, Repr, Inhabited

def opts : List Opt := [
  { letter := 's', name := "source" },
  { letter := 'p', name := "repo", required := true },
  { letter := 'o', name := "optimize", expects := .nothing },
  { letter := 'l', name := "location" },
  { letter := 'a', name := "alias_analysis", expects := .nothing },
  { letter := 'c', name := "call_analysis", expects := .nothing },
  { letter := 'd', name := "output_directory" },
  { letter := 'f', name := "output_format", expects := .oneOf ["json", "pdf"] }]

/-- Graphs of calls cannot be asked for. -/
def read (args : List String) : Except Fault Options := do
  let s ← readArguments opts args
  if s.has "call_analysis" then throw (.rejectedValue "no call graphs")
  return {
    source := s.text? "source", repository := s.text "repo", pruned := s.has "optimize"
    location := s.text? "location", withAliases := s.has "alias_analysis"
    directory := s.text? "output_directory", format := s.text "output_format" "json" }

structure Built where
  top : GraphId
  store : Store

def build (o : Options) (path : String) : Act Built := do
  let program ← Act.readProgram path
  let findings ← Act.discover path o.repository program
  let (top, store) ← Act.compute do
    let userNames ← ofExcept (UserType.names findings.describe)
    let locations ← ofExcept (Build.readLocations (.list [.ofText? o.location]))
    let w ← Build.graphsOf
      { fileName := path, pruned := o.pruned, locations, userNames
        aliasLevel := if o.withAliases then 1 else 0 }
      program
    return w.top
  return { top, store }

def save (directory path : String) (built : Act Built) : Act Unit :=
  Act.save (outputFor directory path ".py" "_TDG.json") do
    let b ← built
    match (Eval.saveModule b.top).run b.store with
    | .ok d _ => return d
    | .error f _ => throw f

/-- Draw a graph. What was drawn before a fault is kept. -/
def drawOne (directory : String) (s : Store) (g : GraphId) : Act Store := do
  match (Eval.sketch g (some directory)).run s with
  | .ok (drawing, none) s => do
    Act.keep drawing
    return s
  | .ok (drawing, some f) _ => do
    Act.keep drawing
    throw f
  | .error f _ => throw f

/-- Draw the graphs of a file, those of functions first. -/
def draw (directory : String) (built : Act Built) : Act Unit := do
  let b ← built
  let functions := (b.store.graphAt b.top).functions
  let _ ← (functions ++ [b.top]).foldlM (drawOne directory) b.store

/-- Save or draw the graphs of a file. -/
def output (o : Options) (directory path : String) (built : Act Built) : Act Unit :=
  if o.format = "json" then save directory path built else draw directory built

def runFile (o : Options) (directory source : String) : Act Unit :=
  Act.attempt do
    let b ← build o source
    output o directory source (return b)

/-- Graphs that have to be there. -/
def orUnbound (b : Option Built) : Act Built :=
  match b with
  | some b => return b
  | none => throw .unboundVariable

/-- Handle a file of a repository. When its graphs cannot be built, the last ones that could be
stand in. -/
def runNext (o : Options) (directory : String) (last : Option Built) (path : String) :
    Act (Option Built) := do
  let last ← try (return some (← build o path)) catch _ => pure last
  output o directory path (orUnbound last)
  return last

def runRepository (o : Options) (directory : String) : Act Unit := do
  let paths ← Act.programsBelow o.repository
  let _ ← paths.foldlM (runNext o directory) none

def run (o : Options) : Act Unit := do
  if (← get).tree.isDirectory o.repository then
    let directory := outputDirectory o.directory
    Act.enterDirectory directory
    match nonEmpty? o.source with
    | some source => runFile o directory source
    | none => runRepository o directory

end TypeFlow.Command.Graphs
