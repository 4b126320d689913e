import TypeFlow.Alias.Analysis
import TypeFlow.Build.Stmt
import TypeFlow.Graph.Prune

/-! # Building graphs

A program becomes the graph of its module and the graphs of its functions. -/

namespace TypeFlow

open Program

/-- What a build reads, and how much of it is kept. -/
structure BuildOptions where
  fileName : String := "m.py"
  /-- Remove the nodes that feed nothing. -/
  pruned : Bool := true
  /-- Names of the functions to read. -/
  locations : Option (List Document) := none
  userNames : List Document := []
  /-- With 1 the aliases of the program are found as well, with more only the aliases. -/
  aliasLevel : Int := 0

namespace Build

/-- The functions to read, as a caller gives them: nothing, or a list. A list with nothing in it
but an absent name is no restriction. -/
def readLocations : Document → Except Fault (Option (List Document))
  | .null => .ok none
  | .list [.null] => .ok none
  | .list l => .ok (some l)
  | _ => .error (.rejectedValue "Invalid locations for generating TDGs.")

/-- Start a walk in a new graph of a module. -/
def start (o : BuildOptions) : Eval Walk := do
  let top ← Eval.newGraph (Graph.ofModule o.fileName o.userNames)
  return { top, fileName := o.fileName, userNames := o.userNames, locations := o.locations }

def readProgram (around : Build Unit → Build Unit) (o : BuildOptions) (program : Module) :
    Build Unit := do
  visitBody around program
  let w ← get
  Eval.addClassNames w.top w.classNames
  if o.pruned then
    Eval.prune w.top
    (← Eval.graph w.top).functions.forM fun g => Eval.prune g

def findAliases (g : GraphId) (program : Module) : Eval Unit := do
  let aliases ← ofExcept ((← Eval.graph g).aliases.addProgram program)
  Eval.modifyGraph g fun graph => { graph with aliases }

/-- Build the graphs of a program, with something done around every visit of an expression, a
statement or a handler. -/
def graphsAround (around : Build Unit → Build Unit) (o : BuildOptions) (program : Module) :
    Eval Walk := do
  let w ← start o
  if 0 < o.aliasLevel then findAliases w.top program
  if o.aliasLevel ≤ 1 then
    let (_, w) ← (readProgram around o program).run w
    return w
  else return w

/-- Build the graphs of a program. The walk that comes back has the graph of the module and the
imported names. -/
def graphsOf (o : BuildOptions) (program : Module) : Eval Walk := graphsAround id o program

/-- Put merges before the occurrences with several inputs in a graph that is not being built.
The merges are added to a module of their own. -/
def mergeInputsOf (g : GraphId) : Eval Unit := do
  let w ← start {}
  let _ ← (mergeAllInputs g).run w

end Build
end TypeFlow
