import TypeFlow.Graph.Basic

/-! # Drawings

A graph as a list of drawing commands, and the labels under which its nodes appear. A label
prints the types of a variable. -/

namespace TypeFlow

inductive Stroke where
  | open (title fileName : String) (format : Option String)
  /-- Attributes for the nodes or edges that follow. -/
  | style (kind : String) (attributes : List (String × String))
  | node (label : String)
  | edge (source target : String)
  | render (fileName : String)
deriving DecidableEq, Repr

abbrev Drawing := List Stroke

/-- A position as it stands in a label. -/
def Position.label (p : Position) : String :=
  "\n  [" ++ toString p.line ++ ", " ++ toString p.column ++ ", " ++ toString p.columnEnd ++ "]"

/-- Text for a name that may be missing. -/
def orNone (name : Option String) : String := name.getD "None"

namespace Alias.Node

def label (n : Node) : String :=
  n.name ++ " @" ++ toString n.id ++ "\n(" ++ n.scope ++ ")"

end Alias.Node

namespace Eval

def symbolLabel (n : Node) (info : SymbolInfo) : Eval String := do
  let head :=
    if Text.has n.name "Return_Value" then n.name
    else if info.scope = "attribute" then
      orNone info.owner ++ "." ++ n.name ++ "," ++ toString info.order
    else n.name ++ "," ++ toString info.order
  return head ++ n.position.label ++ "\n " ++ (← printNumbered (.group n.types))

/-- The label of a node. At the top level of a module a call has to name its function. -/
def label (isModule : Bool) (n : NodeId) : Eval String := do
  let node ← Eval.node n
  match node.kind with
  | .symbol info => symbolLabel node info
  | .operation info => do
    if node.name = "call" then
      let func ← if isModule then require info.func .wrongKind else pure (orNone info.func)
      return node.name ++ " " ++ func ++ node.position.label
    else return node.name ++ node.position.label
  | .known _ => return node.name ++ node.position.label
  | .branch var _ => return node.name ++ " " ++ orNone var
  | .merge var => return node.name ++ " " ++ var
  | .base => return node.name

def labels (g : GraphId) : Eval (List String) := do
  let graph ← graph g
  graph.nodes.mapM (label graph.isModule)

def planNodes (isModule : Bool) (nodes : List NodeId) : List (Eval Stroke) :=
  nodes.map fun n => do return .node (← label isModule n)

def planEdge (isModule : Bool) (source target : NodeId) : Eval Stroke := do
  let source ← label isModule source
  let target ← label isModule target
  return .edge source target

def planEdges (graph : Graph) : Eval (List (Eval Stroke)) := do
  let plans ← graph.nodes.mapM fun n => do
    let outs := (← node n).outs.filterMap id
    return (outs.filter graph.nodes.contains).map (planEdge graph.isModule n)
  return plans.flatten

/-- A file in a directory, if one is given. -/
def inDirectory (directory : Option String) (fileName : String) : String :=
  match directory with
  | some d => d ++ "/" ++ fileName
  | none => fileName

def shape (name : String) : Stroke := .style "node" [("shape", name)]

def planDrawing (g : GraphId) (directory : Option String) : Eval (List (Eval Stroke)) := do
  let graph ← graph g
  let isModule := graph.isModule
  let fileName := inDirectory directory <|
    if isModule then Text.replace (Text.replace graph.name "/" "_") ".py" "_GlobalTDG"
    else Text.replace graph.fileName "/" "_" ++ "_" ++ graph.name
  let joins :=
    if isModule then graph.branches ++ graph.merges else graph.merges ++ graph.branches
  return [pure (.open "Type Graph" fileName none), pure (shape "box")] ++
    planNodes isModule graph.symbols.values.flatten ++ [pure (shape "ellipse")] ++
    planNodes isModule graph.operations.values.flatten ++ planNodes isModule joins ++
    [pure (shape "circle")] ++ planNodes isModule graph.knowns.values ++
    (if isModule then [] else [pure (shape "triangle")]) ++ (← planEdges graph) ++
    [pure (.render fileName)]

/-- Carry out a plan up to its end or to the first fault. -/
def carryOut : List (Eval Stroke) → Eval (Drawing × Option Fault)
  | [] => return ([], none)
  | stroke :: rest => do
    let first : Except Fault Stroke ← try (return .ok (← stroke)) catch f => pure (.error f)
    match first with
    | .error f => return ([], some f)
    | .ok s => do
      let (drawing, fault) ← carryOut rest
      return (s :: drawing, fault)

def sketch (g : GraphId) (directory : Option String) : Eval (Drawing × Option Fault) := do
  carryOut (← planDrawing g directory)

def draw (g : GraphId) (directory : Option String) : Eval Drawing := do
  match ← sketch g directory with
  | (drawing, none) => return drawing
  | (_, some f) => throw f

/-- Draw the alias graph of a module: attributes as directed edges, aliases as undirected ones,
each of them once. -/
def drawAliases (g : GraphId) (directory : Option String) : Eval Drawing := do
  let graph ← graph g
  let aliases := graph.aliases
  let fileName := inDirectory directory (Text.lastPiece graph.name "/" ++ "_AliasGraph")
  let nodes := aliases.nodes.toList
  let labelAt (i : Nat) : String := (aliases.nodes.getD i default).label
  let attributes := nodes.flatMap fun n => n.children.map fun i => Stroke.edge n.label (labelAt i)
  let pairs := nodes.flatMap fun n => n.aliases.map fun i => Stroke.edge n.label (labelAt i)
  return [.open "Alias Graph" fileName (some "png"), shape "ellipse"] ++
    nodes.map (fun n => .node n.label) ++ attributes ++
    [.style "edge" [("color", "red"), ("dir", "none")]] ++ pairs.eraseDups ++ [.render fileName]

end Eval
end TypeFlow
