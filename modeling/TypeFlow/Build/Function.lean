import TypeFlow.Build.Branch

/-! # Functions and classes

Each function has a graph of its own, in which its parameters are the first nodes. Defaults give
types to parameters. -/

namespace TypeFlow.Build

open Program

/-- Bind a parameter. The receiver is not a variable. -/
def visitParam (p : Param) : Build Unit := do
  if p.name ≠ "self" then
    setCount .function p.name 0
    let n ← Eval.newSymbol { symbol := p.name ++ "(arg)", order := 0, context := "Arg" }
    Eval.setPosition n p.position
    setLatest .function p.name (some n)
    addToFunction n

def paramNode (name : String) : Build NodeId := do
  match ← latest .function name with
  | some n => return n
  | none => throw .missingProperty

/-- The current node of a parameter, as seen from the function at the depth of the innermost
class. -/
def paramNodeByClass (name : String) : Build NodeId := do
  let w ← get
  let frame ← elementAt w.functions.reverse ((w.classes.length : Int) - 1)
  match frame.vars.latest.get? name with
  | some (some n) => return n
  | some none => throw .missingProperty
  | none => throw .missingKey

def constantDefault (param : String) (type : String) (pos : Position) (byClass : Bool) :
    Build Unit := do
  let n ← newKnown type .builtin (← paramNode param) pos
  Eval.addInput (← if byClass then paramNodeByClass param else paramNode param) (some n)
  addNode n

/-- Give a parameter the types of a default that is computed. Reading the default may itself
make a new node the current one. -/
def computedDefault (param : String) (pos : Position) (visit : Build Unit) : Build Unit := do
  let op ← newOperation "=" pos
  place op [] [some (← paramNode param)] pos
  reading op visit
  Eval.addInput (← paramNode param) (some op)
  addNode op

def visitDefault (param : String) (default_ : Expr) (byClass : Bool) (visit : Build Unit) :
    Build Unit := do
  match default_ with
  | .constant pos kind => do
    match ← literalType kind with
    | some type => constantDefault param type pos byClass
    | none => pure ()
  | e => computedDefault param e.position visit

/-- Parameters with their defaults; the last parameters have the last defaults. -/
def alignDefaults (plain : List Param) (defaults : List Expr) : List (Param × Expr) :=
  (plain.drop (plain.length - defaults.length)).zip
    (defaults.drop (defaults.length - plain.length))

def visitParams (params : Params) (visit : Expr → Build Unit) : Build Unit := do
  match params with
  | .mk _ plain variadic keyword keywordDefaults mapping defaults => do
    plain.forM visitParam
    keyword.forM visitParam
    mapping.toList.forM visitParam
    variadic.toList.forM visitParam
    for (p, e) in alignDefaults plain defaults do visitDefault p.name e false (visit e)
    for (p, default?) in keyword.zip keywordDefaults do
      match default? with
      | some e => visitDefault p.name e true (visit e)
      | none => pure ()

def qualifiedName (name : String) : Build String := do
  let owners := (← get).classes.reverse.map (·.name)
  return name ++ "@" ++ if owners.isEmpty then "global" else Text.join "," owners

/-- A function is to be read: it has not been, and it is among the wanted ones. -/
def isWanted (qualified : String) : Build Bool := do
  let w ← get
  let located := match w.locations with
    | some wanted => wanted.contains (.text qualified)
    | none => true
  return located && qualified ∉ w.visited

/-! ## Nodes with several inputs -/

/-- Put a merge between a node and its inputs. Each input has to know the node. -/
def mergeInputs (n : NodeId) : Build Unit := do
  let ins := (← Eval.node n).ins
  if 1 < ins.length then
    let m ← Eval.newMerge (← mergeName ins)
    Eval.modifyNode m fun node => { node with ins, outs := [some n] }
    for link in ins do
      match link with
      | none => throw .missingProperty
      | some i => do
        let outs := (← Eval.node i).outs
        if outs.contains (some n) then
          Eval.modifyNode i fun node =>
            { node with outs := outs.set (outs.idxOf (some n)) (some m) }
        else throw .badValue
    Eval.modifyNode n fun node => { node with ins := [some m] }
    addNode m

/-- Put a merge before every occurrence of a variable in the graph of a function that has several
inputs. -/
def mergeAllInputs (g : GraphId) : Build Unit := do
  let graph ← Eval.graph g
  if graph.isModule then throw .missingProperty
  graph.symbols.values.flatten.forM mergeInputs
  graph.returns.forM mergeInputs

def visitFunction (pos : Position) (name : String) (params body : Build Unit) : Build Unit := do
  let qualified ← qualifiedName name
  if ← isWanted qualified then
    let w ← get
    let owner := w.classes.head?.map (·.name)
    let graph := Graph.ofFunction qualified w.fileName w.userNames owner w.top
    let g ← Eval.newGraph { graph with startLine := pos.line }
    modify fun w =>
      { w with
        visited := w.visited ++ [qualified]
        functions := { name, graph := g } :: w.functions }
    clearLatest
    params
    body
    clearLatest
    mergeAllInputs g
    Eval.addFunction (← get).top g
    modify fun w => { w with functions := w.functions.tail }

/-- A class. Classes that are not inside another one are named by the module. -/
def visitClass (name : String) (body : Build Unit) : Build Unit := do
  modify fun w =>
    { w with
      classes := { name } :: w.classes
      classNames := if w.classes.isEmpty then w.classNames ++ [name] else w.classNames }
  body
  modify fun w => { w with classes := w.classes.tail }

def visitReturn (pos : Position) (value : Build Unit) : Build Unit := do
  let n ← Eval.newSymbol (← resultSymbol)
  Eval.setPosition n pos
  reading n value
  addNode n

/-- An augmented assignment reads its target and its value, then writes the target. -/
def visitAugmented (op : BinaryOp) (pos : Position) (target value : Build Unit) : Build Unit := do
  let n ← newOperation op.symbol pos
  reading n do
    modify fun w => { w with augmented := true }
    target
    value
    modify fun w => { w with augmented := false }
  let assign ← newOperation "=" pos
  Eval.connect n assign
  reading assign target
  feed assign (← get).unused
  addNode n
  addNode assign

def visitImport (names : List Import) : Build Unit :=
  modify fun w => { w with modules := w.modules ++ names.map fun i => i.newName.getD i.name }

end TypeFlow.Build
