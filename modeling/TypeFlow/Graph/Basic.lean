import TypeFlow.Node.Types

/-! # Building and querying graphs

A node that is added to a graph gets a number there, is indexed by symbol, operation or type, and
is noted in the buffers of the loop, `try` body and handler that are being built. The graph of a
module indexes the symbols that can be seen outside of it. -/

namespace TypeFlow

namespace Graph

def ofModule (name : String) (userNames : List Document) : Graph :=
  { name, fileName := name, role := .module, userNames }

def ofFunction (name fileName : String) (userNames : List Document) (owner : Option String)
    (top : GraphId) : Graph :=
  { name, fileName, role := .function owner top, userNames }

def isModule (g : Graph) : Bool := g.role == .module

def owner (g : Graph) : Option String :=
  match g.role with
  | .function owner _ => owner
  | .module => none

/-- Note a node in the buffer of the innermost loop. -/
def bufferLoop (g : Graph) (n : NodeId) : Graph :=
  if g.loopDepth = 0 then g
  else if (g.loopBuffer.length : Int) ≠ g.loopDepth then
    { g with loopBuffer := g.loopBuffer ++ [[n]] }
  else { g with loopBuffer := g.loopBuffer.modify (g.loopBuffer.length - 1) (· ++ [n]) }

/-- Note a node in the buffer of the innermost `try` body. The first node after the body is
entered only opens the buffer. -/
def bufferTry (g : Graph) (n : NodeId) (symbol? : Option SymbolInfo) : Graph :=
  if g.tryDepth = 0 then g
  else if (g.tryBuffer.length : Int) ≠ g.tryDepth then
    { g with tryBuffer := g.tryBuffer ++ [.empty] }
  else
    match symbol? with
    | some info =>
      if info.context = "Write" then
        { g with tryBuffer := g.tryBuffer.modify (g.tryBuffer.length - 1) fun writes =>
            writes.insert info.symbol ((writes.get? info.symbol).getD [] ++ [n]) }
      else g
    | none => g

/-- Note a node in the buffer of the innermost handler: the last write of a symbol, or a later
read of it. -/
def bufferExcept (g : Graph) (n : NodeId) (symbol? : Option SymbolInfo) : Graph :=
  if g.exceptDepth = 0 then g
  else if (g.exceptBuffer.length : Int) ≠ g.exceptDepth then
    { g with exceptBuffer := g.exceptBuffer ++ [.empty] }
  else
    match symbol? with
    | some info =>
      let last := g.exceptBuffer.length - 1
      let known := (g.exceptBuffer.getD last .empty).contains info.symbol
      if info.context = "Write" || (info.context = "Read" && known) then
        { g with exceptBuffer := g.exceptBuffer.modify last fun writes =>
            writes.insert info.symbol n }
      else g
    | none => g

def index (t : Table String (List NodeId)) (key : String) (n : NodeId) :
    Table String (List NodeId) :=
  t.insert key ((t.get? key).getD [] ++ [n])

/-- Index an occurrence of a variable. Arguments and results of functions are listed apart. -/
def indexSymbol (g : Graph) (n : NodeId) (info : SymbolInfo) : Graph :=
  if g.isModule then
    if info.scope = "local" then g else { g with symbols := index g.symbols info.symbol n }
  else
    { g with
      arguments := if info.context = "Arg" then g.arguments ++ [n] else g.arguments
      returns := if info.context = "Return" then g.returns ++ [n] else g.returns
      symbols := index g.symbols info.symbol n }

def indexNode (g : Graph) (n : NodeId) (kind : NodeKind) : Graph :=
  match kind with
  | .base => g
  | .symbol info => g.indexSymbol n info
  | .operation info => { g with operations := index g.operations info.op n }
  | .known t => if g.knowns.contains t then g else { g with knowns := g.knowns.insert t n }
  | .branch .. => { g with branches := g.branches ++ [n] }
  | .merge _ => { g with merges := g.merges ++ [n] }

end Graph

namespace Eval

def topOf (g : GraphId) : Typing GraphId := do
  match (← graph g).role with
  | .function _ top => return top
  | .module => return g

def isModuleNode (n : Node) : Typing Bool := do
  match n.graph with
  | some g => return (← graph g).isModule
  | none => return false

/-- Add a node to a graph. A function does not renumber nodes of its module. -/
def addNode (g : GraphId) (n : NodeId) : Eval Unit := do
  let node ← Eval.node n
  let symbol? := node.kind.symbol?
  modifyGraph g fun graph =>
    let graph := ((graph.bufferLoop n).bufferTry n symbol?).bufferExcept n symbol?
    { graph with nodes := graph.nodes ++ [n] }
  let target ← graph g
  let keepsNumber ← if target.isModule then pure false else isModuleNode node
  if !keepsNumber then
    modifyNode n fun node =>
      { node with graph := some g, id := target.name ++ "@" ++ toString target.nextIndex }
    modifyGraph g fun graph => { graph with nextIndex := graph.nextIndex + 1 }
  modifyGraph g fun graph => graph.indexNode n node.kind

def hasNode (g : GraphId) (n : NodeId) : Typing Bool := return (← graph g).nodes.contains n

def addFunction (top g : GraphId) : Eval Unit :=
  modifyGraph top fun graph => { graph with functions := graph.functions ++ [g] }

def addClassName (top : GraphId) (name : String) : Eval Unit :=
  modifyGraph top fun graph => { graph with classNames := graph.classNames ++ [name] }

/-- Append a name to a list unless it is there. -/
def addName (known : List String) (name : String) : List String :=
  if name ∈ known then known else known ++ [name]

/-- Name classes of a module, each of them once. -/
def addClassNames (top : GraphId) (names : List String) : Eval Unit :=
  modifyGraph top fun graph =>
    { graph with classNames := names.foldl addName graph.classNames }

/-- The indexed occurrences of all variables, by order of the symbols. -/
def symbolNodes (g : GraphId) : Typing (List NodeId) :=
  return (← graph g).symbols.values.flatten

/-- Some node has no types. -/
def isUntyped (n : NodeId) : Typing Bool := return (← typesAt n).isEmpty

/-- Occurrences of variables without types. -/
def emptySymbols (g : GraphId) : Typing (List NodeId) := do (← symbolNodes g).filterM isUntyped

/-- Nodes without inputs, each of them once. -/
def sources (g : GraphId) : Typing (List NodeId) := do
  (← graph g).nodes.foldlM
    (fun found n => do
      if (← node n).ins.isEmpty && !found.contains n then return found ++ [n] else return found)
    []

def setLabel (n : NodeId) (label : Nat) : Eval Unit :=
  modifyNode n fun node => { node with label }

/-- Mark all nodes as not visited. -/
def clearLabels (g : GraphId) : Eval Unit := do (← graph g).nodes.forM (setLabel · 0)

def sideRow (sides : RowId) (i : Nat) : Typing RowId := do
  match (← row sides)[i]? with
  | some (.group r) => return r
  | some _ => throw .wrongKind
  | none => throw .outOfRange

def isRejecting (n : NodeId) : Typing Bool := do
  let node ← Eval.node n
  if node.kind.isBranch then
    if (← row (← sideRow node.rejected 0)).isEmpty then
      return !(← row (← sideRow node.rejected 1)).isEmpty
    else return true
  else return !(← row node.rejected).isEmpty

def rejecting (g : GraphId) : Typing (List NodeId) := do (← graph g).nodes.filterM isRejecting

/-- Operations and variables that a variable flows into. -/
structure Usage where
  operations : List String := []
  symbols : List String := []

def Usage.add (u : Usage) (kind : NodeKind) : Usage :=
  match kind with
  | .operation info =>
    if u.operations.contains info.op then u
    else
      match info.op, info.func with
      | "call", some func => { u with operations := u.operations ++ ["call_" ++ func] }
      | op, _ => { u with operations := u.operations ++ [op] }
  | .symbol info =>
    if u.symbols.contains info.symbol then u
    else { u with symbols := u.symbols ++ [info.symbol] }
  | _ => u

def usage (g : GraphId) (name : String) : Typing (Option Usage) := do
  match (← graph g).symbols.get? name with
  | none => return none
  | some nodes => do
    let mut u : Usage := {}
    for n in nodes do
      for out in (← node n).outs.filterMap id do u := u.add (← node out).kind
    return some u

/-- Walk the outputs of nodes breadth first, past everything but variables without types. Every
node is passed once, so the number of edges bounds the walk. -/
def nextEmptyFrom : Nat → List Link → List Link → List NodeId → Eval (List NodeId)
  | 0, _, _, found => return found
  | _, [], _, found => return found
  | fuel + 1, link :: queue, visited, found => do
    let stops ← match link with
      | some n => do
        if (← node n).kind.symbol?.isSome then isUntyped n else pure false
      | none => pure false
    if stops then nextEmptyFrom fuel queue (link :: visited) (found ++ link.toList)
    else if link ∈ visited then nextEmptyFrom fuel queue (link :: visited) found
    else
      let n ← require link .missingProperty
      nextEmptyFrom fuel (queue ++ (← node n).outs) (link :: visited) found

/-- The nearest variables without types that a node flows into. -/
def nextEmpty (n : NodeId) : Eval (List NodeId) := do
  let outs := (← node n).outs
  let edges := (← get).nodes.foldl (fun sum node => sum + node.outs.length) 0
  nextEmptyFrom (outs.length + edges + 1) outs [] []

/-- Forget the types that the flow has set. -/
def clearFlow (g : GraphId) : Eval Unit := do
  for n in (← graph g).nodes do
    if (← node n).tag = 3 then clearTypes n

/-- Forget all types but those of known nodes. -/
def clearAll (g : GraphId) : Eval Unit := do
  for n in (← graph g).nodes do
    if !(← node n).kind.isKnown then clearTypes n

def simplifyNode (n : NodeId) : Eval Unit := do
  let node ← Eval.node n
  if node.kind.isBranch then
    let left ← newRow (← maximal (← row (← sideRow node.types 0)))
    let right ← newRow (← maximal (← row (← sideRow node.types 1)))
    setTypes n [.group left, .group right]
  else setTypes n (← maximal (← typesAt n))

/-- Simplify the types of all nodes. A result that nothing flows into is `None`. -/
def simplifyGraph (g : GraphId) : Eval Unit := do
  let returns := (← graph g).returns
  for n in (← graph g).nodes do
    let node ← Eval.node n
    if !node.kind.isBranch && returns.contains n && node.ins.isEmpty then
      append node.types (.type (← newType "None"))
    else simplifyNode n

def returnTypes (g : GraphId) : Typing (List Entry) := do
  match (← graph g).returns with
  | [] => return [.type (← newType "None")]
  | returns => return (← returns.mapM typesAt).flatten

/-- Looking a node up by line and name fails as soon as there is something to look through. -/
def findNode (g : GraphId) (kind : String) : Typing (Option NodeId) := do
  let graph ← graph g
  if graph.isModule then throw .missingProperty
  let candidates := match kind with
    | "Symbol" => graph.symbols.size
    | "TypeGen" => graph.operations.size
    | _ => 0
  if candidates = 0 then return none else throw .missingProperty

/-- Keep the types of the attributes that a constructor sets, the last occurrence first. -/
def storeAttributes (g : GraphId) : Eval Unit := do
  let graph ← graph g
  let top ← match graph.role with
    | .function _ top => pure top
    | .module => throw .missingProperty
  if graph.name = "__init__" then
    for n in graph.nodes do
      match (← node n).kind with
      | .symbol info =>
        if info.scope = "attribute" then store top n info
      | _ => pure ()
where
  /-- Keep the types of one occurrence, if it has any and is not older than what is kept. -/
  store (top : GraphId) (n : NodeId) (info : SymbolInfo) : Eval Unit := do
    let classTypes := (← graph top).classTypes
    let attributes := (classTypes.get? info.owner).getD {}
    let attributes ←
      if attributes.types.contains info.symbol then pure attributes
      else do
        let types ← newRow []
        pure ⟨attributes.orders.insert info.symbol 0, attributes.types.insert info.symbol types⟩
    let last := (attributes.orders.get? info.symbol).getD 0
    let entries ← typesAt n
    let attributes ←
      if entries.isEmpty || info.order < last then pure attributes
      else do
        let types ← newRow entries
        pure
          ⟨attributes.orders.insert info.symbol info.order,
            attributes.types.insert info.symbol types⟩
    modifyGraph top fun graph =>
      { graph with classTypes := graph.classTypes.insert info.owner attributes }

end Eval
end TypeFlow
