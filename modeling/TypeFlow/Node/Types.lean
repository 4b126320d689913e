import TypeFlow.Type.Print

/-! # Nodes and their types

Making nodes, joining them, and putting types on them. -/

namespace TypeFlow.Eval

/-- Make a node of some kind without neighbours. -/
def makeNode (kind : NodeKind) (name : String) (types rejected : List Entry := []) :
    Eval NodeId := do
  let types ← newRow types
  let rejected ← newRow rejected
  newNode { kind, name, types, rejected }

/-- Make an occurrence of a variable. -/
def newSymbol (info : SymbolInfo) : Eval NodeId := makeNode (.symbol info) info.symbol

def newOperation (op : String) (func attr : Option String := none) (splitIndex : Int := 0) :
    Eval NodeId := do
  let rejectedInputs ← newRow []
  makeNode (.operation { op, func, attr, splitIndex, rejectedInputs }) op

def newKnown (e : Entry) : Eval NodeId := do
  match e with
  | .type t => do makeNode (.known t) (← type t).name [.type t]
  | _ => throw (.rejectedValue "t must be a TypeObject object.")

/-- Two empty rows, one for each side of a branch. -/
def emptySides : Typing (List Entry) := do
  return [.group (← newRow []), .group (← newRow [])]

def newBranch (var : Option String) : Eval NodeId := do
  let outTypes ← newRow []
  makeNode (.branch var outTypes) "branch" (← emptySides) (← emptySides)

def newMerge (var : String) : Eval NodeId := makeNode (.merge var) "merge"

def setPosition (n : NodeId) (position : Position) : Eval Unit :=
  modifyNode n fun node => { node with position }

/-- A neighbour that is already there has to have a name. -/
def checkLink : Link → Typing Unit
  | some _ => pure ()
  | none => throw .missingProperty

/-- Add an input to a node, unless it is one. -/
def addInput (n : NodeId) (link : Link) : Eval Unit := do
  let node ← Eval.node n
  if node.kind.isKnown then throw .missingProperty
  if link ∈ node.ins then checkLink link
  else modifyNode n fun node => { node with ins := node.ins ++ [link] }

/-- Add an output to a node, unless it is one. -/
def addOutput (n : NodeId) (link : Link) : Eval Unit := do
  if link ∈ (← Eval.node n).outs then checkLink link
  else modifyNode n fun node => { node with outs := node.outs ++ [link] }

/-- Join two nodes by an edge. -/
def connect (source target : NodeId) : Eval Unit := do
  addOutput source (some target)
  addInput target (some source)

def typesRow (n : NodeId) : Typing RowId := do
  let node ← Eval.node n
  match node.kind with
  | .base => throw .missingProperty
  | _ => return node.types

def typesAt (n : NodeId) : Typing (List Entry) := do row (← typesRow n)

/-- The row of types at the end of an edge. -/
def linkTypes : Link → Typing (List Entry)
  | some n => typesAt n
  | none => throw .missingProperty

/-- Give a node a new row of types. -/
def setTypes (n : NodeId) (entries : List Entry) : Eval Unit := do
  let types ← newRow entries
  modifyNode n fun node => { node with types }

/-- Give a node a new row of rejected types. -/
def setRejected (n : NodeId) (entries : List Entry) : Eval Unit := do
  let rejected ← newRow entries
  modifyNode n fun node => { node with rejected }

def setTag (n : NodeId) (tag : Int) : Eval Unit :=
  modifyNode n fun node => { node with tag }

/-- Say whether the last operation changed the types of a symbol. -/
def setChanged (n : NodeId) (changed : Bool) : Eval Unit :=
  modifyNode n fun node =>
    { node with kind := match node.kind with
        | .symbol info => .symbol { info with changed }
        | other => other }

/-- Only a variable takes types one by one; a branch takes those of its sides all at once. -/
def checkTakesTypes (n : NodeId) : Typing Unit := do
  match (← Eval.node n).kind with
  | .symbol _ => pure ()
  | .branch .. => throw .wrongKind
  | _ => throw .missingProperty

/-- Add types to a symbol one after the other, each of which has to be new. -/
def addEach (n : NodeId) : List Entry → Eval Unit
  | [] => pure ()
  | e :: rest => do
    let types := (← Eval.node n).types
    match e with
    | .type _ =>
      if e ∈ (← row types) then throw (.rejectedKind refusal)
      setChanged n true
      append types e
      addEach n rest
    | _ => throw (.rejectedKind refusal)
where
  refusal : String := "t contains elements which are not TypeObjects."

def addTypes (n : NodeId) (entries : List Entry) (tag : Int) (independent : Bool := true) :
    Eval Unit := do
  checkTakesTypes n
  if independent then setChanged n false
  addEach n entries
  setTag n tag

def addOneType (n : NodeId) (e : Entry) (tag : Int) (independent : Bool := true) :
    Eval Unit := do
  checkTakesTypes n
  if independent then setChanged n false
  match e with
  | .type _ => do
    setChanged n true
    append (← Eval.node n).types e
    setTag n tag
  | _ => throw (.rejectedKind "t should be either a List[TypeObject] or a TypeObject.")

/-- Add the types of all inputs to a symbol, unless its types are fixed. -/
def mergeTypes (n : NodeId) : Eval Unit := do
  let node ← Eval.node n
  let _ ← require node.kind.symbol? .missingProperty
  setChanged n false
  if node.tag = 1 then return ()
  for link in node.ins do addTypes n (← linkTypes link) 3

/-- Take a type from a symbol. Types that are there cannot be taken away. Types of a symbol that
are fixed are left alone, and then the answer is 0. -/
def removeType (n : NodeId) (e : Entry) : Eval (Option Int) := do
  let node ← Eval.node n
  let _ ← require node.kind.symbol? .missingProperty
  setChanged n false
  if node.tag = 1 then return some 0
  match e with
  | .type _ => do
    if e ∈ (← row node.types) then
      setChanged n true
      throw .missingProperty
    return none
  | _ => return none

/-- Forget the types of a node. Nodes for known types and nodes without a kind have none to
forget. -/
def clearTypes (n : NodeId) : Eval Unit := do
  let node ← Eval.node n
  match node.kind with
  | .symbol _ | .merge _ => setTypes n []
  | .operation info => do
    let rejectedInputs ← newRow []
    modifyNode n fun node => { node with kind := .operation { info with rejectedInputs } }
    setTypes n []
  | .branch var _ => do
    let outTypes ← newRow []
    modifyNode n fun node => { node with kind := .branch var outTypes }
    setTypes n (← emptySides)
    setRejected n (← emptySides)
  | .base | .known _ => throw .missingProperty

def setFunction (n : NodeId) (func : Option String) : Eval Unit := do
  let info ← require (← Eval.node n).kind.operation? .missingProperty
  modifyNode n fun node => { node with kind := .operation { info with func } }

/-- Set what the two sides of a branch let through. A variable takes types with a tag only. -/
def setOutTypes (n : NodeId) (outTypes : RowId) : Eval Unit := do
  match (← Eval.node n).kind with
  | .branch var _ => modifyNode n fun node => { node with kind := .branch var outTypes }
  | .symbol _ => throw .wrongKind
  | _ => throw .missingProperty

/-- Take what is identical to some tested type out of a list of types. -/
def withoutTested (tested : List Entry) (types : List Entry) : Typing (List Entry) :=
  tested.foldlM
    (fun types e => do
      if e = .absent then return types
      match ← findSame e types with
      | some found => return types.erase found
      | none => return types)
    types

/-- What the two sides of a branch let through. -/
def testedTypes (kind : NodeKind) : Typing (List Entry) :=
  match kind with
  | .branch _ r => row r
  | _ => throw .missingProperty

/-- Rows for the sides of a branch. A side with a tested type gets that type, the other one what
remains, and there are two of them at least. -/
def splitSides (tested types : List Entry) : Typing (List Entry) := do
  let rest ← withoutTested tested types
  let sides ← tested.mapM fun e => do
    if e = .absent then return Entry.group (← newRow (← maximal rest))
    else return Entry.group (← newRow [e])
  let padding ← (List.range (2 - sides.length)).mapM fun _ => do
    return Entry.group (← newRow [])
  return sides ++ padding

/-- The sides of a branch, from the types of its input. -/
def sidesOf (node : Node) : Typing (List Entry) := do
  let tested ← testedTypes node.kind
  match node.ins with
  | [link] => do
    if node.outs.length ≠ 2 then
      throw (.rejectedValue "Branch node must have exactly two output nodes.")
    splitSides tested (← linkTypes link)
  | _ => throw (.rejectedValue "Branch node must have exactly one input node.")

def splitTypes (n : NodeId) : Eval Unit := do
  setTypes n (← sidesOf (← Eval.node n))

end TypeFlow.Eval
