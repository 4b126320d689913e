import TypeFlow.Build.Operation
import TypeFlow.Vocabulary.Signature

/-! # Calls and subscripts

A method that changes its receiver, and an assignment to an element, both make a new occurrence
of the variable that holds the container. -/

namespace TypeFlow.Build

open Program

def firstInput (op : NodeId) : Build Link := do
  match (← Eval.node op).ins with
  | link :: _ => return link
  | [] => throw .outOfRange

/-- The variable at a node, if it is an occurrence of one, and its position. -/
def symbolAt (link : Link) : Build (Option (SymbolInfo × Position)) := do
  match link with
  | none => return none
  | some n => do
    let node ← Eval.node n
    return node.kind.symbol?.map fun info => (info, node.position)

/-- Make the occurrence of a variable after an operation changed its value. -/
def newResult (info : SymbolInfo) (op : NodeId) (pos : Position) : Build NodeId := do
  let n ← Eval.newSymbol { info with context := "Write" }
  place n [some op] [] pos
  Eval.addOutput op (some n)
  return n

/-- The variable whose value a method call changed. -/
def changeReceiver (op : NodeId) (info : SymbolInfo) (pos : Position) : Build Unit := do
  let changed (order : Nat) : Build NodeId :=
    newResult { symbol := info.symbol, order, owner := info.owner, scope := info.scope } op pos
  let n ← if ← inFunction then do
      let n ← changed (← next .function info.symbol)
      setLatest .function info.symbol (some n)
      pure n
    else if ← occurs .module info.symbol then do
      let n ← changed (← again .module info.symbol)
      setLatest .module info.symbol (some n)
      pure n
    else changed 0
  addNode n

/-- Set the function that an operation calls, and the object it is called on. -/
def setCallee (op : NodeId) (func : String) (attr : Option String := none) : Build Unit :=
  Eval.modifyNode op fun node =>
    { node with kind := match node.kind with
        | .operation info => .operation { info with func := some func, attr }
        | other => other }

/-- The callee and the arguments of a call. Calls of anything but names and attributes have no
operands. -/
def visitCallee (op : NodeId) (func : Expr) (receiver arguments : Build Unit) : Build Unit := do
  match func with
  | .name _ id _ => do
    setCallee op id
    arguments
  | .attribute _ value attr _ => do
    let path ← pathOf func
    if 1 < Expr.attributeCount path then
      setCallee op path
      arguments
    else
      setCallee op attr
      receiver
      setCallee op attr (some (← pathOf value))
      arguments
      if attr ∈ Vocabulary.changingMethods then
        match ← symbolAt (← firstInput op) with
        | some (info, pos) => changeReceiver op info pos
        | none => pure ()
  | _ => pure ()

def visitCall (func : Expr) (pos : Position) (receiver arguments : Build Unit) : Build Unit := do
  let unused ← takeUnused
  let op ← newOperation "call" pos
  reading op (visitCallee op func receiver arguments)
  feed op unused
  addNode op

def findOperation (op : String) (pos : Position) : Build (Option NodeId) := do
  let w ← get
  if w.functions.isEmpty && !w.classes.isEmpty then return none
  let nodes := (← Eval.graph (← graphAtHand)).nodes
  nodes.findM? fun n => do
    let node ← Eval.node n
    return node.position == pos && node.kind.operation?.any (·.op == op)

/-- The variable whose element an assignment changed. -/
def changeContainer (op : NodeId) (info : SymbolInfo) (pos : Position) : Build Unit := do
  let changed (order : Nat) : Build NodeId :=
    newResult { symbol := info.symbol, order, owner := info.owner, scope := info.scope } op pos
  let tier : Option Tier ←
    if ← occurs .module info.symbol then pure (some .module)
    else if ← occurs .function info.symbol then pure (some .function)
    else if ← occurs .class_ info.symbol then pure (some .class_)
    else pure none
  let n ← match tier with
    | some t => do
      let n ← changed (← again t info.symbol)
      setLatest t info.symbol (some n)
      pure n
    | none => changed 0
  addNode n

/-- The receiver, of which an assignment changed an element. -/
def changeSelf (op : NodeId) (pos : Position) : Build Unit := do
  let w ← get
  match w.classes, w.functions with
  | c :: _, f :: _ => do
    let order ← next .class_ "self"
    let info : SymbolInfo := { symbol := "self", order, owner := some c.name, scope := f.name }
    let n ← newResult info op pos
    setLatest .class_ "self" (some n)
    addNode n
  | _, _ => throw .outOfRange

/-- The position of the node at the end of an edge. -/
def positionAt : Link → Build Position
  | some n => return (← Eval.node n).position
  | none => throw .missingProperty

/-- The container of an element that is assigned to. A subscript inside a target has been read
before. -/
def visitContainer (op : NodeId) (nested : Bool) (value : Expr) (visitValue : Build Unit) :
    Build Unit := do
  match nested, value with
  | true, .subscript pos _ _ _ => do
    match ← findOperation "Subscript_Read" pos with
    | some before => do
      Eval.addInput op (some before)
      Eval.addOutput before (some op)
    | none => pure ()
  | _, _ => visitValue

def writeElement (value : Expr) (pos : Position) (unused nested : Bool)
    (visitValue visitIndex : Build Unit) : Build Unit := do
  let op ← newOperation "Subscript_Write" pos
  reading op do
    visitContainer op nested value visitValue
    visitIndex
  let first ← firstInput op
  match ← symbolAt first with
  | some (info, p) => changeContainer op info p
  | none =>
    if value.name? = some "self" then changeSelf op (← positionAt first)
    else
      reading op do
        modify fun w => { w with subscriptWrite := true }
        visitValue
      modify fun w => { w with subscriptWrite := false }
  match ← consumer unused with
  | some source => do
    Eval.addInput op (some source)
    Eval.addOutput source (some op)
  | none => pure ()
  addNode op

def readElement (pos : Position) (unused : Bool) (visitValue visitIndex : Build Unit) :
    Build Unit := do
  let op ← newOperation "Subscript_Read" pos
  reading op do
    visitValue
    visitIndex
  feed op unused
  addNode op

def visitSubscript (value : Expr) (access : Access) (pos : Position)
    (visitValue visitIndex : Build Unit) : Build Unit := do
  let unused ← takeUnused
  let nested ← modifyGet fun (w : Walk) => (w.subscriptWrite, { w with subscriptWrite := false })
  let augmented := (← get).augmented
  if (access = .store || nested) && !augmented then
    writeElement value pos unused nested visitValue visitIndex
  else if access = .load || augmented then readElement pos unused visitValue visitIndex

end TypeFlow.Build
