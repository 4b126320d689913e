import TypeFlow.Graph.Basic
import TypeFlow.Program.Stmt

/-! # Walking a program

While a program is read, its graphs grow. The walk keeps for each scope how often every variable
occurred and which node holds its current value, and it keeps the operations whose operands are
still being read. -/

namespace TypeFlow

/-- The variables of one scope: the number of the last occurrence of each, and the node that
holds its current value. -/
structure Variables where
  counts : Table String Nat := {}
  latest : Table String Link := {}
deriving Repr, Inhabited

structure FunctionFrame where
  name : String
  graph : GraphId
  vars : Variables := {}
deriving Repr, Inhabited

/-- A class that is being read, with the variables for its attributes. -/
structure ClassFrame where
  name : String
  vars : Variables := {}
deriving Repr, Inhabited

/-- The scopes that hold variables: the module, the innermost function and the innermost
class. -/
inductive Tier where
  | module
  | function
  | class_
deriving DecidableEq, Repr, Inhabited

/-- The state of a walk. Stacks have their innermost member first. -/
structure Walk where
  top : GraphId
  fileName : String
  userNames : List Document := []
  /-- The functions to read; all of them when there is no list. -/
  locations : Option (List Document) := none
  globals : Variables := {}
  functions : List FunctionFrame := []
  classes : List ClassFrame := []
  /-- Operations whose operands are being read. -/
  pending : List NodeId := []
  modules : List String := []
  classNames : List String := []
  visited : List String := []
  contextNames : List (List String) := []
  /-- Positions of the `with` statements that are being read. -/
  contextPositions : List Position := []
  /-- The value of the next expression is not used. -/
  unused : Bool := false
  /-- The next subscript belongs to the target of an assignment. -/
  subscriptWrite : Bool := false
  /-- An augmented assignment reads its operands. -/
  augmented : Bool := false
  binding : Bool := false
deriving Inhabited

abbrev Build := StateT Walk Eval

namespace Build

/-! ## Variables -/

/-- The variables of a scope, if there is one. -/
def vars? (t : Tier) (w : Walk) : Option Variables :=
  match t with
  | .module => some w.globals
  | .function => w.functions.head?.map (·.vars)
  | .class_ => w.classes.head?.map (·.vars)

def withVariables (t : Tier) (v : Variables) (w : Walk) : Walk :=
  match t with
  | .module => { w with globals := v }
  | .function => { w with functions := w.functions.modifyHead ({ · with vars := v }) }
  | .class_ => { w with classes := w.classes.modifyHead ({ · with vars := v }) }

def vars (t : Tier) : Build Variables := do
  match vars? t (← get) with
  | some v => return v
  | none => throw .outOfRange

def setVariables (t : Tier) (v : Variables) : Build Unit := modify (withVariables t v)

def inFunction : Build Bool := return !(← get).functions.isEmpty

def inClass : Build Bool := return !(← get).classes.isEmpty

/-- Neither a function nor a class is being read. -/
def atTop : Build Bool := return (← get).functions.isEmpty && (← get).classes.isEmpty

/-- The number of the last occurrence of a variable. -/
def count? (t : Tier) (key : String) : Build (Option Nat) := return (← vars t).counts.get? key

/-- A variable has occurred in a scope that is being read. -/
def occurs (t : Tier) (key : String) : Build Bool := do
  match vars? t (← get) with
  | some v => return v.counts.contains key
  | none => return false

/-- A variable has a current node in a scope that is being read. -/
def isCurrent (t : Tier) (key : String) : Build Bool := do
  match vars? t (← get) with
  | some v => return v.latest.contains key
  | none => return false

/-- The current node of a variable that has to have one. -/
def latest (t : Tier) (key : String) : Build Link := do
  match (← vars t).latest.get? key with
  | some link => return link
  | none => throw .missingKey

/-- Make a node the current one of a variable. -/
def setLatest (t : Tier) (key : String) (link : Link) : Build Unit := do
  let v ← vars t
  setVariables t { v with latest := v.latest.insert key link }

/-- Set the number of the last occurrence of a variable. -/
def setCount (t : Tier) (key : String) (n : Nat) : Build Unit := do
  let v ← vars t
  setVariables t { v with counts := v.counts.insert key n }

/-- Number one more occurrence of a variable that has occurred. -/
def again (t : Tier) (key : String) : Build Nat := do
  match ← count? t key with
  | some n => do
    setCount t key (n + 1)
    return n + 1
  | none => throw .missingKey

/-- Number an occurrence of a variable, from 0 on. -/
def next (t : Tier) (key : String) : Build Nat := do
  match ← count? t key with
  | some _ => again t key
  | none => do
    setCount t key 0
    return 0

def forgetCount (t : Tier) (key : String) : Build Unit := do
  let v ← vars t
  if !v.counts.contains key then throw .missingKey
  setVariables t { v with counts := v.counts.erase key }

/-- Forget the current node of a variable. -/
def forgetLatest (t : Tier) (key : String) : Build Unit := do
  let v ← vars t
  if !v.latest.contains key then throw .missingKey
  setVariables t { v with latest := v.latest.erase key }

def forget (t : Tier) (key : String) : Build Unit := do
  forgetCount t key
  forgetLatest t key

/-- Forget the current nodes of all attributes and of all variables of the module. -/
def clearLatest : Build Unit := do
  let clear (v : Variables) : Variables := { v with latest := v.latest.map fun _ => none }
  for t in [Tier.class_, .module] do
    match vars? t (← get) with
    | some v => setVariables t (clear v)
    | none => pure ()

/-! ## Nodes -/

def graphAtHand : Build GraphId := do
  match (← get).functions with
  | f :: _ => return f.graph
  | [] => return (← get).top

def addToModule (n : NodeId) : Build Unit := do Eval.addNode (← get).top n

/-- Add a node to the graph of the function that is being read. -/
def addToFunction (n : NodeId) : Build Unit := do
  match (← get).functions with
  | f :: _ => Eval.addNode f.graph n
  | [] => pure ()

/-- Add a node to the graph at hand. Nodes of a class body belong to no graph. -/
def addNode (n : NodeId) : Build Unit := do
  match (← get).functions, (← get).classes with
  | f :: _, _ => Eval.addNode f.graph n
  | [], [] => addToModule n
  | [], _ :: _ => pure ()

def operation : Build NodeId := do
  match (← get).pending with
  | n :: _ => return n
  | [] => throw .outOfRange

/-- The operation that takes an operand, unless the operand is not used. -/
def consumer (unused : Bool) : Build (Option NodeId) := do
  if unused then return none else return (← get).pending.head?

def reading (n : NodeId) (operands : Build Unit) : Build Unit := do
  modify fun w => { w with pending := n :: w.pending }
  operands
  modify fun w => { w with pending := w.pending.tail }

/-- Give a node to the operation at hand as an operand. -/
def feed (n : NodeId) (unused : Bool := false) : Build Unit := do
  match ← consumer unused with
  | some target => Eval.connect n target
  | none => pure ()

def newOperation (op : String) (pos : Position) (attr : Option String := none)
    (splitIndex : Int := 0) : Build NodeId := do
  let n ← Eval.newOperation op none attr splitIndex
  Eval.setPosition n pos
  return n

def place (n : NodeId) (ins outs : List Link) (pos : Position) : Build Unit :=
  Eval.modifyNode n fun node => { node with ins, outs, position := pos }

/-- Make a node for a known type that is an output of nothing and an input of some node. -/
def newKnown (name : String) (category : Category) (target : NodeId) (pos : Position) :
    Build NodeId := do
  let n ← Eval.newKnown (.type (← Eval.newType name category))
  place n [] [some target] pos
  return n

/-- Make an occurrence of a variable that takes its types from some nodes and is an operand of
the operation at hand. -/
def newRead (info : SymbolInfo) (sources : List Link) (unused : Bool) (pos : Position) :
    Build NodeId := do
  let target ← consumer unused
  let n ← Eval.newSymbol info
  place n sources (target.toList.map some) pos
  for source in sources do
    match source with
    | some s => Eval.addOutput s (some n)
    | none => pure ()
  match target with
  | some t => Eval.addInput t (some n)
  | none => pure ()
  return n

/-- Make an occurrence of a variable that takes the result of the operation at hand. -/
def newWrite (info : SymbolInfo) (pos : Position) : Build NodeId := do
  let source ← operation
  let n ← Eval.newSymbol { info with context := "Write" }
  place n [some source] [] pos
  Eval.addOutput source (some n)
  return n

/-! ## Flags -/

/-- Whether the value of the expression at hand is not used. Its parts are used. -/
def takeUnused : Build Bool := modifyGet fun w => (w.unused, { w with unused := false })

/-- Read an expression for its effects. -/
def unusedValue (act : Build Unit) : Build Unit := do
  modify fun w => { w with unused := true }
  act
  modify fun w => { w with unused := false }

/-! ## Merges -/

/-- How a node is called in the name of a merge. -/
def mergePart : Link → Build String
  | none => throw .missingProperty
  | some n => do
    let node ← Eval.node n
    match node.kind with
    | .symbol info =>
      match info.scope with
      | "local" => return info.symbol ++ toString info.order
      | "attribute" =>
        return info.owner.getD "None" ++ "." ++ info.symbol ++ toString info.order
      | _ => return ""
    | .merge var => return "(" ++ var ++ ")"
    | .branch var _ => return "(branch " ++ var.getD "None" ++ " )"
    | _ => return node.name

def mergeName (links : List Link) : Build String := do
  return Text.join ", " (← links.mapM mergePart)

def newMerge (links : List Link) : Build NodeId := do
  let m ← Eval.newMerge (← mergeName links)
  Eval.modifyNode m fun node => { node with ins := links }
  for link in links do
    match link with
    | some n => Eval.addOutput n (some m)
    | none => throw .missingProperty
  return m

end Build
end TypeFlow
