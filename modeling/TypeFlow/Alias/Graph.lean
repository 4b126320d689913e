import TypeFlow.Text.Basic

/-! # Alias graphs

Attribute chains such as `self.a.b` form a forest: one root for each first component and scope,
one child for each further component. Assignments between chains add symmetric alias links. -/

namespace TypeFlow.Alias

/-- One component of an attribute chain. Neighbours are positions in the graph's node list. -/
structure Node where
  name : String
  scope : String
  kind : String
  parents : List Nat
  children : List Nat := []
  aliases : List Nat := []
  id : Int
deriving DecidableEq, Repr, Inhabited

/-- All components seen so far, and the first components among them. -/
structure Graph where
  nodes : Array Node := #[]
  roots : List Nat := []
deriving DecidableEq, Repr, Inhabited

namespace Graph

def node (g : Graph) (i : Nat) : Node := g.nodes.getD i default

/-- Append a node; one without parent becomes a root. -/
def addNode (g : Graph) (name scope : String) (parents : List Nat) : Graph × Nat :=
  let i := g.nodes.size
  let g' : Graph :=
    { nodes := g.nodes.push ⟨name, scope, "attr", parents, [], [], i + 1⟩
      roots := if parents.isEmpty then g.roots ++ [i] else g.roots }
  (g', i)

def addChild (g : Graph) (p : Nat) (name scope : String) : Graph × Nat :=
  let (g, i) := g.addNode name scope [p]
  ({ g with nodes := g.nodes.modify p fun n => { n with children := n.children ++ [i] } }, i)

/-- Append a chain of children, one for each name. -/
def addChain (g : Graph) (p : Nat) (scope : String) : List String → Graph × Nat
  | [] => (g, p)
  | name :: rest =>
    let (g, i) := g.addChild p name scope
    g.addChain i scope rest

def child? (g : Graph) (p : Nat) (name scope : String) : Option Nat :=
  (g.node p).children.find? fun c => (g.node c).name == name && (g.node c).scope == scope

/-- Walk down as far as the names lead; the rest of the names is left over. -/
def descend (g : Graph) (scope : String) (p : Nat) : List String → Nat × List String
  | [] => (p, [])
  | name :: rest =>
    match g.child? p name scope with
    | some c => g.descend scope c rest
    | none => (p, name :: rest)

def components (name : String) : List String := Text.split name "_@_"

/-- Find the node of a chain. Roots are tried in order until one carries the whole chain. -/
def search (g : Graph) (name scope : String) : Option Nat :=
  match components name with
  | [] => none
  | first :: rest =>
    (g.roots.filter fun r => (g.node r).name == first && (g.node r).scope == scope).findSome?
      fun r =>
        match g.descend scope r rest with
        | (p, []) => some p
        | _ => none

/-- Names of the instance and of the class inside a method. -/
def isReceiver (name : String) : Bool := name == "self" || name == "cls"

def classScope (scope : String) : String := Text.firstPiece scope "@"

/-- Find the node of a chain, or extend the graph with what is missing of it. Chains that start
at the receiver of a method belong to the class. -/
def addAttribute (g : Graph) (name scope : String) : Graph × Nat :=
  match components name with
  | [] => (g, 0)
  | first :: rest =>
    let own := classScope scope
    let root := g.roots.find? fun r =>
      let n := g.node r
      (isReceiver first && n.name == first && n.scope == own) ||
        (n.name == first && n.scope == scope)
    match root with
    | some r =>
      let within :=
        if isReceiver first && (g.node r).scope == own then own else scope
      let (p, missing) := g.descend within r rest
      g.addChain p within missing
    | none =>
      let (g, r) :=
        if isReceiver first then g.addNode "self" own [] else g.addNode first scope []
      g.addChain r scope rest

/-- Add an alias link from one node to another. -/
def addAlias (g : Graph) (i j : Nat) : Graph :=
  { g with nodes := g.nodes.modify i fun n => { n with aliases := n.aliases ++ [j] } }

/-- Number of different nodes that are an alias of some node. -/
def aliasCount (g : Graph) : Nat :=
  (g.nodes.toList.flatMap (·.aliases)).eraseDups.length

def usage (g : Graph) (name scope : String) : Option (List String) :=
  (g.search name scope).map fun i =>
    let n := g.node i
    n.children.map (fun c => (g.node c).name) ++ n.aliases.map fun a => (g.node a).name

end Graph
end TypeFlow.Alias
