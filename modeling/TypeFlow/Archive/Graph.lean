import TypeFlow.Archive.Node
import TypeFlow.Graph.Basic

/-! # Saved graphs

The graph of a function or a module as a record. Reading a graph back restores its nodes, edges
and indexes by symbol and operation; a record with known types in it, or with nodes collected in
a `try` body, is not accepted. -/

namespace TypeFlow

namespace Eval

def saveNodes (nodes : List NodeId) : Eval Document := do return .list (← nodes.mapM saveNode)

def saveIndex (t : Table String (List NodeId)) : Eval Document := do
  return .record (← t.entries.mapM fun (key, nodes) => do return (key, ← saveNodes nodes))

/-- Save the nodes of known types by the name of the type; the last one of a name stays. -/
def saveKnowns (t : Table TypeId NodeId) : Eval Document := do
  let saved ← t.entries.mapM fun (t, n) => do return ((← type t).name, ← saveNode n)
  return .record (Table.ofList saved).entries

/-- Save the buffers of loops, `try` bodies and handlers. -/
def saveBuffers (g : Graph) : Eval (List (String × Document)) := do
  let handlers ← g.exceptBuffer.mapM fun t => do
    return Document.record (← t.entries.mapM fun (key, n) => do return (key, ← saveNode n))
  return [
    ("inloop", .int g.loopDepth), ("loopbuffer", .list (← g.loopBuffer.mapM saveNodes)),
    ("trybuffer", .list (← g.tryBuffer.mapM saveIndex)), ("intry", .int g.tryDepth),
    ("exceptbuffer", .list handlers), ("inexcept", .int g.exceptDepth)]

def saveFunction (g : GraphId) : Eval Document := do
  let graph ← graph g
  let top ← Eval.graph (← topOf g)
  let buffers ← saveBuffers graph
  return .record <| [
    ("name", .text graph.name), ("filename", .text graph.fileName),
    ("nodes", ← saveNodes graph.nodes), ("symbolnodes", ← saveIndex graph.symbols),
    ("typegennodes", ← saveIndex graph.operations), ("typenodes", ← saveKnowns graph.knowns),
    ("branchnodes", ← saveNodes graph.branches), ("mergenodes", ← saveNodes graph.merges),
    ("classname", .ofText? graph.owner), ("globaltg", .text top.name),
    ("usertypes", .list graph.userNames), ("argnodes", ← saveNodes graph.arguments),
    ("returnvaluenodes", ← saveNodes graph.returns), ("startlineno", .int graph.startLine),
    ("nodeindex", .int graph.nextIndex)] ++ buffers

def saveClassTypes (t : Table (Option String) AttributeTypes) : Eval Document := do
  return .record (← t.entries.mapM fun (owner, attributes) => do
    let types ← attributes.types.entries.mapM fun (symbol, r) => do
      return (symbol, Document.list (← (← row r).mapM rawEntry))
    let orders := attributes.orders.entries.map fun (symbol, n) => (symbol, Document.int n)
    return (owner.getD "null", .record (("@id@", .record orders) :: types)))

def saveModule (g : GraphId) : Eval Document := do
  let graph ← graph g
  let functions ← graph.functions.mapM saveFunction
  let buffers ← saveBuffers graph
  return .record <| [
    ("name", .text graph.name), ("tgs", .list functions),
    ("globalsymbols", ← saveIndex graph.symbols),
    ("globaltypegennodes", ← saveIndex graph.operations),
    ("globaltypenodes", ← saveKnowns graph.knowns), ("globalnodes", ← saveNodes graph.nodes),
    ("globalbranchnodes", ← saveNodes graph.branches),
    ("globalmergenodes", ← saveNodes graph.merges), ("usertypes", .list graph.userNames),
    ("aliasgraph", graph.aliases.save), ("classtypes", ← saveClassTypes graph.classTypes),
    ("nodeindex", .int graph.nextIndex), ("callgraph", .null)] ++ buffers

def saveGraph (g : GraphId) : Eval Document := do
  if (← graph g).isModule then saveModule g else saveFunction g

end Eval

namespace Archive

/-- A graph read back. Nodes are positions in the list of nodes. -/
structure GraphRecord where
  name : Document
  userNames : Document
  nodes : Array NodeRecord := #[]
  symbols : List (String × List Nat) := []
  operations : List (String × List Nat) := []
  branches : List Nat := []
  merges : List Nat := []
  loopDepth : Document := .int 0
  loopBuffer : List (List Nat) := []
  tryDepth : Document := .int 0
  tryBuffer : List (List (String × Nat)) := []
  exceptDepth : Document := .int 0
  exceptBuffer : List (List (String × Nat)) := []
deriving Inhabited

structure FunctionRecord extends GraphRecord where
  fileName : Document
  owner : Document
  arguments : List Nat := []
  returns : List Nat := []
  startLine : Document := .int 0
deriving Inhabited

/-- The graph of a module read back. Aliases and the node counter start anew. -/
structure ModuleRecord extends GraphRecord where
  functions : List FunctionRecord := []
  classTypes : Document
  callGraph : Document
deriving Inhabited

/-- Positions of restored nodes by id; the last one of an id stands first. -/
abbrev IdMap := List (Document × Nat)

namespace GraphRecord

/-- Read the nodes of a graph back. `owner` says where a node belongs, given its record. -/
def loadNodes (saved : List Document) (owner : Document → Except Fault NodeOwner) :
    Except Fault (Array NodeRecord × IdMap) :=
  saved.foldlM
    (fun (nodes, ids) d => do
      let kind ← (← asKey (← d.field "nodetype")).asText
      match NodeRecord.load kind d with
      | none => .error .missingProperty
      | some n => do
        let key ← asKey (← d.field "nodeid")
        return (nodes.push { n with owner := ← owner d }, (key, nodes.size) :: ids))
    (#[], [])

/-- A node that takes no inputs from a record. -/
def isKnown (n : NodeRecord) : Bool :=
  match n.detail with
  | .known _ => true
  | _ => false

def loadEdges (ids : IdMap) (nodes : Array NodeRecord) (d : Document) :
    Except Fault (Array NodeRecord) := do
  let mut nodes := nodes
  let own := do lookupKey ids (← d.field "nodeid")
  for i in ← (← d.field "ins").parts do
    let o ← own
    if isKnown (nodes.getD o default) then throw .missingProperty
    let j ← lookupKey ids i
    nodes := nodes.modify o fun n => { n with ins := n.ins ++ [j] }
  for i in ← (← d.field "outs").parts do
    let o ← own
    let j ← lookupKey ids i
    nodes := nodes.modify o fun n => { n with outs := n.outs ++ [j] }
  return nodes

/-- Read references to nodes back. -/
def loadRefs (ids : IdMap) (d : Document) : Except Fault (List Nat) := do
  (← d.parts).mapM fun n => do lookupKey ids (← n.field "nodeid")

def loadIndex (ids : IdMap) (d : Document) : Except Fault (List (String × List Nat)) := do
  (← d.parts).mapM fun key => do
    let name ← key.asText
    return (name, ← loadRefs ids (← d.field name))

/-- An index of known types is only accepted when all its entries are empty. -/
def checkKnowns (d : Document) : Except Fault Unit := do
  for key in ← d.parts do
    if 0 < (← (← d.field (← key.asText)).length) then throw .missingKey

/-- Read a buffer that holds one node for each symbol back. -/
def loadBuffer (ids : IdMap) (d : Document) : Except Fault (List (List (String × Nat))) := do
  (← d.parts).mapM fun t => do
    (← t.parts).mapM fun key => do
      let name ← key.asText
      return (name, ← lookupKey ids (← (← t.field name).field "nodeid"))

/-- The names under which a record keeps the parts of a graph. -/
structure Layout where
  nodes : String
  symbols : String
  operations : String
  knowns : String
  branches : String
  merges : String

def functionLayout : Layout :=
  ⟨"nodes", "symbolnodes", "typegennodes", "typenodes", "branchnodes", "mergenodes"⟩

def moduleLayout : Layout :=
  ⟨"globalnodes", "globalsymbols", "globaltypegennodes", "globaltypenodes", "globalbranchnodes",
    "globalmergenodes"⟩

/-- Read the parts of a graph back that functions and modules share. -/
def load (layout : Layout) (d : Document) (owner : Document → Except Fault NodeOwner) :
    Except Fault (GraphRecord × IdMap) := do
  let name ← d.field "name"
  let userNames ← d.field "usertypes"
  let saved ← (← d.field layout.nodes).parts
  let (nodes, ids) ← loadNodes saved owner
  let nodes ← saved.foldlM (loadEdges ids) nodes
  let symbols ← loadIndex ids (← d.field layout.symbols)
  let operations ← loadIndex ids (← d.field layout.operations)
  checkKnowns (← d.field layout.knowns)
  let branches ← loadRefs ids (← d.field layout.branches)
  let merges ← loadRefs ids (← d.field layout.merges)
  let loopBuffer ← (← (← d.field "loopbuffer").parts).mapM (loadRefs ids)
  let tryBuffer ← loadBuffer ids (← d.field "trybuffer")
  let exceptBuffer ← loadBuffer ids (← d.field "exceptbuffer")
  return (
    { name, userNames, nodes, symbols, operations, branches, merges, loopBuffer, tryBuffer
      exceptBuffer, loopDepth := ← d.field "inloop", tryDepth := ← d.field "intry"
      exceptDepth := ← d.field "inexcept" }, ids)

/-- The name of a graph and the sizes of its indexes. -/
def describe (g : GraphRecord) : Document :=
  .list [g.name, .int g.symbols.length, .int g.operations.length, .int 0]

def idAt (g : GraphRecord) (i : Nat) : Document := (g.nodes.getD i default).id

/-- Save the node at a position. `top` describes the graph of the module. -/
def saveNode (g : GraphRecord) (top : Document) (i : Nat) : Document :=
  (g.nodes.getD i default).save g.idAt fun
    | .nobody => .null
    | .graph => g.describe
    | .module => top

def saveRefs (g : GraphRecord) (top : Document) (l : List Nat) : Document :=
  .list (l.map (g.saveNode top))

def saveIndex (g : GraphRecord) (top : Document) (l : List (String × List Nat)) : Document :=
  .record (l.map fun (key, nodes) => (key, g.saveRefs top nodes))

/-- Save a buffer that holds one node for each symbol. -/
def saveBuffer (g : GraphRecord) (top : Document) (l : List (List (String × Nat))) : Document :=
  .list (l.map fun t => .record (t.map fun (key, i) => (key, g.saveNode top i)))

/-- Save the parts that functions and modules share. -/
def save (g : GraphRecord) (layout : Layout) (top : Document) : List (String × Document) :=
  [("name", g.name), ("usertypes", g.userNames),
    (layout.nodes, g.saveRefs top (List.range g.nodes.size)),
    (layout.symbols, g.saveIndex top g.symbols),
    (layout.operations, g.saveIndex top g.operations), (layout.knowns, .record []),
    (layout.branches, g.saveRefs top g.branches), (layout.merges, g.saveRefs top g.merges),
    ("inloop", g.loopDepth), ("loopbuffer", .list (g.loopBuffer.map (g.saveRefs top))),
    ("trybuffer", g.saveBuffer top g.tryBuffer), ("intry", g.tryDepth),
    ("exceptbuffer", g.saveBuffer top g.exceptBuffer), ("inexcept", g.exceptDepth)]

end GraphRecord

namespace FunctionRecord

/-- Fields that a saved function has to have. -/
def keys : List String :=
  ["name", "tgs", "symbolnodes", "typegennodes", "typenodes", "nodes", "branchnodes",
    "mergenodes", "inloop", "loopbuffer", "trybuffer", "intry", "exceptbuffer", "inexcept",
    "usertypes", "argnodes", "returnvaluenodes", "startlineno", "nodeindex"]

def ownerOf (d : Document) (inModule : Bool) : Except Fault NodeOwner := do
  let owner ← (← d.field "tg").item 0
  if owner == (← d.field "name") then return .graph
  else return if inModule then .module else .nobody

def loadFields (d : Document) (inModule : Bool) : Except Fault FunctionRecord := do
  let fileName ← d.field "filename"
  let owner ← d.field "classname"
  let (g, ids) ← GraphRecord.load GraphRecord.functionLayout d fun _ => ownerOf d inModule
  return { g with
    fileName, owner
    arguments := ← GraphRecord.loadRefs ids (← d.field "argnodes")
    returns := ← GraphRecord.loadRefs ids (← d.field "returnvaluenodes")
    startLine := ← d.field "startlineno" }

/-- Read a function back, if its record fits. -/
def load (d : Document) (inModule : Bool) : Option FunctionRecord :=
  if hasFields d keys then (loadFields d inModule).toOption else none

def save (f : FunctionRecord) (topName top : Document) : Document :=
  let g := f.toGraphRecord
  .record <| g.save GraphRecord.functionLayout top ++ [
    ("filename", f.fileName), ("classname", f.owner), ("globaltg", topName),
    ("argnodes", g.saveRefs top f.arguments), ("returnvaluenodes", g.saveRefs top f.returns),
    ("startlineno", f.startLine), ("nodeindex", .int 0)]

end FunctionRecord

namespace ModuleRecord

/-- Fields that a saved module has to have. -/
def keys : List String :=
  ["name", "tgs", "globalsymbols", "globaltypegennodes", "globaltypenodes", "globalnodes",
    "globalbranchnodes", "globalmergenodes", "inloop", "loopbuffer", "trybuffer", "intry",
    "exceptbuffer", "inexcept", "usertypes", "aliasgraph", "classtypes", "nodeindex", "callgraph"]

/-- Where a node of a module belongs: a node of another graph has to name it. -/
def ownerOf (name d : Document) : Except Fault NodeOwner := do
  let owner ← (← d.field "tg").item 0
  if owner == name then return .graph
  let _ ← owner.asText
  let _ ← (← d.field "name").asText
  return .nobody

def loadFields (d : Document) : Except Fault ModuleRecord := do
  let name ← d.field "name"
  let (g, _) ← GraphRecord.load GraphRecord.moduleLayout d (ownerOf name)
  let functions ← (← (← d.field "tgs").parts).mapM fun t =>
    match FunctionRecord.load t true with
    | some f => .ok f
    | none => .error .missingProperty
  return { g with
    functions, classTypes := ← d.field "classtypes", callGraph := ← d.field "callgraph" }

/-- Read a module back, if its record fits. -/
def load (d : Document) : Option ModuleRecord :=
  if hasFields d keys then (loadFields d).toOption else none

def save (m : ModuleRecord) : Document :=
  let g := m.toGraphRecord
  let top := g.describe
  .record <| g.save GraphRecord.moduleLayout top ++ [
    ("tgs", .list (m.functions.map (·.save g.name top))),
    ("aliasgraph", ({} : Alias.Graph).save), ("classtypes", m.classTypes),
    ("nodeindex", .int 0), ("callgraph", m.callGraph)]

end ModuleRecord
end Archive
end TypeFlow
