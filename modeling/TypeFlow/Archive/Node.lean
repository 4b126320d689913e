import TypeFlow.Archive.Alias
import TypeFlow.Archive.Type
import TypeFlow.Node.Types

/-! # Saved nodes

A node is saved as a record of its fields, with its neighbours given by id. Reading a record back
restores the fields; whatever they hold is kept. -/

namespace TypeFlow

namespace Eval

/-- An entry as it stands, types not spelled out. -/
def rawEntryTo : Nat → Entry → Eval Document
  | _, .type t => return .type t
  | _, .text s => return .text s
  | _, .absent => return .null
  | 0, .group _ => throw .tooDeep
  | n + 1, .group r => do return .list (← (← row r).mapM (rawEntryTo n))

/-- An entry as it stands. -/
def rawEntry (e : Entry) : Eval Document := do rawEntryTo (← get).depth e

/-- Save an entry; only types are spelled out. -/
def saveEntry (e : Entry) : Eval Document :=
  match e with
  | .type _ => saveType e
  | _ => rawEntry e

/-- Save all entries of a row; only types are spelled out. -/
def saveRow (r : RowId) : Eval Document := do return .list (← (← row r).mapM saveEntry)

/-- Save a row of which all entries have to be types. -/
def saveTypes (r : RowId) : Eval Document := do return .list (← (← row r).mapM saveType)

def sideEntries (sides : RowId) (i : Nat) : Eval (List Entry) := do
  match (← row sides)[i]? with
  | some (.group r) => row r
  | some _ => throw .wrongKind
  | none => throw .outOfRange

def saveSides (sides : RowId) : Eval Document := do
  let left ← (← sideEntries sides 0).mapM saveType
  let right ← (← sideEntries sides 1).mapM saveType
  return .list [.list left, .list right]

def saveLinks (links : List Link) : Eval Document := do
  return .list (← links.mapM fun link => do
    return .text (← node (← require link .missingProperty)).id)

/-- The name of a node's graph and the sizes of its indexes. -/
def saveOwner (g : Option GraphId) : Eval Document := do
  match g with
  | none => return .null
  | some g => do
    let graph ← graph g
    return .list [.text graph.name, .int graph.symbols.size, .int graph.operations.size,
      .int graph.knowns.size]

/-- Save the fields that a kind of node has beyond those of every node. -/
def saveDetail (n : Node) : Eval (List (String × Document)) := do
  match n.kind with
  | .base => throw .missingProperty
  | .symbol info => return [
      ("rejtypes", ← saveRow n.rejected),
      ("extra", .bool info.extra), ("scope", .text info.scope), ("symbol", .text info.symbol),
      ("classname", .ofText? info.owner), ("order", .int info.order),
      ("types", ← saveRow n.types), ("ctx", .text info.context), ("tag", .int n.tag),
      ("change", .bool info.changed)]
  | .operation info => return [
      ("rejtypes", ← saveRow n.rejected),
      ("op", .text info.op), ("func", .ofText? info.func), ("attr", .ofText? info.attr),
      ("types", ← saveRow n.types), ("splitindex", .int info.splitIndex),
      ("rejinputtypes", ← saveRow info.rejectedInputs)]
  | .known t => return [
      ("type", ← saveType (.type t)), ("types", ← saveTypes n.types),
      ("rejtypes", ← saveTypes n.rejected)]
  | .branch var outTypes => do
    let tested ← (← row outTypes).mapM fun e => do
      if e = .absent then return Document.null else saveType e
    return [
      ("branchvar", .ofText? var), ("outtypes", .list tested),
      ("types", ← saveSides n.types), ("rejtypes", ← saveSides n.rejected)]
  | .merge var => return [
      ("rejtypes", ← saveRow n.rejected),
      ("mergevar", .text var), ("types", ← saveTypes n.types)]

def saveNode (n : NodeId) : Eval Document := do
  let node ← Eval.node n
  let ins ← saveLinks node.ins
  let outs ← saveLinks node.outs
  let owner ← saveOwner node.graph
  let detail ← saveDetail node
  return .record <| [
    ("ins", ins), ("outs", outs), ("name", .text node.name),
    ("lineno", .int node.position.line), ("columnno", .int node.position.column),
    ("columnend", .int node.position.columnEnd), ("tg", owner), ("nodeid", .text node.id),
    ("visitlabel", .int node.label), ("nodetype", .text node.kind.name)] ++ detail

end Eval

namespace Archive

/-- What a saved node holds beyond the fields of every node. -/
inductive NodeDetail where
  | symbol (extra scope symbol owner order context tag changed : Document)
  | operation (op func attr splitIndex : Document) (rejectedInputs : List TypeRecord)
  | known (type : TypeRecord)
  | branch (var : Document) (outTypes : List (Option TypeRecord))
      (left right leftRejected rightRejected : List TypeRecord)
  | merge (var : Document)
deriving Inhabited

/-- The graph that a restored node belongs to. -/
inductive NodeOwner where
  | nobody
  | graph
  | module
deriving DecidableEq, Inhabited

/-- A node read back from its record. Neighbours are positions in the graph's list. -/
structure NodeRecord where
  kind : Document
  name : Document
  line : Document
  column : Document
  columnEnd : Document
  label : Document
  id : Document
  types : List TypeRecord := []
  rejected : List TypeRecord := []
  detail : NodeDetail
  ins : List Nat := []
  outs : List Nat := []
  owner : NodeOwner := .nobody
deriving Inhabited

namespace NodeRecord

def loadTypes (d : Document) : Except Fault (List TypeRecord) := do
  (← d.parts).mapM TypeRecord.load

/-- Read the types of one side of a branch back. -/
def loadSide (d : Document) (i : Nat) : Except Fault (List TypeRecord) := do
  loadTypes (← d.item i)

/-- Fields that every saved node has. -/
def commonKeys : List String :=
  ["nodetype", "ins", "outs", "name", "lineno", "columnno", "columnend", "tg", "rejtypes",
    "visitlabel", "types", "nodeid"]

/-- The fields that every node has, around the detail and types of its kind. -/
def loadWith (d : Document) (types rejected : List TypeRecord) (detail : NodeDetail) :
    Except Fault NodeRecord := do
  return {
    kind := ← d.field "nodetype", name := ← d.field "name", line := ← d.field "lineno"
    column := ← d.field "columnno", columnEnd := ← d.field "columnend"
    label := ← d.field "visitlabel", id := ← d.field "nodeid", types, rejected, detail }

/-- Fields that a saved variable has to have. -/
def symbolKeys : List String :=
  ["extra", "scope", "symbol", "classname", "order", "ctx", "tag", "change"]

/-- Read a variable back. Its rejected types are not restored. -/
def loadSymbol (d : Document) : Except Fault NodeRecord := do
  let detail : NodeDetail := .symbol (← d.field "extra") (← d.field "scope") (← d.field "symbol")
    (← d.field "classname") (← d.field "order") (← d.field "ctx") (← d.field "tag")
    (← d.field "change")
  loadWith d (← loadTypes (← d.field "types")) [] detail

def loadOperation (d : Document) : Except Fault NodeRecord := do
  let detail : NodeDetail := .operation (← d.field "op") (← d.field "func") (← d.field "attr")
    (← d.field "splitindex") (← loadTypes (← d.field "rejinputtypes"))
  loadWith d (← loadTypes (← d.field "types")) (← loadTypes (← d.field "rejtypes")) detail

/-- Read a known type back. -/
def loadKnown (d : Document) : Except Fault NodeRecord := do
  let detail : NodeDetail := .known (← TypeRecord.load (← d.field "type"))
  loadWith d (← loadTypes (← d.field "types")) (← loadTypes (← d.field "rejtypes")) detail

def loadBranch (d : Document) : Except Fault NodeRecord := do
  let types ← d.field "types"
  let rejected ← d.field "rejtypes"
  let outTypes ← (← (← d.field "outtypes").parts).mapM fun
    | .null => .ok none
    | t => do return some (← TypeRecord.load t)
  let detail : NodeDetail := .branch (← d.field "branchvar") outTypes (← loadSide types 0)
    (← loadSide types 1) (← loadSide rejected 0) (← loadSide rejected 1)
  loadWith d [] [] detail

def loadMerge (d : Document) : Except Fault NodeRecord := do
  loadWith d (← loadTypes (← d.field "types")) (← loadTypes (← d.field "rejtypes"))
    (.merge (← d.field "mergevar"))

/-- Read a node of a kind back. Nothing comes of a record that lacks a field or holds something
that does not fit. -/
def load (kind : String) (d : Document) : Option NodeRecord :=
  if !hasFields d commonKeys then none
  else
    match kind with
    | "Symbol" => if hasFields d symbolKeys then (loadSymbol d).toOption else none
    | "TypeGen" => (loadOperation d).toOption
    | "Type" => (loadKnown d).toOption
    | "Branch" => (loadBranch d).toOption
    | "Merge" => (loadMerge d).toOption
    | _ => none

/-- The fields that all nodes share, of a record that is none of the known kinds. -/
def loadBase (d : Document) : Option (List Document) :=
  if hasFields d commonKeys then
    some (["nodetype", "name", "lineno", "columnno", "columnend", "visitlabel", "nodeid"].map
      fun key => (d.field? key).getD .null)
  else none

def saveTypes (types : List TypeRecord) : Document := .list (TypeRecord.saveAll types)

def saveDetail (n : NodeRecord) : List (String × Document) :=
  let types := saveTypes n.types
  let rejected := saveTypes n.rejected
  match n.detail with
  | .symbol extra scope symbol owner order context tag changed => [
      ("extra", extra), ("scope", scope), ("symbol", symbol), ("classname", owner),
      ("order", order), ("ctx", context), ("tag", tag), ("change", changed), ("types", types),
      ("rejtypes", rejected)]
  | .operation op func attr splitIndex rejectedInputs => [
      ("op", op), ("func", func), ("attr", attr), ("splitindex", splitIndex),
      ("rejinputtypes", saveTypes rejectedInputs), ("types", types), ("rejtypes", rejected)]
  | .known type => [("type", type.save), ("types", types), ("rejtypes", rejected)]
  | .branch var outTypes left right leftRejected rightRejected => [
      ("branchvar", var),
      ("outtypes", .list (outTypes.map fun t => (t.map TypeRecord.save).getD .null)),
      ("types", .list [saveTypes left, saveTypes right]),
      ("rejtypes", .list [saveTypes leftRejected, saveTypes rightRejected])]
  | .merge var => [("mergevar", var), ("types", types), ("rejtypes", rejected)]

/-- Save a node, given the ids of all nodes of its graph and a description of its owner. -/
def save (n : NodeRecord) (idAt : Nat → Document) (owner : NodeOwner → Document) : Document :=
  .record <| [
    ("ins", .list (n.ins.map idAt)), ("outs", .list (n.outs.map idAt)), ("name", n.name),
    ("lineno", n.line), ("columnno", n.column), ("columnend", n.columnEnd),
    ("tg", owner n.owner), ("nodeid", n.id), ("visitlabel", n.label), ("nodetype", n.kind)] ++
    n.saveDetail

/-- Save a node that stands alone. -/
def saveAlone (n : NodeRecord) : Document := n.save (fun _ => .null) fun _ => .null

end NodeRecord
end Archive
end TypeFlow
