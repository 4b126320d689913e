import TypeFlow.Graph.Basic

/-! # Descriptions of graphs

Graphs as documents that show everything an inference can depend on. Types inside them are not
spelled out. -/

namespace TypeFlow.Store

/-- The entries of a row; nested rows are shown to a given depth. -/
def describeRow (s : Store) : Nat → RowId → Document
  | 0, _ => .list []
  | depth + 1, r =>
    .list ((s.rowAt r).map fun e =>
      match e with
      | .type t => .type t
      | .text x => .text x
      | .absent => .null
      | .group r => s.describeRow depth r)

/-- The types in a row, or in the rows of both sides of a branch. -/
def typesIn (s : Store) (r : RowId) : Document := s.describeRow 2 r

def id (s : Store) (n : NodeId) : Document := .text (s.nodeAt n).id

def ids (s : Store) (l : List NodeId) : Document := .list (l.map s.id)

/-- The name of the node at the end of an edge. -/
def linkId (s : Store) : Link → Document
  | some n => s.id n
  | none => .null

/-- A node has no types, or a branch none on either side. -/
def isBare (node : Node) (types : Document) : Bool :=
  if node.kind.isBranch then types == .list [.list [], .list []] else types == .list []

def describeKind (s : Store) : NodeKind → List (String × Document)
  | .symbol i =>
    [("order", .int i.order), ("scope", .text i.scope), ("cls", .ofText? i.owner),
      ("ctx", .text i.context), ("extra", .bool i.extra)]
  | .operation i =>
    [("func", .ofText? i.func), ("attr", .ofText? i.attr), ("split", .int i.splitIndex)]
  | .branch var outTypes => [("var", .ofText? var), ("outtypes", s.typesIn outTypes)]
  | .merge var => [("var", .text var)]
  | .base | .known _ => []

def describeNode (s : Store) (n : NodeId) : Document :=
  let node := s.nodeAt n
  let p := node.position
  let types := if node.kind = .base then [] else [("types", s.typesIn node.types)]
  let rejected := s.typesIn node.rejected
  .record <|
    [("id", .text node.id), ("kind", .text node.kind.name), ("name", .text node.name),
      ("pos", .list [.int p.line, .int p.column, .int p.columnEnd]),
      ("ins", .list (node.ins.map s.linkId)), ("outs", .list (node.outs.map s.linkId)),
      ("tag", .int node.tag)] ++ types ++
    (if isBare node rejected then [] else [("rej", rejected)]) ++ s.describeKind node.kind

def describeNodes (s : Store) (l : List NodeId) : Document := .list (l.map s.describeNode)

/-- The types at a node that has some, with those that are rejected. -/
def typesShot (s : Store) (n : NodeId) : Option Document :=
  let node := s.nodeAt n
  let types := s.typesIn node.types
  let rejected := s.typesIn node.rejected
  if node.kind.isKnown || node.kind = .base || isBare node types then none
  else some (.list ([.text node.id, types] ++ if isBare node rejected then [] else [rejected]))

def snapshot (s : Store) (g : GraphId) : Document :=
  .list ((s.graphAt g).nodes.filterMap s.typesShot)

def describeIndex (s : Store) (t : Table String (List NodeId)) : Document :=
  .list (t.entries.map fun e => .list [.text e.1, s.ids e.2])

def describeKnowns (s : Store) (t : Table TypeId NodeId) : Document :=
  .list (t.entries.map fun e => .list [.text (s.typeAt e.1).name, s.id e.2])

/-- What the graphs of modules and of functions have in common. -/
def describeParts (s : Store) (g : Graph) : List (String × Document) :=
  [("name", .text g.name), ("nodes", s.describeNodes g.nodes),
    ("symbols", s.describeIndex g.symbols), ("typegens", s.describeIndex g.operations),
    ("typenodes", s.describeKnowns g.knowns), ("branches", s.ids g.branches),
    ("merges", s.ids g.merges)]

def describeFunction (s : Store) (g : GraphId) : Document :=
  let f := s.graphAt g
  .record <| s.describeParts f ++
    [("cls", .ofText? f.owner), ("line", .int f.startLine), ("args", s.ids f.arguments),
      ("returns", s.ids f.returns)]

def describeModule (s : Store) (g : GraphId) : Document :=
  let m := s.graphAt g
  .record <| s.describeParts m ++
    [("classnames", .list (m.classNames.map .text)), ("usertypes", .list m.userNames),
      ("tgs", .list (m.functions.map s.describeFunction))]

def describeBuffers (s : Store) (g : GraphId) : Document :=
  let graph := s.graphAt g
  .list [.list (graph.loopBuffer.map s.ids),
    .list (graph.tryBuffer.map fun t => .record (t.entries.map fun e => (e.1, s.ids e.2))),
    .list (graph.exceptBuffer.map fun t => .record (t.entries.map fun e => (e.1, s.id e.2)))]

/-- The types of attributes, by class. -/
def describeAttributes (s : Store) (g : GraphId) : Document :=
  .record ((s.graphAt g).classTypes.entries.map fun (owner, a) =>
    let orders := a.orders.entries.map fun e => (e.1, Document.int e.2)
    (owner.getD "null", .record (("@id@", .record orders) ::
      a.types.entries.map fun e => (e.1, s.typesIn e.2))))

end TypeFlow.Store
