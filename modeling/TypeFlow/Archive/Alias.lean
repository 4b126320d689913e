import TypeFlow.Alias.Graph
import TypeFlow.Document

/-! # Saved alias graphs

Nodes refer to each other by id. A record that lacks a field of a node is kept as a hole, which
only shows when something refers to it. -/

namespace TypeFlow

namespace Alias

/-- Save a node; neighbours are given by id. -/
def Node.save (g : Graph) (n : Node) : Document :=
  let ids (l : List Nat) : Document := .list (l.map fun i => .int (g.node i).id)
  .record [
    ("name", .text n.name), ("scope", .text n.scope), ("nodetype", .text n.kind),
    ("ins", ids n.parents), ("outs", ids n.children), ("alias", ids n.aliases),
    ("id", .int n.id)]

def Graph.save (g : Graph) : Document :=
  .record [
    ("nodes", .list (g.nodes.toList.map (·.save g))),
    ("rootnodes", .list (g.roots.map fun i => (g.node i).save g))]

end Alias

namespace Archive

def hasFields (d : Document) (keys : List String) : Bool :=
  match d with
  | .record fields => keys.all fun k => fields.any (·.1 == k)
  | _ => false

/-- Documents that can be looked up: lists and records cannot. -/
def asKey : Document → Except Fault Document
  | .list _ | .record _ => .error .wrongKind
  | d => .ok d

/-- The value of a key; the last one assigned counts, and stands first. -/
def lookupKey {α : Type} (table : List (Document × α)) (key : Document) : Except Fault α := do
  match table.find? (·.1 == (← asKey key)) with
  | some e => .ok e.2
  | none => .error .missingKey

/-- A node of an alias graph read back from its record. -/
structure AliasRecord where
  name : Document
  scope : Document
  kind : Document
  id : Document
  parents : List Nat := []
  children : List Nat := []
  aliases : List Nat := []
deriving Inhabited

namespace AliasRecord

/-- Fields of a saved node. -/
def keys : List String := ["name", "scope", "nodetype", "ins", "outs", "alias", "id"]

/-- Read a node back, without its neighbours. -/
def load (d : Document) : Option AliasRecord :=
  if hasFields d keys then
    some
      { name := (d.field? "name").getD .null
        scope := (d.field? "scope").getD .null
        kind := (d.field? "nodetype").getD .null
        id := (d.field? "id").getD .null }
  else none

/-- Save a node that stands alone. -/
def saveAlone (n : AliasRecord) : Document :=
  .record [
    ("name", n.name), ("scope", n.scope), ("nodetype", n.kind), ("ins", .list []),
    ("outs", .list []), ("alias", .list []), ("id", n.id)]

end AliasRecord

/-- An alias graph read back. Holes stand for records that are no nodes. -/
structure AliasGraphRecord where
  nodes : Array (Option AliasRecord) := #[]
  roots : List Nat := []

namespace AliasGraphRecord

/-- Change a node that is not a hole. -/
def modify (g : AliasGraphRecord) (i : Nat) (f : AliasRecord → Except Fault AliasRecord) :
    Except Fault AliasGraphRecord := do
  match g.nodes.getD i none with
  | some n => return { g with nodes := g.nodes.setIfInBounds i (some (← f n)) }
  | none => .error .missingProperty

/-- Read the edges of one node back. -/
def loadEdges (ids : List (Document × Nat)) (g : AliasGraphRecord) (d : Document) :
    Except Fault AliasGraphRecord := do
  let own := do lookupKey ids (← d.field "id")
  let mut g := g
  for i in ← (← d.field "ins").parts do
    g ← g.modify (← own) fun n => do
      return { n with parents := n.parents ++ [← lookupKey ids i] }
  for i in ← (← d.field "outs").parts do
    g ← g.modify (← own) fun n => do
      return { n with children := n.children ++ [← lookupKey ids i] }
  for i in ← (← d.field "alias").parts do
    g ← g.modify (← lookupKey ids (← d.field "alias")) fun n => do
      return { n with aliases := n.aliases ++ [← lookupKey ids i] }
  return g

def load (d : Document) : Except Fault (Option AliasGraphRecord) := do
  if !hasFields d ["nodes", "rootnodes"] then return none
  let mut g : AliasGraphRecord := {}
  let mut ids : List (Document × Nat) := []
  let saved ← (← d.field "nodes").parts
  for n in saved do
    let key ← asKey (← n.field "id")
    ids := (key, g.nodes.size) :: ids
    g := { g with nodes := g.nodes.push (AliasRecord.load n) }
  for n in saved do g ← loadEdges ids g n
  for n in ← (← d.field "rootnodes").parts do
    g := { g with roots := g.roots ++ [← lookupKey ids (← n.field "id")] }
  return some g

/-- The id of a node, which must not be a hole. -/
def idAt (g : AliasGraphRecord) (i : Nat) : Except Fault Document :=
  match g.nodes.getD i none with
  | some n => .ok n.id
  | none => .error .missingProperty

/-- Save a node, which must not be a hole. -/
def saveAt (g : AliasGraphRecord) (i : Nat) : Except Fault Document :=
  match g.nodes.getD i none with
  | none => .error .missingProperty
  | some n => do
    return .record [
      ("name", n.name), ("scope", n.scope), ("nodetype", n.kind),
      ("ins", .list (← n.parents.mapM g.idAt)), ("outs", .list (← n.children.mapM g.idAt)),
      ("alias", .list (← n.aliases.mapM g.idAt)), ("id", n.id)]

def save (g : AliasGraphRecord) : Except Fault Document := do
  return .record [
    ("nodes", .list (← (List.range g.nodes.size).mapM g.saveAt)),
    ("rootnodes", .list (← g.roots.mapM g.saveAt))]

end AliasGraphRecord
end Archive
end TypeFlow
