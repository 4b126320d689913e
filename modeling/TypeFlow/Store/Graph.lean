import TypeFlow.Alias.Graph
import TypeFlow.Document
import TypeFlow.Store.Node
import TypeFlow.Table

/-! # Type dependency graphs

A module has one graph for its top level and one for each function. Both kinds index their nodes
by symbol, by operation and by type, and both keep buffers of the nodes that were added inside
the loop, `try` body or handler that is being built. -/

namespace TypeFlow

inductive GraphRole where
  | module
  /-- A function, with its class and the graph of its module. -/
  | function (owner : Option String) (top : GraphId)
deriving DecidableEq, Repr, Inhabited

/-- Types of the attributes of one class, with the order of the occurrence they come from. -/
structure AttributeTypes where
  orders : Table String Int := {}
  types : Table String RowId := {}
deriving Repr, Inhabited

structure Graph where
  name : String
  fileName : String
  role : GraphRole
  userNames : List Document
  nodes : List NodeId := []
  symbols : Table String (List NodeId) := {}
  operations : Table String (List NodeId) := {}
  knowns : Table TypeId NodeId := {}
  branches : List NodeId := []
  merges : List NodeId := []
  loopDepth : Int := 0
  loopBuffer : List (List NodeId) := []
  tryDepth : Int := 0
  tryBuffer : List (Table String (List NodeId)) := []
  exceptDepth : Int := 0
  exceptBuffer : List (Table String NodeId) := []
  arguments : List NodeId := []
  returns : List NodeId := []
  startLine : Int := 0
  nextIndex : Nat := 0
  functions : List GraphId := []
  classNames : List String := []
  aliases : Alias.Graph := {}
  classTypes : Table (Option String) AttributeTypes := {}
deriving Repr, Inhabited

end TypeFlow
