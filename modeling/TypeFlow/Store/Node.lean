import TypeFlow.Store.Cell

/-! # Nodes of a type dependency graph

Symbols are occurrences of variables, operations produce types from the types of their inputs,
known nodes carry one type from the start, branches split the types of a variable at a type test,
and merges join the types of a variable where control flow meets. -/

namespace TypeFlow

structure SymbolInfo where
  symbol : String
  order : Int
  /-- Class that owns an attribute. -/
  owner : Option String := none
  /-- `local`, `global`, `attribute` or `module`. -/
  scope : String := "local"
  /-- `Read`, `Write`, `Arg` or `Return`. -/
  context : String := "Read"
  /-- Added on one side of a branch. -/
  extra : Bool := false
  /-- The last change of the types had an effect. -/
  changed : Bool := false
deriving DecidableEq, Repr, Inhabited

structure OperationInfo where
  op : String
  func : Option String := none
  attr : Option String := none
  /-- Number of key operands of a dictionary display. -/
  splitIndex : Int := 0
  /-- Types the last evaluation rejected, one row for each input. -/
  rejectedInputs : RowId
deriving DecidableEq, Repr, Inhabited

inductive NodeKind where
  | base
  | symbol (info : SymbolInfo)
  | operation (info : OperationInfo)
  | known (type : TypeId)
  | branch (var : Option String) (outTypes : RowId)
  | merge (var : String)
deriving DecidableEq, Repr, Inhabited

namespace NodeKind

def name : NodeKind → String
  | .base => "Base"
  | .symbol _ => "Symbol"
  | .operation _ => "TypeGen"
  | .known _ => "Type"
  | .branch .. => "Branch"
  | .merge _ => "Merge"

/-- Branches keep one row of types for each side. -/
def isBranch : NodeKind → Bool
  | .branch .. => true
  | _ => false

/-- Nodes that carry one type from the start. -/
def isKnown : NodeKind → Bool
  | .known _ => true
  | _ => false

def symbol? : NodeKind → Option SymbolInfo
  | .symbol info => some info
  | _ => none

def operation? : NodeKind → Option OperationInfo
  | .operation info => some info
  | _ => none

end NodeKind

/-- One end of an edge. `none` stands for a definition that is no longer known. -/
abbrev Link := Option NodeId

/-- A position in a source file: line, first column, column after the last. -/
structure Position where
  line : Int
  column : Int
  columnEnd : Int
deriving DecidableEq, Repr, Inhabited

structure Node where
  kind : NodeKind
  name : String
  ins : List Link := []
  outs : List Link := []
  position : Position := ⟨0, 0, 0⟩
  graph : Option GraphId := none
  /-- Types of the node; two nested rows for a branch. -/
  types : RowId
  /-- Rejected types that are still to be passed on to the inputs. -/
  rejected : RowId
  id : String := "Not Assigned"
  /-- 1 fixed by hand, 3 set by the flow, 4 recommended. -/
  tag : Int := 0
  /-- 0 not visited, 1 waiting, 2 final in the current sweep. -/
  label : Nat := 0
deriving DecidableEq, Repr, Inhabited

end TypeFlow
