import TypeFlow.Type.Copy
import TypeFlow.Type.Shape
import TypeFlow.Type.Simplify
import TypeFlow.Vocabulary.Signature

/-! # Typing rules: operands and verdicts

A typing rule looks at the types of its operands. It says which of them the operation cannot
take, for each operand, and which types the result may have. -/

namespace TypeFlow

/-- What an operation is applied to: a graph node, nothing, or something that is not a node. -/
inductive Operand where
  | node (n : NodeId)
  | missing
  | foreign (text : String)
deriving DecidableEq, Repr, Inhabited

namespace Operand

def ofLink : Link → Operand
  | some n => .node n
  | none => .missing

/-- Operands that are there and are not nodes. -/
def isForeign : Operand → Bool
  | .foreign _ => true
  | _ => false

/-- The node of an operand that has to be one. -/
def asNode : Operand → Typing Node
  | .node n => Eval.node n
  | _ => throw .missingProperty

def row (o : Operand) : Typing RowId := do
  let n ← o.asNode
  match n.kind with
  | .base => throw .missingProperty
  | _ => return n.types

def types (o : Operand) : Typing (List Entry) := do Eval.row (← o.row)

def rejected (o : Operand) : Typing RowId := return (← o.asNode).rejected

end Operand

/-- The types of a result: one type, or a row that may be shared with an operand. -/
inductive Outs where
  | one (t : TypeId)
  | row (r : RowId)
deriving DecidableEq, Repr, Inhabited

def Outs.toRow : Outs → Typing RowId
  | .one t => Eval.newRow [.type t]
  | .row r => pure r

/-- What a rule decides: the rejected types, one list for each operand, and the types of the
result. -/
structure Verdict where
  rejected : List (List Entry)
  outs : Outs
deriving Repr, Inhabited

/-- The answer of a rule; a rule may have none. -/
abbrev Ruling := Typing (Option Verdict)

namespace Rule

open Eval

def answer (rejected : List (List Entry)) (outs : List Entry) : Ruling := do
  return some ⟨rejected, .row (← newRow outs)⟩

def answerOne (rejected : List (List Entry)) (t : TypeId) : Ruling :=
  return some ⟨rejected, .one t⟩

/-- Nothing rejected, one empty list for each of the given things. -/
def nothing {α : Type} (operands : List α) : List (List Entry) := operands.map fun _ => []

/-- The rule takes every operand and knows nothing of the result. -/
def silent (operands : List Operand) : Ruling := answer (nothing operands) []

/-- An entry with its name and category but without contents. -/
def surface (e : Entry) : Typing Item := do
  match e with
  | .type t => do
    let c ← type t
    return .type (.mk t c.name c.category (.mk ⟨0⟩ []) (.mk ⟨0⟩ []) (.mk ⟨0⟩ []))
  | .text s => return .text s
  | .absent => return .absent
  | .group r => return .group (.mk r [])

/-- A type is like one of the named ones, contents apart. -/
def isLike (names : List String) (e : Entry) : Typing Bool := do
  Ty.existSame discardForeign (← surface e) (names.map .text)

/-- The entries that are like none of the named types. -/
def unlike (names : List String) (entries : List Entry) : Typing (List Entry) :=
  entries.filterM fun e => return !(← isLike names e)

/-- The category of an entry that has to be a type. -/
def categoryOf (e : Entry) : Typing Category := return (← type (← e.asType)).category

/-- The cell of an entry that has to be a type. -/
def cellOf (e : Entry) : Typing TypeCell := do type (← e.asType)

/-- The element types of an entry that has to be a type. -/
def elementsOf (e : Entry) : Typing (List Entry) := do Eval.row (← cellOf e).elements

/-- The key types of an entry that has to be a type. -/
def keysOf (e : Entry) : Typing (List Entry) := do Eval.row (← cellOf e).keys

/-- The value types of an entry that has to be a type. -/
def valuesOf (e : Entry) : Typing (List Entry) := do Eval.row (← cellOf e).values

def extend (r : RowId) (entries : List Entry) : Typing Unit := modifyRow r (· ++ entries)

/-- Append an entry to a list unless it has its like there. -/
def addNew (outs : List Entry) (e : Entry) : Typing (List Entry) := do
  if ← existSame e outs then return outs else return outs ++ [e]

/-- Append to a row in place what is of no type in it. -/
def extendByKind (r : RowId) (entries : List Entry) : Typing Unit :=
  entries.forM fun e => do
    if !(← existType e (← Eval.row r)) then append r e

def containerOf (name : String) (elements : List Entry) : Typing TypeId := do
  let t ← newType name
  extend (← type t).elements elements
  return t

/-- The place of a number among the kinds of number. -/
def numberLevel (name : String) : Typing Nat :=
  require (Vocabulary.numbers.idxOf? name) .badValue

def first (operands : List Operand) : Typing Operand := elementAt operands 0

def second (operands : List Operand) : Typing Operand := elementAt operands 1

end Rule
end TypeFlow
