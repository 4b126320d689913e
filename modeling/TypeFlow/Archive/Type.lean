import TypeFlow.Store.Basic

/-! # Saved types

A type is saved as a record of its fields. Reading back a record keeps whatever its fields hold,
so a saved type is a record of documents, not a cell. -/

namespace TypeFlow

namespace Eval

def saveTypeTo : Nat → Entry → Eval Document
  | 0, _ => throw .tooDeep
  | n + 1, .type t => do
    let c ← type t
    let elements ← (← row c.elements).mapM (saveTypeTo n)
    let keys ← (← row c.keys).mapM (saveTypeTo n)
    let values ← (← row c.values).mapM (saveTypeTo n)
    return .record [
      ("type", .text c.name),
      ("category", match c.category with
        | .code k => .int k
        | .label s => .text s),
      ("added", .bool c.added),
      ("compatibletypes", .list (c.compatible.map .text)),
      ("startnodename", Document.ofText? c.origin),
      ("startnodeorder", Document.ofInt? c.originOrder),
      ("elementtype", .list elements),
      ("keytype", .list keys),
      ("valuetype", .list values)]
  | _, _ => throw .missingProperty

def saveType (e : Entry) : Eval Document := do saveTypeTo ((← get).depth) e

end Eval

namespace Archive

inductive TypeRecord where
  | mk (name category added compatible origin originOrder : Document)
      (elements keys values : List TypeRecord)
deriving Inhabited

namespace TypeRecord

/-- Read back a type to a given depth. -/
def loadTo : Nat → Document → Except Fault TypeRecord
  | 0, _ => .error .tooDeep
  | n + 1, d => do
    let name ← d.field "type"
    let category ← d.field "category"
    let added ← d.field "added"
    let compatible ← d.field "compatibletypes"
    let origin ← d.field "startnodename"
    let originOrder ← d.field "startnodeorder"
    let elements ← (← (← d.field "elementtype").parts).mapM (loadTo n)
    let keys ← (← (← d.field "keytype").parts).mapM (loadTo n)
    let values ← (← (← d.field "valuetype").parts).mapM (loadTo n)
    return .mk name category added compatible origin originOrder elements keys values

def load (d : Document) : Except Fault TypeRecord := loadTo (d.depth + 1) d

mutual

def save : TypeRecord → Document
  | .mk name category added compatible origin originOrder elements keys values =>
    .record [
      ("type", name), ("category", category), ("added", added),
      ("compatibletypes", compatible), ("startnodename", origin),
      ("startnodeorder", originOrder), ("elementtype", .list (saveAll elements)),
      ("keytype", .list (saveAll keys)), ("valuetype", .list (saveAll values))]

def saveAll : List TypeRecord → List Document
  | [] => []
  | r :: rest => save r :: saveAll rest

end

end TypeRecord
end Archive
end TypeFlow
