import TypeFlow.Store.Basic

/-! # Copies of types

A copy of a type has new cells for everything that is reached from it. Cells that were shared in
the type are shared in the copy. -/

namespace TypeFlow

/-- The cells that have been copied so far, each with its copy. -/
structure Copies where
  types : List (TypeId × TypeId) := []
  rows : List (RowId × RowId) := []

abbrev Copying := StateT Copies Typing

namespace Copying

/-- Copy an entry, given how types and rows are copied. -/
def entryWith (typeOf : TypeId → Copying TypeId) (rowOf : RowId → Copying RowId) :
    Entry → Copying Entry
  | .type t => return .type (← typeOf t)
  | .group g => return .group (← rowOf g)
  | .text s => return .text s
  | .absent => return .absent

mutual

def typeTo : Nat → TypeId → Copying TypeId
  | 0, _ => throw .tooDeep
  | n + 1, t => do
    match (← get).types.lookup t with
    | some copy => return copy
    | none => do
      let cell ← Eval.type t
      let copy ← Eval.newCell cell
      modify fun c => { c with types := (t, copy) :: c.types }
      let elements ← rowTo n cell.elements
      let keys ← rowTo n cell.keys
      let values ← rowTo n cell.values
      Eval.modifyType copy fun c => { c with elements, keys, values }
      return copy

def rowTo : Nat → RowId → Copying RowId
  | 0, _ => throw .tooDeep
  | n + 1, r => do
    match (← get).rows.lookup r with
    | some copy => return copy
    | none => do
      let entries ← Eval.row r
      let copy ← Eval.newRow []
      modify fun c => { c with rows := (r, copy) :: c.rows }
      entries.forM fun e => do Eval.append copy (← entryWith (typeTo n) (rowTo n) e)
      return copy

end

end Copying

namespace Eval

def copyType (t : TypeId) : Typing TypeId := do
  let depth := (← store).depth
  return (← (Copying.typeTo depth t).run {}).1

def copyContents (r : RowId) : Typing RowId := do
  let depth := (← store).depth
  return (← (Copying.rowTo depth r).run {}).1

end Eval
end TypeFlow
