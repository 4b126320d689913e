import TypeFlow.Graph.Basic

/-! # Reports

The types of a graph by type slot. The occurrences of a variable share a slot; arguments, results
and other variables of one name have different slots. A function without a result returns
`None`. -/

namespace TypeFlow

/-- A place that a type can be written at. -/
structure Slot where
  /-- `arg`, `return` or `local`. -/
  category : String
  name : String
deriving DecidableEq, Repr

namespace Slot

/-- The part of a symbol before its first mark. -/
def baseName (symbol : String) : String := Text.firstPiece symbol "@"

def ofSymbol (info : SymbolInfo) : Slot :=
  match info.context with
  | "Arg" => ⟨"arg", baseName (Text.replace info.symbol "(arg)" "")⟩
  | "Return" => ⟨"return", baseName (Text.replace info.symbol "Return_Value@" "")⟩
  | _ => ⟨"local", baseName info.symbol⟩

/-- The slot of an occurrence at the top level of a module. -/
def ofGlobal (info : SymbolInfo) : Slot := ⟨"local", baseName info.symbol⟩

def describe (slot : Slot) (types : List Document) : Document :=
  .record [("category", .text slot.category), ("name", .text slot.name), ("type", .list types)]

end Slot

/-- Slots in order of their first occurrence, each with what has been found for it. -/
abbrev Report (α : Type) := List (Slot × List α)

namespace Report

def found {α : Type} (r : Report α) (slot : Slot) : List α := (r.lookup slot).getD []

def update {α : Type} (r : Report α) (slot : Slot) (content : List α) : Report α :=
  if r.any (·.1 == slot) then r.map fun e => if e.1 == slot then (slot, content) else e
  else r ++ [(slot, content)]

end Report

namespace Eval

/-- The slots of a graph. `add` says how a type is added to what has been found for a slot, and
`nothing` what stands for a result that is not there. -/
def report {α : Type} (g : GraphId) (add : List α → Entry → Eval (List α)) (nothing : Eval α) :
    Eval (Report α) := do
  let graph ← graph g
  let mut report : Report α := []
  let mut returns := false
  for n in graph.symbols.values.flatten do
    match (← node n).kind with
    | .symbol info =>
      let slot := if graph.isModule then Slot.ofGlobal info else Slot.ofSymbol info
      if !graph.isModule && info.context == "Return" then returns := true
      let content ← (← typesAt n).foldlM add (report.found slot)
      report := report.update slot content
    | _ => pure ()
  if graph.isModule || returns then return report
  return report ++ [(⟨"return", Text.firstPiece graph.name "@"⟩, [← nothing])]

def slotTypes (g : GraphId) : Eval (Report Entry) :=
  report g (fun found e => do if ← existSame e found then return found else return found ++ [e])
    (do return .type (← newType "None"))

/-- The printed types of each slot; variables without types are left out. -/
def slotNames (g : GraphId) : Eval (Report String) := do
  let report ← report g
    (fun found e => do
      let name ← print e
      return if name ∈ found then found else found ++ [name])
    (pure "None")
  return report.filter fun (slot, names) => !(slot.category == "local" && names.isEmpty)

def describeSlots (g : GraphId) : Eval Document := do
  return .list ((← slotNames g).map fun (slot, names) => slot.describe (names.map .text))

end Eval
end TypeFlow
