import TypeFlow.Graph.Report
import TypeFlow.Score.Counts
import TypeFlow.Type.Shape

/-! # Comparison with the ground truth

Annotations are compared with the report of the place where they stand. An annotation for which
the report has no slot of its name counts as missing. -/

namespace TypeFlow.Score

/-- The reports of the places whose types were inferred. -/
abbrev Reports := Table String (Report Entry)

def onlyName (l : List Entry) : Eval (Option String) := do
  match l with
  | [e] => return some (← Eval.type (← e.asType)).name
  | _ => return none

/-- Compare inferred types with the true ones. -/
def judge (found truth : List Entry) : Eval Verdict := do
  let name ← onlyName found
  if name = some "bool" then
    if (← onlyName truth) = some "str" then return .success
  if ← Eval.setIncluded found truth then return .success
  if ← Eval.setSimilar found truth then return .similar
  if !found.isEmpty then
    if ← Eval.setIncluded truth found then return .partly
  if name.map Text.lower = some "none" then return .partly
  if found.isEmpty then return .missing
  let _ ← Eval.outlines truth
  let _ ← Eval.outlines found
  return .failed

/-- The true types of an annotation: one type, or several. -/
def trueTypes (type : Document) : Eval (List Entry) := do
  match type with
  | .list l => return (← l.mapM fun t => do Eval.readTypes (← ofExcept t.asText)).flatten
  | t => Eval.readTypes (← ofExcept t.asText)

def slotNamed (report : Report Entry) (name : Document) : Option (List Entry) :=
  (report.find? fun (slot, _) => Document.text slot.name == name).map (·.2)

def foundFor (reports : Reports) (place : String) (a : Document) :
    Except Fault (Option (List Entry)) := do
  match reports.get? place with
  | some report => return slotNamed report (← a.field "name")
  | none => return none

def verdictOn (reports : Reports) (place : String) (a : Document) : Eval Verdict := do
  match ← ofExcept (foundFor reports place a) with
  | some found => do judge found (← trueTypes (← ofExcept (a.field "type")))
  | none => return .missing

def scoreOne (reports : Reports) (place : String) (t : Tally) (a : Document) : Eval Tally := do
  let verdict ← verdictOn reports place a
  let category ← ofExcept (a.field "category")
  ofExcept ({ t with total := t.total + 1 }.add verdict category)

def scorePlace (reports : Reports) (t : Tally) (place : String × Document) : Eval Tally := do
  (← ofExcept place.2.parts).foldlM (scoreOne reports place.1) t

def scoreClass (reports : Reports) (places : Table String Document) : Eval Tally :=
  places.entries.foldlM (scorePlace reports) {}

end TypeFlow.Score
