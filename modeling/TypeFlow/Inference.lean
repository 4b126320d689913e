import TypeFlow.Graph.Flow
import TypeFlow.Graph.Path
import TypeFlow.Graph.Recommend

/-! # Inference

Types are passed through the graphs of a program until nothing changes. With recommendations,
the variables that wait for a type take recommended ones, and types are passed again, until no
other variables wait. -/

namespace TypeFlow

/-- Two lists do not have the same members. -/
def differ {α : Type} [BEq α] (a b : List α) : Bool :=
  a.any (fun x => !b.contains x) || b.any fun x => !a.contains x

/-- What a model recommends, and how much of it is used. -/
structure Advice where
  /-- Recommendations by class and function; `null` when there are none. -/
  recommendations : Document
  modules : Document
  /-- How many types are taken for each variable. -/
  limit : Int

namespace Advice

def isGiven (a : Advice) : Bool := a.recommendations != .null

end Advice

namespace Eval

/-- Rounds of recommendations after which a function is left as it is. -/
def maxRounds : Nat := 20

/-- Recommend types once. The answer says whether other variables wait for a type now. -/
def recommendOnce (g : GraphId) (a : Advice) (all : Bool) : Eval Bool := do
  passTypes g
  let before ← hotSymbols g
  recommendFunction g before a.recommendations a.modules a.limit all
  passTypes g
  return differ before (← hotSymbols g)

/-- Repeat a round while it says so. -/
def repeatRounds (round : Eval Bool) : Nat → Eval Unit
  | 0 => pure ()
  | n + 1 => do if ← round then repeatRounds round n

/-- Infer the types at the top level of a module. -/
def inferModule (g : GraphId) (a : Advice) : Eval Unit := do
  passTypes g
  if a.isGiven then
    recommendModule g a.recommendations a.modules a.limit
    passTypes g
  simplifyGraph g

/-- Infer the types of a function. Types are simplified after every round. -/
def inferFunction (g : GraphId) (a : Advice) : Eval Unit := do
  if a.isGiven then
    repeatRounds (do
      let changed ← recommendOnce g a false
      simplifyGraph g
      return changed) maxRounds
  else
    passTypes g
    simplifyGraph g

/-- The key under which the types at the top level of a module are reported. -/
def moduleReportKey : String := "global@global"

def addReport (name : String) (g : GraphId) (reports : Table String Document) :
    Eval (Table String Document) := do
  return reports.insert name (← describeSlots g)

def describeReports (reports : Table String Document) : Document := .record reports.entries

def inferFunctions (top : GraphId) (a : Advice) (reports : Table String Document) :
    Eval (Table String Document) := do
  (← graph top).functions.foldlM
    (fun reports g => do
      inferFunction g a
      addReport (← graph g).name g reports)
    reports

end Eval
end TypeFlow
