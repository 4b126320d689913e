import TypeFlow.Alias.Graph
import TypeFlow.Program.Outline
import TypeFlow.Program.Path

/-! # Alias analysis

Every attribute chain of a program enters the alias graph under the class and function in which
it stands. Assigning a name or a chain to another one makes the two aliases of each other.
Classes inside classes and functions inside functions are passed over. -/

namespace TypeFlow.Alias

open Program

/-- The class and the function in which a chain stands. -/
structure Place where
  owner : Option String := none
  func : Option String := none
deriving DecidableEq, Repr, Inhabited

def Place.scope (p : Place) : String := p.owner.getD "global" ++ "@" ++ p.func.getD "global"

def chain (e : Expr) : Except Fault String := e.path Literal.graphRefusal

/-- Make a target an alias of a node, unless its path cannot be spelled out. -/
def linkTarget (scope : String) (source : Nat) (g : Graph) (target : Expr) :
    Except Fault Graph := do
  let path ← chain target
  if Expr.isVague path then return g
  let (g, q) := g.addAttribute path scope
  return (g.addAlias q source).addAlias source q

/-- Make targets aliases of the chain that is assigned to them. Results of calls have none. -/
def linkTargets (scope path : String) (targets : List Expr) (g : Graph) : Except Fault Graph := do
  let (g, p) := g.addAttribute path scope
  if Text.has path "()" then return g
  targets.foldlM (linkTarget scope p) g

/-- Names and attributes. -/
def isChain : Expr → Bool
  | .attribute .. | .name .. => true
  | _ => false

def assign (scope : String) (targets : List Expr) (value : Expr) (g : Graph) :
    Except Fault Graph := do
  match value with
  | .attribute .. => do
    let path ← chain value
    if Expr.isVague path then return g
    linkTargets scope path targets g
  | .name .. => do linkTargets scope (← chain value) (targets.filter isChain) g
  | _ => return g

def assignOne (scope : String) (target : Expr) (value : Expr) (g : Graph) :
    Except Fault Graph := do
  match value with
  | .attribute .. | .name .. => do
    let path ← chain value
    if Expr.isVague path then return g
    linkTargets scope path [target] g
  | _ => return g

mutual

def enter (place : Place) : Part → Graph → Except Fault Graph
  | .attribute e, g => do return (g.addAttribute (← chain e) place.scope).1
  | .function name _ parts, g =>
    match place.func with
    | some _ => .ok g
    | none => enterAll { place with func := some name } parts g
  | .class_ name _ parts, g =>
    match place.owner with
    | some _ => .ok g
    | none => enterAll { place with owner := some name } parts g
  | .assign targets value parts, g => do
    enterAll place parts (← assign place.scope targets value g)
  | .annAssign target value parts, g => do
    match value with
    | some v => enterAll place parts (← assignOne place.scope target v g)
    | none => enterAll place parts g
  | .import_ _, g => .ok g
  | .importFrom .., g => .ok g

def enterAll (place : Place) : List Part → Graph → Except Fault Graph
  | [], g => .ok g
  | item :: rest, g => do enterAll place rest (← enter place item g)

end

def Graph.addProgram (g : Graph) (program : Module) : Except Fault Graph :=
  enterAll {} (outline program) g

end TypeFlow.Alias
