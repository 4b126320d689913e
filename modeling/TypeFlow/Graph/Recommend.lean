import TypeFlow.Graph.Report
import TypeFlow.Rule.Basic

/-! # Recommended types

A model recommends types for the slots of a function: `recommendations[class][function]` lists
annotations with a name, a category and the recommended types, the best first. Variables whose
types are missing take the first few of them. -/

namespace TypeFlow.Eval

def fieldOf (d : Document) (key : String) : Typing Document := ofExcept (d.field key)

/-- Read the first types of a piece of advice. -/
def readRecommended (advice : Document) (limit : Int) : Eval (List Entry) := do
  let mut found : List Entry := []
  for i in List.range limit.toNat do
    let types ← fieldOf advice "type"
    if i < (← ofExcept types.length) then
      let written ← ofExcept (types.item i)
      found := found ++ (← readTypes (← ofExcept written.asText))
  return found

/-- The first component of a type's name is the name of an imported module. -/
def isImported (modules : Document) (name : String) : Eval Bool :=
  ofExcept (modules.holds (Text.firstPiece name "."))

/-- Look the module of a content type up. -/
def checkContent (modules : Document) (e : Entry) : Eval Unit := do
  let cell ← type (← e.asType)
  if cell.category ≠ .builtin ∧ Text.has cell.name "." then
    let _ ← isImported modules cell.name

/-- Look the modules of a recommended type up. -/
def checkModules (modules : Document) (e : Entry) : Eval Unit := do
  let cell ← type (← e.asType)
  if cell.category = .builtin then
    for r in [cell.elements, cell.keys, cell.values] do
      for inner in ← row r do checkContent modules inner
  else
    let _ ← isImported modules cell.name

def markAdded (entries : List Entry) : Eval Unit := do
  for t in typesOf entries do modifyType t fun c => { c with added := true }

def markOrigin (entries : List Entry) (info : SymbolInfo) : Eval Unit := do
  for t in typesOf entries do
    modifyType t fun c =>
      { c with added := true, origin := some info.symbol, originOrder := some info.order }

def giveRecommended (n : NodeId) (entries : List Entry) : Eval Unit := do
  Rule.extend (← node n).types entries
  setTag n 4

def advicesOf (rec : Document) : Eval (List Document) := do
  ofExcept (← fieldOf rec "annotations").parts

def adviceCategory (info : SymbolInfo) : String :=
  Text.replace (Text.replace (Text.lower info.context) "read" "local") "write" "local"

def recommendedFor (rec : Document) (info : SymbolInfo) (limit : Int) : Eval (List Entry) := do
  let name := (Slot.ofSymbol info).name
  let mut found : List Entry := []
  for r in ← advicesOf rec do
    if (← fieldOf r "name") == .text name then
      if (← fieldOf r "category") == .text (adviceCategory info) then
        found := found ++ (← readRecommended r limit)
  return found

/-- Give recommended types to a variable that asks for them. -/
def recommendSlot (rec modules : Document) (limit : Int) (n : NodeId) : Eval Unit := do
  let info ← require (← node n).kind.symbol? .missingProperty
  match ← recommendedFor rec info limit with
  | [] => pure ()
  | entries => do
    for e in entries do checkModules modules e
    markOrigin entries info
    giveRecommended n (← distinct entries)

/-- Variables without types that a piece of advice is for. -/
def waitingFor (g : GraphId) (advice : Document) : Typing (List NodeId) := do
  let graph ← graph g
  let category ← fieldOf advice "category"
  if !graph.isModule && category == .text "return" then
    graph.returns.filterM fun n => do
      return (← isUntyped n) && !(← node n).ins.isEmpty
  else if category == .text "local" then
    match ← fieldOf advice "name" with
    | .text name => ((graph.symbols.get? name).getD []).filterM isUntyped
    | .list _ | .record _ => throw .wrongKind
    | _ => return []
  else return []

/-- Give the types of a piece of advice to all variables that wait for it. -/
def recommendAdvice (g : GraphId) (modules : Document) (limit : Int) (advice : Document) :
    Eval Unit := do
  match ← waitingFor g advice with
  | [] => pure ()
  | nodes => do
    match ← readRecommended advice limit with
    | [] => pure ()
    | entries => do
      let _ ← fieldOf advice "name"
      for e in entries do checkModules modules e
      markAdded entries
      let entries ← distinct entries
      for n in nodes do giveRecommended n entries

def recommendationsFor (recommendations : Document) (className funcName : String) :
    Eval (Option Document) := do
  if !(← ofExcept (recommendations.holds className)) then return none
  let entries ← fieldOf recommendations className
  if !(← ofExcept (entries.holds funcName)) then return none
  return some (← fieldOf entries funcName)

/-- The keys under which a function is found: its class, of nested ones the innermost, and its
name with all classes. -/
def recommendationKeys (graphName : String) : String × String :=
  let className := Text.lastPiece graphName "@"
  let name := Text.firstPiece graphName "@"
  (if Text.has className "," then Text.lastPiece className "," else className,
    if className = "global" then name else className ++ "." ++ name)

/-- Give recommended types to the variables of a function: to the given ones, and with `all` to
every variable and result that has no types. -/
def recommendFunction (g : GraphId) (slots : List NodeId) (recommendations modules : Document)
    (limit : Int) (all : Bool) : Eval Unit := do
  let (className, funcName) := recommendationKeys (← graph g).name
  match ← recommendationsFor recommendations className funcName with
  | none => pure ()
  | some rec => do
    for n in slots do recommendSlot rec modules limit n
    if all then
      for a in ← advicesOf rec do recommendAdvice g modules limit a

/-- Give recommended types to the variables of a module that have no types. -/
def recommendModule (g : GraphId) (recommendations modules : Document) (limit : Int) :
    Eval Unit := do
  match ← recommendationsFor recommendations "global" "global" with
  | none => pure ()
  | some rec => for a in ← advicesOf rec do recommendAdvice g modules limit a

end TypeFlow.Eval
