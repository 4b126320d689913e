import TypeFlow.Build.Walk
import TypeFlow.Program.Path

/-! # Names and constants

A constant is a node for its type. A name is a type, the receiver of a method, an imported
module, or a variable of the module or of the function that is being read. -/

namespace TypeFlow.Build

open Program

/-- The type of a constant expression that graph building can take. -/
def literalType (kind : Literal) : Build (Option String) :=
  ofExcept (kind.typeName Literal.graphRefusal)

def pathOf (e : Expr) : Build String := ofExcept (e.path Literal.graphRefusal)

def typeOperand (name : String) (category : Category) (pos : Position) : Build Unit := do
  match ← consumer false with
  | some target => do
    let n ← newKnown name category target pos
    Eval.addInput target (some n)
    addNode n
  | none => pure ()

def readConstant (kind : Literal) (pos : Position) : Build Unit := do
  if (← get).pending.isEmpty then return ()
  match ← literalType kind with
  | some name => typeOperand name .builtin pos
  | none => pure ()

/-- Read the receiver of a method, which is of the class that is being read. -/
def readReceiver (pos : Position) : Build Unit := do
  match (← get).classes with
  | [] => throw (.rejectedValue "self should be used within class.")
  | c :: _ => do
    let target ← operation
    let n ← newKnown c.name .user target pos
    if !(← get).unused then Eval.addInput target (some n)
    addNode n

def readModule (id : String) (unused : Bool) (pos : Position) : Build Unit := do
  addNode (← newRead { symbol := id, order := 0, scope := "module" } [] unused pos)

/-- The next occurrence of a variable of the module that has occurred. A function that has not
yet touched the variable starts from nothing, and the module gets the node as well. -/
def rereadGlobal (key : String) (current : Option Link) (unused : Bool) (pos : Position) :
    Build NodeId := do
  let order ← again .module key
  let info : SymbolInfo := { symbol := key, order, scope := "global" }
  match current with
  | some (some n) => newRead info [some n] unused pos
  | _ => do
    let n ← newRead info [] unused pos
    if ← inFunction then addToModule n
    return n

def readGlobal (id : String) (unused : Bool) (pos : Position) : Build Unit := do
  let v ← vars .module
  if v.counts.contains id then
    let n ← rereadGlobal id (v.latest.get? id) unused pos
    setLatest .module id (some n)
    addNode n
  else if id ∈ (← get).modules then readModule id unused pos
  else
    setCount .module id 0
    let n ← newRead { symbol := id, order := 0, scope := "global" } [] unused pos
    setLatest .module id (some n)
    addNode n

def readLocal (id : String) (unused : Bool) (pos : Position) : Build Unit := do
  let v ← vars .function
  match v.counts.contains id, v.latest.get? id with
  | true, some current => do
    let order ← again .function id
    let n ← newRead { symbol := id, order } [current] unused pos
    setLatest .function id (some n)
    addToFunction n
  | _, _ =>
    if id ∈ (← get).modules then readModule id unused pos
    else
      setCount .function id 0
      let n ← newRead { symbol := id, order := 0 } [] unused pos
      setLatest .function id (some n)
      addToFunction n

/-- Read a variable. Inside a class body only variables of the module are known. -/
def readVariable (id : String) (unused : Bool) (pos : Position) : Build Unit := do
  if (← atTop) || (← occurs .module id) then readGlobal id unused pos
  else if ← inFunction then readLocal id unused pos

def deleteVariable (id : String) : Build Unit := do
  if ← occurs .module id then forget .module id
  if ← inFunction then
    if ← occurs .function id then forget .function id
    else throw (.rejectedValue (id ++ "does not exist."))

def writeVariable (id : String) (pos : Position) : Build Unit := do
  if (← atTop) || (← occurs .module id) then
    let order ← next .module id
    let n ← newWrite { symbol := id, order, scope := "global" } pos
    setLatest .module id (some n)
    addNode n
  else if ← inFunction then
    let order ← next .function id
    let n ← newWrite { symbol := id, order } pos
    setLatest .function id (some n)
    addToFunction n

/-- A name denotes a class that the program defines. -/
def isClassName (id : String) : Build Bool := do
  let w ← get
  return id ∈ w.classNames || w.classes.any (·.name == id)

def visitName (id : String) (access : Access) (pos : Position) : Build Unit := do
  let w ← get
  let standard := id ∈ Vocabulary.standardNames
  if access = .load && (standard || (← isClassName id)) then
    typeOperand id (if standard then .builtin else .user) pos
  else if id ∈ Vocabulary.errorNames || id ∈ Vocabulary.warningNames then
    typeOperand id .builtin pos
  else if id = "self" && access = .load && !w.subscriptWrite then readReceiver pos
  else if access = .load || (w.augmented && !w.binding) then readVariable id w.unused pos
  else if access = .delete then deleteVariable id
  else writeVariable id pos

end TypeFlow.Build
