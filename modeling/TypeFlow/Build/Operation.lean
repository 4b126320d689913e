import TypeFlow.Build.Attribute

/-! # Operations

Each operation of an expression is a node that takes its operands as inputs and is itself an
operand of the operation around it. -/

namespace TypeFlow.Build

open Program

/-- An operand: where it stands, and how to read it. -/
structure Operand where
  pos : Position
  visit : Build Unit

/-- Read operands one after the other. -/
def visitEach (operands : List Operand) : Build Unit := operands.forM (·.visit)

def visitOperation (op : String) (pos : Position) (operands : Build Unit) : Build Unit := do
  let unused ← takeUnused
  let n ← newOperation op pos
  reading n operands
  feed n unused
  addNode n

def visitUsed (op : String) (pos : Position) (operands : Build Unit) : Build Unit := do
  let n ← newOperation op pos
  reading n operands
  feed n
  addNode n

/-- Combine the operands after the second one with what stands before them. -/
def chainOperands (op : String) : NodeId → List Operand → Build NodeId
  | before, [] => return before
  | before, operand :: rest => do
    let n ← newOperation op operand.pos
    Eval.connect before n
    reading n operand.visit
    addNode n
    chainOperands op n rest

/-- A choice between operands, two at a time. -/
def visitChoice (op : BoolOp) (pos : Position) (operands : List Operand) : Build Unit := do
  let unused ← takeUnused
  let n ← newOperation op.symbol pos
  reading n (visitEach (operands.take 2))
  let last ← chainOperands op.symbol n (operands.drop 2)
  feed last unused
  addNode n

def visitComparison (op : CompareOp) (pos : Position) (left right : Operand) : Build NodeId := do
  let n ← newOperation op.symbol pos
  addNode n
  reading n do
    left.visit
    right.visit
  return n

/-- The later comparisons of a chain, each joined to those before it. -/
def chainComparisons (before : NodeId) (left : Operand) :
    List (CompareOp × Operand) → Build NodeId
  | [] => return before
  | (op, right) :: rest => do
    let n ← visitComparison op left.pos left right
    let both ← newOperation "and" right.pos
    Eval.connect before both
    Eval.connect n both
    addNode both
    chainComparisons both right rest

def visitComparisons (pos : Position) (left : Operand) (ops : List CompareOp)
    (comparators : List Operand) : Build Unit := do
  let unused ← takeUnused
  match ops.zip comparators with
  | [] => pure ()
  | (op, right) :: rest => do
    let first ← visitComparison op pos left right
    feed (← chainComparisons first right rest) unused

/-- A display of elements, which is used at once. -/
def visitDisplay (op : String) (pos : Position) (elements : Build Unit) (splitIndex : Int := 0) :
    Build Unit := do
  let target ← operation
  let n ← newOperation op pos none splitIndex
  Eval.connect n target
  reading n elements
  addNode n

/-- A target that takes a value apart. -/
def visitUnpacking (op : String) (pos : Position) (elements : Build Unit) : Build Unit := do
  let source ← operation
  let n ← newOperation op pos
  Eval.connect source n
  reading n elements
  addNode n

/-- A list or a tuple, as a value or as a target. -/
def visitSequence (noun : String) (access : Access) (pos : Position) (elements : Build Unit) :
    Build Unit :=
  if access = .store then visitUnpacking (noun ++ "_Write") pos elements
  else visitDisplay (noun ++ "_Read") pos elements

/-- A function without a name. Its body is not looked at. -/
def visitLambda (pos : Position) : Build Unit := do
  let target ← operation
  let n ← newKnown "Callable" .builtin target pos
  Eval.addInput target (some n)
  addNode n

/-- A clause of a comprehension: the target takes the elements of what is walked through. -/
def visitClause (iterPos : Position) (target iter conditions : Build Unit) : Build Unit := do
  let n ← newOperation "forin" iterPos
  reading n do
    iter
    modify fun w => { w with binding := true }
    target
    modify fun w => { w with binding := false }
  unusedValue conditions
  addNode n

/-- A comprehension: its clauses, then its element. -/
def visitComprehension (op : String) (pos : Position) (clauses element : Build Unit) :
    Build Unit := do
  let unused ← takeUnused
  let n ← newOperation op pos
  clauses
  reading n element
  feed n unused
  addNode n

def formName : Form → String
  | .list => "ListComp"
  | .set => "SetComp"
  | .generator => "GeneratorExp"

/-- The symbol that stands for the result of the function that is being read. -/
def resultSymbol : Build SymbolInfo := do
  let w ← get
  match w.functions with
  | [] => throw .outOfRange
  | f :: _ =>
    let owner := match w.classes with
      | c :: _ => "@" ++ c.name
      | [] => ""
    return { symbol := "Return_Value@" ++ f.name ++ owner, order := 0, context := "Return" }

/-- A value that a generator yields. When nothing uses the answer, it is a result of the
function. -/
def visitYield (pos : Position) (value : Build Unit) : Build Unit := do
  let n ← newOperation "yield" pos
  reading n value
  if (← get).pending.isEmpty then
    let result ← Eval.newSymbol (← resultSymbol)
    place result [some n] [] pos
    Eval.addOutput n (some result)
    addNode result
  else feed n
  addNode n

end TypeFlow.Build
