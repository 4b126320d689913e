import TypeFlow.Build.Branch
import TypeFlow.Build.Call

/-! # Reading expressions

The walk over an expression: each part is read by the rule for its form. -/

namespace TypeFlow.Build

open Program

variable (around : Build Unit → Build Unit)

mutual

/-- Read an expression. Something may be done around the visit of each part. -/
def visitExpr (e : Expr) : Build Unit := around <| match e with
  | .boolOp pos op values => visitChoice op pos (operandsOf values)
  | .named _ target value => do
    visitExpr target
    visitExpr value
  | .binary pos op left right =>
    visitOperation op.symbol pos do
      visitExpr left
      visitExpr right
  | .unary pos op operand => visitOperation op.symbol pos (visitExpr operand)
  | .lambda pos _ _ => visitLambda pos
  | .conditional pos test body orElse =>
    visitConditional pos test (visitSubject test) (visitExpr test) (visitExpr body)
      (visitExpr orElse)
  | .dict pos keys values =>
    visitDisplay "Dict_Read" pos
      (do
        visitKeys keys
        visitEach (operandsOf values))
      keys.length
  | .set pos elements => visitDisplay "Set_Read" pos (visitEach (operandsOf elements))
  | .comprehension pos form element clauses =>
    visitComprehension (formName form) pos (visitClauses clauses) (visitExpr element)
  | .dictComprehension pos key value clauses =>
    visitComprehension "DictComp" pos (visitClauses clauses) do
      visitExpr key
      visitExpr value
  | .await _ value => visitExpr value
  | .yield pos value => visitYield pos (visitExpr? value)
  | .yieldFrom pos value => visitYield pos (visitExpr value)
  | .compare pos left ops comparators =>
    visitComparisons pos ⟨left.position, visitExpr left⟩ ops (operandsOf comparators)
  | .call pos func args keywords =>
    visitCall func pos (visitObject func) do
      visitEach (operandsOf args)
      visitKeywords keywords
  | .formatted _ value spec => do
    visitExpr value
    visitExpr? spec
  | .joined pos values => visitUsed "JoinedStr" pos (visitEach (operandsOf values))
  | .constant pos kind => readConstant kind pos
  | .attribute pos value attr access => visitAttribute value attr access pos (visitExpr value)
  | .subscript pos value index access =>
    visitSubscript value access pos (visitExpr value) (visitExpr index)
  | .starred _ value => visitExpr value
  | .name pos id access => visitName id access pos
  | .list pos elements access =>
    visitSequence "List" access pos (visitEach (operandsOf elements))
  | .tuple pos elements access =>
    visitSequence "Tuple" access pos (visitEach (operandsOf elements))
  | .slice _ lower upper step => do
    visitExpr? lower
    visitExpr? upper
    visitExpr? step

def operandsOf : List Expr → List Operand
  | [] => []
  | e :: rest => ⟨e.position, visitExpr e⟩ :: operandsOf rest

/-- Read an expression that may be absent. -/
def visitExpr? : Option Expr → Build Unit
  | none => pure ()
  | some e => visitExpr e

def visitKeys : List (Option Expr) → Build Unit
  | [] => pure ()
  | e :: rest => do
    visitExpr? e
    visitKeys rest

/-- Read a named argument. -/
def visitKeyword : Keyword → Build Unit
  | .mk _ value => visitExpr value

/-- Read named arguments. -/
def visitKeywords : List Keyword → Build Unit
  | [] => pure ()
  | k :: rest => do
    visitKeyword k
    visitKeywords rest

def readClause : Clause → Build Unit
  | .mk target iter conditions =>
    visitClause iter.position (visitExpr target) (visitExpr iter)
      (visitEach (operandsOf conditions))

def visitClauses : List Clause → Build Unit
  | [] => pure ()
  | c :: rest => do
    readClause c
    visitClauses rest

def visitObject : Expr → Build Unit
  | .attribute _ value _ _ => visitExpr value
  | _ => pure ()

/-- Read the value whose type a condition tests. -/
def visitSubject : Expr → Build Unit
  | .compare _ left _ _ =>
    match left with
    | .call _ _ args _ => visitFirst args
    | e => visitExpr e
  | .call _ _ args _ => visitFirst args
  | _ => pure ()

def visitFirst : List Expr → Build Unit
  | [] => pure ()
  | e :: _ => visitExpr e

end

end TypeFlow.Build
