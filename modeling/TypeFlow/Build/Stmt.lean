import TypeFlow.Build.Expr
import TypeFlow.Build.Function
import TypeFlow.Build.Handler
import TypeFlow.Build.Loop

/-! # Reading statements

The walk over a program: each statement is read by the rule for its form. -/

namespace TypeFlow.Build

open Program

variable (around : Build Unit → Build Unit)

/-- Read expressions one after the other. -/
def visitExprs (l : List Expr) : Build Unit := visitEach (operandsOf around l)

mutual

def visitPattern : Pattern → Build Unit
  | .value value => visitExpr around value
  | .singleton => pure ()
  | .sequence patterns => visitPatterns patterns
  | .mapping keys patterns => do
    visitExprs around keys
    visitPatterns patterns
  | .object cls patterns named => do
    visitExpr around cls
    visitPatterns patterns
    visitPatterns named
  | .star => pure ()
  | .capture pattern => visitPattern? pattern
  | .alternatives patterns => visitPatterns patterns

/-- Read the expressions of a pattern that may be absent. -/
def visitPattern? : Option Pattern → Build Unit
  | none => pure ()
  | some p => visitPattern p

def visitPatterns : List Pattern → Build Unit
  | [] => pure ()
  | p :: rest => do
    visitPattern p
    visitPatterns rest

end

/-- Read a context of a `with` statement. -/
def readContext (c : Context) : Build Unit :=
  visitContext (visitExpr around c.value) (c.target.map fun e => (e, visitExpr around e))

mutual

/-- Read a statement. -/
def visitStmt (st : Stmt) : Build Unit := around <| match st with
  | .function pos name params body _ _ =>
    visitFunction pos name (visitParams params (visitExpr around)) (visitBody body)
  | .class_ _ name _ _ body _ => visitClass name (visitBody body)
  | .return_ pos value => visitReturn pos (visitExpr? around value)
  | .delete targets => visitExprs around targets
  | .assign pos targets value =>
    visitUsed "=" pos do
      visitExpr around value
      visitExprs around targets
  | .augAssign pos target op value =>
    visitAugmented op pos (visitExpr around target) (visitExpr around value)
  | .annAssign pos target _ value =>
    match value with
    | some v =>
      visitUsed "=" pos do
        visitExpr around v
        visitExpr around target
    | none => pure ()
  | .for_ pos target iter body orElse =>
    visitFor pos orElse (visitExpr around target) (visitExpr around iter) (visitBody body)
  | .while_ _ test body orElse => visitWhile orElse (visitExpr around test) (visitBody body)
  | .if_ _ test body orElse =>
    visitIf test (visitSubject around test) (visitExpr around test) (visitBody body)
      (visitBody orElse)
  | .with_ pos items body => visitWith pos (items.forM (readContext around)) (visitBody body)
  | .match_ subject cases => do
    visitExpr around subject
    visitCases cases
  | .raise exc cause => do
    visitExpr? around exc
    visitExpr? around cause
  | .try_ body handlers orElse finalBody =>
    visitTry (visitBody body) (visitHandlers handlers) (visitBody orElse) (visitBody finalBody)
  | .tryStar body handlers orElse finalBody => do
    visitBody body
    visitHandlers handlers
    visitBody orElse
    visitBody finalBody
  | .assert _ _ => pure ()
  | .import_ names => visitImport names
  | .importFrom _ names _ => visitImport names
  | .expr value => if value.isConstant then pure () else visitExpr around value
  | .other => pure ()

/-- Read statements one after the other. -/
def visitBody : List Stmt → Build Unit
  | [] => pure ()
  | s :: rest => do
    visitStmt s
    visitBody rest

def readHandler : Handler → Build Unit
  | .mk pos _ name body => around (visitHandler pos name (visitBody body))

def visitHandlers : List Handler → Build Unit
  | [] => pure ()
  | h :: rest => do
    readHandler h
    visitHandlers rest

/-- Read a case of a `match` statement. -/
def visitCase : Case → Build Unit
  | .mk pattern guard body => do
    visitPattern around pattern
    visitExpr? around guard
    visitBody body

/-- Read the cases of a `match` statement. -/
def visitCases : List Case → Build Unit
  | [] => pure ()
  | c :: rest => do
    visitCase c
    visitCases rest

end

end TypeFlow.Build
