import TypeFlow.Rule

/-! # Rejection rules

When the result of an operation cannot have certain types, some operations can say which types
their operands cannot have. A rule gives one row for each operand: the operand's own row of
rejected types when nothing is learned, or a new row. -/

namespace TypeFlow.Rejection

open Eval

/-- Nothing is learned about the operands. -/
def keep (operands : List Operand) : Typing (List RowId) := operands.mapM Operand.rejected

/-- Add types to a row and simplify it. -/
def widen (r : RowId) (outs : List Entry) : Typing RowId := do
  Rule.extend r outs
  newRow (← distinct (← row r))

def passBack (outs : List Entry) (o : Operand) : Typing RowId := do
  widen (← copyContents (← o.rejected)) outs

def passBackBoth (outs : List Entry) (left right : Operand) : Typing (List RowId) := do
  let _ ← left.row
  let _ ← right.row
  let l ← copyContents (← left.rejected)
  let r ← copyContents (← right.rejected)
  Rule.extend l outs
  Rule.extend r outs
  return [← widen l [], ← widen r []]

def product (outs : List Entry) (left right : Operand) : Typing (List RowId) := do
  let _ ← left.row
  let _ ← right.row
  let l ← copyContents (← left.rejected)
  let r ← copyContents (← right.rejected)
  return [← widen l outs, r]

def appended (outs : List Entry) (left right : Operand) : Typing (List RowId) := do
  let l ← copyContents (← left.rejected)
  let r ← copyContents (← right.rejected)
  return [← widen l outs, r]

/-- Both operands of arithmetic reject what the result rejects, numbers apart. -/
def arithmetic (outs : List Entry) (left right : Operand) : Typing (List RowId) := do
  let _ ← left.row
  let _ ← right.row
  let l ← copyContents (← left.rejected)
  let r ← copyContents (← right.rejected)
  let others ← outs.filterM fun e => do
    return (← Rule.cellOf e).name ∉ ["bool", "int", "float", "complex"]
  Rule.extend l others
  Rule.extend r others
  return [← widen l [], ← widen r []]

def toFirst (outs : List Entry) (operands : List Operand) : Typing (List RowId) := do
  let head ← passBack outs (← Rule.first operands)
  return head :: (← keep (operands.drop 1))

def receiverMethods : List String := [
  "append", "clear", "copy", "insert", "pop", "remove", "discard", "reverse", "sort", "get",
  "popitem", "setdefault", "update", "center", "zfill", "expandtabs", "join", "ljust", "lower",
  "lstrip", "removeprefix", "removesuffix", "rjust", "replace", "rstrip", "strip", "add",
  "difference", "difference_update", "intersection", "intersection_update", "union",
  "symmetric_difference", "symmetric_difference_update", "abs"]

def call (o : Operation) (outs : List Entry) (operands : List Operand) : Typing (List RowId) := do
  if ← Rule.isUserName o.func o.userNames then keep operands
  else
    match o.attr, o.func with
    | some _, some name =>
      if name ∈ receiverMethods then toFirst outs operands
      else if name = "extend" then operands.mapM (passBack outs)
      else keep operands
    | _, _ => keep operands

/-- The rule for an operation. The first two operands are only looked at by rules that need
them. -/
def choose (o : Operation) (outs : List Entry) (operands : List Operand)
    (leading : Typing (Operand × Operand)) : Typing (List RowId) := do
  match o.op with
  | "+" => do
    let (left, right) ← leading
    if right = .missing then return [← signed left] else passBackBoth outs left right
  | "-" => do
    let (left, right) ← leading
    if right = .missing then return [← signed left] else arithmetic outs left right
  | "/" | "//" | "%" | "**" | "pow" => do
    let (left, right) ← leading
    if right = .missing then keep operands else arithmetic outs left right
  | "abs" => do
    let (left, right) ← leading
    if right = .missing then return [← signed left] else keep operands
  | "*" => do
    let (left, right) ← leading
    product outs left right
  | "|" | "^" | "&" | "<<" | ">>" => do
    let (left, right) ← leading
    passBackBoth outs left right
  | "~" | "forin" | "=" => do
    let (left, right) ← leading
    if right = .missing then return [← passBack outs left] else keep operands
  | "append" => do
    let (left, right) ← leading
    appended outs left right
  | "Subscript_Read" => if operands.length = 2 then keep operands else toFirst outs operands
  | "call" => call o outs operands
  | "List_Write" => do
    let head ← passBack outs (← Rule.first operands)
    if 1 < operands.length then throw .missingProperty
    return [head]
  | "Tuple_Write" | "ListComp" | "SetComp" | "GeneratorExp" => toFirst outs operands
  | _ => keep operands
where
  signed (left : Operand) : Typing RowId := do
    let _ ← left.row
    passBack outs left

/-- Apply the rejection rule of an operation to a node and its operands. In a traversal no
operand counts as first or second. -/
def apply (o : Operation) (node : NodeId) (operands : List Operand) (traversal : Bool) :
    Typing (List RowId) := do
  let leading : Typing (Operand × Operand) ←
    if traversal then pure (throw .unboundVariable)
    else do
      let pair ← Rule.leading operands
      pure (pure pair)
  choose o (← row (← Eval.node node).rejected) operands leading

end TypeFlow.Rejection
