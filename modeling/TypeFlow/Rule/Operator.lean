import TypeFlow.Rule.Basic

/-! # Rules of operators

Boolean operators, comparisons and arithmetic. Numbers stand for one another, sequences can be
joined with their like, and a bool in arithmetic counts as an integer. -/

namespace TypeFlow.Rule

open Eval

/-- Either operand may be the result. -/
def junction (left right : Operand) : Ruling := do
  let ls ← left.types
  let rs ← right.types
  answer [[], []] (← distinct (ls ++ rs))

/-- Every type has a truth value. -/
def negation : Ruling := do answerOne [[]] (← newType "bool")

/-- Types that have no order. -/
def unordered : List String := ["type", "Callable", "Dict", "None"]

/-- An entry cannot be ordered against any of the others. -/
def isIncomparable (others : List Entry) (e : Entry) : Typing Bool := do
  if !(← existCompatible e others) then return true
  if (← categoryOf e) ≠ .builtin then return true
  isLike unordered e

/-- Both sides of an order test need types that fit. -/
def ordering (left right : Operand) : Ruling := do
  let ls ← left.types
  let rs ← right.types
  let result ← newType "bool"
  let lr ← ls.filterM (isIncomparable rs)
  let rr ← rs.filterM (isIncomparable ls)
  answerOne [lr, rr] result

/-- All types can be tested for equality. -/
def equality : Ruling := do answerOne [[], []] (← newType "bool")

/-- Types that cannot be added. -/
def unaddable : List String := ["type", "Callable", "Set", "Dict", "None"]

/-- An entry cannot be added to any of the others. -/
def isUnaddable (others : List Entry) (e : Entry) : Typing Bool := do
  if !(← existSame e others) then
    if !(← existCompatible e others) then return true
  if (← categoryOf e) ≠ .builtin then return true
  isLike unaddable e

/-- The sequence that comes from joining a sequence with those of its name. -/
def joined (e : Entry) (others : List Entry) : Typing (Option TypeId) := do
  let cell ← cellOf e
  let result ← newType cell.name
  let elements := (← type result).elements
  extend elements (← Eval.row cell.elements)
  let mut found := false
  for other in others do
    let cell' ← cellOf other
    if cell'.name = cell.name then
      extend elements (← Eval.row cell'.elements)
      found := true
  return if found then some result else none

/-- Addition: numbers with numbers, texts with texts, sequences with sequences. -/
def addition (operands : List Operand) : Ruling := do
  let ls ← (← first operands).types
  let rs ← (← second operands).types
  let mut outs : List Entry := []
  let mut lr : List Entry := []
  let mut rr : List Entry := []
  for e in ls do
    if ← isLike ["Tuple", "List"] e then
      match ← joined e rs with
      | some t => outs := outs ++ [.type t]
      | none => pure ()
    else if ← isUnaddable rs e then lr := lr ++ [e]
    else outs ← addNew outs e
  for e in rs do
    if ← isUnaddable ls e then rr := rr ++ [e]
    else outs ← addNew outs e
  answer ([lr, rr] ++ nothing (operands.drop 2)) outs

def hasInteger (entries : List Entry) : Typing Bool := do
  if ← existType (.text "int") entries then return true
  existType (.text "bool") entries

/-- Types that cannot be multiplied. -/
def unmultipliable : List String := ["type", "Callable", "None", "Set", "Dict"]

/-- What one side of a product cannot be, given the other side. -/
def unmultiplied (entries others : List Entry) : Typing (List Entry) := do
  if ← hasInteger others then return []
  unlike ["bool", "float", "int"] entries

/-- Add the entries that are not rejected and have no like among the results. -/
def addAccepted (rejected outs entries : List Entry) : Typing (List Entry) :=
  entries.foldlM (fun outs e => if e ∈ rejected then pure outs else addNew outs e) outs

/-- Multiplication: of numbers, or of a sequence with an integer. -/
def multiplication (left right : Operand) : Ruling := do
  let ls ← left.types
  let rs ← right.types
  let rr ← unmultiplied rs ls
  let lr ← unmultiplied ls rs
  let lr := lr ++ (← ls.filterM (isLike unmultipliable))
  let rr := rr ++ (← rs.filterM (isLike unmultipliable))
  let mut outs : List Entry := []
  let isFloat ← if ← existType (.text "float") ls then pure true else existType (.text "float") rs
  if isFloat then outs := outs ++ [.type (← newType "float")]
  let isInteger ← if ← hasInteger ls then hasInteger rs else pure false
  if isInteger then outs := outs ++ [.type (← newType "int")]
  if ← hasInteger ls then outs ← addAccepted rr outs rs
  if ← hasInteger rs then outs ← addAccepted lr outs ls
  answer [lr, rr] outs

def promoteBools (r : RowId) : Typing Unit := do
  for (e, i) in (← Eval.row r).zipIdx do
    if (← cellOf e).name = "bool" then
      let t ← newType "int"
      modifyRow r (·.set i (.type t))

/-- The right side of arithmetic: bools become integers, the rest is rejected unless it is a
number. The level is that of the widest number that is written as such. -/
def arithmeticRight (r : RowId) : Typing (List Entry × Nat) := do
  let mut rejected : List Entry := []
  let mut level := 0
  for (_, i) in (← Eval.row r).zipIdx do
    let e := (← Eval.row r).getD i .absent
    let cell ← cellOf e
    if cell.name = "bool" then
      let t ← newType "int"
      modifyRow r (·.set i (.type t))
    else if !(← isLike Vocabulary.numbers e) then rejected := rejected ++ [e]
    else
      let n ← numberLevel (Text.lower cell.name)
      if level < n then level := n
  return (rejected, level)

def arithmeticNumbers : List String := ["int", "float", "complex"]

/-- The result types on the left side of arithmetic, and what is rejected there. -/
def arithmeticLeft (ls rs : List Entry) (level : Nat) : Typing (List Entry × List Entry) := do
  let mut rejected : List Entry := []
  let mut outs : List Entry := []
  for e in ls do
    if !(← isLike Vocabulary.numbers e) then rejected := rejected ++ [e]
    else if ← isLike arithmeticNumbers e then
      if ← existSame e rs then outs ← addNew outs e
      else if level < (← numberLevel (Text.lower (← cellOf e).name)) then outs ← addNew outs e
  return (rejected, outs)

/-- Add the widest numbers of the right side. -/
def arithmeticWidest (outs rs : List Entry) (level : Nat) : Typing (List Entry) :=
  rs.foldlM
    (fun outs e => do
      if ← isLike arithmeticNumbers e then
        if (← numberLevel (Text.lower (← cellOf e).name)) = level then addNew outs e
        else return outs
      else return outs)
    outs

/-- Arithmetic on numbers. With a text on the left, `%` formats. -/
def arithmetic (op : String) (left right : Operand) : Ruling := do
  let lrow ← left.row
  let rrow ← right.row
  let text ← newType "Text"
  let isFormat ← if op = "%" then existSame (.type text) (← Eval.row lrow) else pure false
  if isFormat then
    let result ← newType "Text"
    answer [← unlike ["str"] (← Eval.row lrow), []] [.type result]
  else
    let (rr, level) ← arithmeticRight rrow
    promoteBools lrow
    let ls ← Eval.row lrow
    let rs ← Eval.row rrow
    let (lr, outs) ← arithmeticLeft ls rs level
    let outs ← arithmeticWidest outs rs level
    if op = "/" ∧ lr.length < ls.length ∧ rr.length < rs.length then
      answer [lr, rr] [.type (← newType "float")]
    else answer [lr, rr] outs

/-- A sign keeps the type of a number. -/
def signed (left : Operand) : Ruling := do
  let ls ← left.types
  let mut rejected : List Entry := []
  let mut outs : List Entry := []
  for e in ls do
    if !(← isLike Vocabulary.numbers e) then rejected := rejected ++ [e]
    else outs ← addNew outs e
  answer [rejected, []] outs

def toNumber (name : String) (left : Operand) : Ruling := do
  let ls ← left.types
  let result ← newType name
  answerOne [← unlike ["int", "float", "complex", "bytes", "Text", "bool"] ls] result

/-- The level of the widest number among entries that can stand for integers. -/
def widest (name : String → String) (entries : List Entry) : Typing Nat := do
  let basic ← newType "int"
  let mut level := 1
  for e in entries do
    if ← compatible e (.type basic) then
      level := max level (← numberLevel (name (← cellOf e).name))
  return level

/-- The operator form of quotient and remainder never reaches a verdict: it takes the verdict
on a division apart as if it had three parts. -/
def quotient (left right : Operand) : Ruling := do
  let ls ← left.types
  let rs ← right.types
  let l ← widest Text.lower ls
  let r ← widest Text.lower rs
  let _ ← arithmetic (if l < 2 ∧ r < 2 then "%" else "/") left right
  throw .badValue

/-- Entries that bit operations cannot take. User types may define them. -/
def bitless (names : List String) (entries : List Entry) : Typing (List Entry) :=
  entries.filterM fun e => do
    if ← isLike names e then return false
    return (← categoryOf e) == .builtin

/-- The set among entries, when both sides have one. -/
def commonSets (ls rs : List Entry) : Typing (List Entry) := do
  let probe ← newType "Set"
  if ← existSame (.type probe) ls then
    if ← existSame (.type probe) rs then
      let l ← findSame (.type probe) ls
      let r ← findSame (.type probe) rs
      return [l.getD .absent, r.getD .absent]
    else return []
  else return []

/-- Bit operations on integers; with two operands, also on sets. -/
def bitwise (operands : List Operand) : Ruling := do
  match operands with
  | [left, right] => do
    let ls ← left.types
    let rs ← right.types
    let int ← newType "int"
    let bool ← newType "bool"
    let names := ["int", "bool", "Any", "Set"]
    let lr ← bitless names ls
    let rr ← bitless names rs
    let sets ← commonSets ls rs
    if ls.length = lr.length ∨ rs.length = rr.length then answer [lr, rr] []
    else answer [lr, rr] (sets ++ [.type int, .type bool])
  | _ :: _ :: _ :: _ => do
    let int ← newType "int"
    let bool ← newType "bool"
    let rejected ← operands.mapM fun o => do bitless ["int", "bool", "Any"] (← o.types)
    answer rejected [.type int, .type bool]
  | _ => return none

def complement (left : Operand) : Ruling := do
  let ls ← left.types
  let result ← newType "int"
  answerOne [← unlike ["int", "bool"] ls] result

end TypeFlow.Rule
