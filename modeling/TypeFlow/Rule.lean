import TypeFlow.Rule.Call.Dependent
import TypeFlow.Rule.Call.Signature
import TypeFlow.Rule.Container

/-! # Typing rules

The rule for each operation of a graph. Operations without a rule take everything and give
nothing. -/

namespace TypeFlow

/-- What a rule is chosen by: the operation, for calls the function, whether it is called on a
receiver, and the names of user types, if they are known. -/
structure Operation where
  op : String
  func : Option String := none
  attr : Option String := none
  userNames : Option (List Document) := some []

namespace Rule

open Eval Vocabulary

def isUserName (func : Option String) (userNames : Option (List Document)) : Typing Bool :=
  match userNames with
  | none => throw .wrongKind
  | some names => return names.contains (Document.ofText? func)

/-- The rule for a call. A user type makes an instance of itself. -/
def call (o : Operation) (operands : List Operand) : Ruling := do
  let onReceiver := o.attr.isSome
  if ← isUserName o.func o.userNames then
    answer (nothing operands) [.type (← newType (o.func.getD "") .user)]
  else
    match o.func with
    | none =>
      if onReceiver then methodCall "" operands else silent operands
    | some name =>
      if name ∈ changingMethods then
        if onReceiver then changingCall name operands else silent operands
      else if name ∈ dependentFunctions then
        if onReceiver then dependentMethod name operands else dependentFunction name operands
      else if onReceiver then methodCall name operands
      else functionCall name operands

def choose (o : Operation) (operands : List Operand) (left right : Operand) : Ruling :=
  let unary := right = .missing
  match o.op with
  | "and" | "or" => junction left right
  | "not" => negation
  | "<" | "<=" | ">" | ">=" => ordering left right
  | "==" | "!=" | "is" | "is not" => equality
  | "+" => if unary then signed left else addition operands
  | "*" => multiplication left right
  | "-" => if unary then signed left else arithmetic o.op left right
  | "/" | "//" | "%" | "**" | "pow" =>
    if unary then silent operands else arithmetic o.op left right
  | "abs" => if unary then signed left else silent operands
  | "int" => if unary then toNumber "int" left else silent operands
  | "float" => if unary then toNumber "float" left else silent operands
  | "divmod" => quotient left right
  | "|" | "^" | "&" | "<<" | ">>" => bitwise operands
  | "~" => if unary then complement left else silent operands
  | "bytes" => if unary then toBytes left else silent operands
  | "str" => if unary then toText else silent operands
  | "tuple" => if unary then toContainer "Tuple" left else silent operands
  | "list" => if unary then toContainer "List" left else silent operands
  | "set" => if unary then toContainer "Set" left else silent operands
  | "dict" => if unary then toMapping left else silent operands
  | "type" => if unary then typeOf left else silent operands
  | "in" | "not in" => membership right
  | "forin" => if unary then iteration left else silent operands
  | "append" => appended left right
  | "Subscript_Write" => itemWrite operands
  | "Subscript_Read" => itemRead operands
  | "=" => if unary then assignment left else silent operands
  | "call" => call o operands
  | "List_Read" => display "List" operands
  | "List_Write" => listUnpacking operands
  | "Tuple_Read" => display "Tuple" operands
  | "Tuple_Write" => tupleUnpacking operands
  | "Set_Read" => display "Set" operands
  | "Dict_Read" => mappingDisplay operands
  | "JoinedStr" => joinedText operands
  | "." => silent operands
  | "ListComp" => comprehension "List" operands
  | "SetComp" => comprehension "Set" operands
  | "DictComp" => mappingComprehension operands
  | "GeneratorExp" => comprehension "Generator" operands
  | "yield" => yielding operands
  | "IfExp" => choice operands
  | _ => silent operands

/-- The first two operands of a list, which have to be nodes if they are there. -/
def leading (operands : List Operand) : Typing (Operand × Operand) := do
  let left := operands.getD 0 .missing
  let right := operands.getD 1 .missing
  if left.isForeign || right.isForeign then
    throw (.rejectedValue "Operands must be a graph node")
  return (left, right)

def apply (o : Operation) (operands : List Operand) : Ruling := do
  let (left, right) ← leading operands
  choose o operands left right

end Rule
end TypeFlow
