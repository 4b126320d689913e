import TypeFlow.Node.Types
import TypeFlow.Rejection

/-! # Evaluating operations

An operation node gets its types from the typing rule of its operation. Types that the rule
rejects are noted at the inputs, user types apart, when all inputs have types. -/

namespace TypeFlow.Eval

def operationAt (n : NodeId) : Typing OperationInfo := do
  require (← node n).kind.operation? .missingProperty

def operationOf (info : OperationInfo) (userNames : Option (List Document)) : Operation :=
  { op := info.op, func := info.func, attr := info.attr, userNames }

def operandsOf (n : Node) : List Operand := n.ins.map Operand.ofLink

def allTyped : List Link → Typing Bool
  | [] => return true
  | link :: rest => do
    if (← linkTypes link).isEmpty then return false else allTyped rest

def inputsTyped (n : NodeId) : Typing Bool := do
  let _ ← operationAt n
  allTyped (← node n).ins

/-- Note at an input that a type is rejected. Known types and user types cannot be rejected. -/
def rejectAt (input : Link) (e : Entry) : Typing Unit := do
  let n ← require input .missingProperty
  let target ← node n
  if e ∈ (← row target.rejected) then return ()
  if (← type (← e.asType)).category = .user then return ()
  if target.kind.isKnown then return ()
  let _ ← print e
  append target.rejected e

def rejectInputs (rejected : List (List Entry)) (ins : List Link) : Typing Unit :=
  (rejected.zip ins).forM fun p => p.1.forM (rejectAt p.2)

/-- A wrong number of rejected types is reported. -/
def miscount (info : OperationInfo) (separator : String) (line : Int) : Typing Unit := do
  let place ←
    if info.op = "call" then do
      let func ← require info.func .wrongKind
      pure (info.op ++ separator ++ func)
    else pure info.op
  throw (.rejectedValue
    ("Incorrect number of rejected types in " ++ place ++ " at Line: " ++ toString line))

def keepVerdict (n : NodeId) (info : OperationInfo) (v : Verdict) : Eval Unit := do
  let groups ← v.rejected.mapM fun entries => do return Entry.group (← newRow entries)
  let rejectedInputs ← newRow groups
  let types ← v.outs.toRow
  modifyNode n fun node =>
    { node with kind := .operation { info with rejectedInputs }, types }

/-- The verdict of the rule for an operation on operands, one for each of its inputs. -/
def verdictOn (source : Node) (info : OperationInfo) (operands : List Operand)
    (userNames : Option (List Document)) (traversal : Bool) : Typing Verdict := do
  if !traversal && info.op == "Subscript_Write" && 4 < source.ins.length then
    throw (.rejectedValue
      "TypeGenNode with Subscript_Write should not have more than 4 input nodes")
  require (← Rule.apply (operationOf info userNames) operands) .wrongKind

/-- Pass on what the verdict at an operation rejects. The answer says that nothing is. -/
def noteVerdict (n : NodeId) (source : Node) (info : OperationInfo) (v : Verdict) :
    Typing Bool := do
  if info.op = "List_Write" ∨ info.op = "Tuple_Write" then
    return v.rejected.all (·.isEmpty)
  if v.rejected.length < source.ins.length then miscount info "" source.position.line
  if ← inputsTyped n then
    rejectInputs v.rejected source.ins
    return v.rejected.all (·.isEmpty)
  else return true

/-- Evaluate an operation on operands, one for each of its inputs. The answer says that the rule
rejected nothing. -/
def performOn (n : NodeId) (operands : List Operand) (userNames : Option (List Document))
    (traversal : Bool) : Eval Bool := do
  let info ← operationAt n
  let source ← node n
  let v ← verdictOn source info operands userNames traversal
  keepVerdict n info v
  noteVerdict n source info v

/-- Evaluate an operation on its inputs. -/
def perform (n : NodeId) (userNames : Option (List Document)) (traversal : Bool := false) :
    Eval Bool := do performOn n (operandsOf (← node n)) userNames traversal

/-- Add rejected types to those of an input. -/
def rejectRow (r : RowId) (input : Link) : Typing Unit := do
  let target ← node (← require input .missingProperty)
  let entries ← row r
  modifyRow target.rejected (· ++ entries)

/-- Pass rejected types from an operation on to its inputs, given the operands they stand for. -/
def performRejectionOn (n : NodeId) (operands : List Operand)
    (userNames : Option (List Document)) (traversal : Bool) : Typing Unit := do
  let info ← operationAt n
  let source ← node n
  let rows ← Rejection.apply (operationOf info userNames) n operands traversal
  if rows.length ≠ source.ins.length then miscount info " " source.position.line
  (rows.zip source.ins).forM fun p => rejectRow p.1 p.2

/-- Pass rejected types from an operation on to its inputs. -/
def performRejection (n : NodeId) (userNames : Option (List Document))
    (traversal : Bool := false) : Typing Unit := do
  performRejectionOn n (operandsOf (← node n)) userNames traversal

end TypeFlow.Eval
