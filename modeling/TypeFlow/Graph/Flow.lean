import TypeFlow.Graph.Basic
import TypeFlow.Node.Perform

/-! # The flow of types

Types are passed forward from the nodes without inputs until nothing changes, and after each
sweep the types that operations reject are passed backward. A sweep visits a bounded number of
nodes and there is a bounded number of sweeps. -/

namespace TypeFlow.Eval

def maxSweeps : Nat := 100

/-- Largest number of visits in one sweep. -/
def maxVisits : Nat := 1000

/-- Operations whose operands are walked one by one. -/
def traversals : List String :=
  ["List_Read", "List_Write", "Set_Read", "Dict_Read", "Tuple_Read", "Tuple_Write", "JoinedStr"]

/-- The side of a branch that belongs to one of its outputs. -/
def sideFor (source : Node) (sides : RowId) (target : NodeId) : Typing RowId := do
  sideRow sides (← require (source.outs.idxOf? (some target)) .badValue)

/-- The row of types that flows from a node into another one. A branch sends one side to each of
its outputs. -/
def flowRow (source target : NodeId) : Typing RowId := do
  let node ← Eval.node source
  if node.kind.isBranch then sideFor node node.types target else typesRow source

inductive Purpose where
  | pass
  /-- To count the types that contradict those fixed by hand or recommended. -/
  | conflicts
deriving DecidableEq, Repr

/-- Pairs of a node with fixed types and an input with other ones. -/
abbrev Conflicts := List (NodeId × NodeId)

structure Visit where
  changed : Bool := false
  conflicts : Conflicts := []

/-- Types of fixed symbols stay. A contradiction is recorded, or at the top level of a module
reported. -/
def visitFixed (purpose : Purpose) (isModule : Bool) (input n : NodeId) (conflicts : Conflicts) :
    Typing Conflicts := do
  let flow ← flowRow input n
  let own := (← node n).types
  match purpose with
  | .pass => do
    if !(← identicalRows flow own) && isModule then
      let _ ← printNumbered (.group own)
      let _ ← printNumbered (.group flow)
    return conflicts
  | .conflicts => do
    if ← setIncluded (← row own) (← row flow) then return conflicts
    if (← row flow).isEmpty then return conflicts
    let conflicts := if conflicts.contains (n, input) then conflicts else conflicts ++ [(n, input)]
    let _ ← printNumbered (.group own)
    let _ ← printNumbered (.group (← node input).types)
    return conflicts

/-- Take over the types of the input of a symbol. -/
def visitInput (input n : NodeId) : Eval Bool := do
  setTag n 3
  let flow ← flowRow input n
  if ← identicalRows flow (← node n).types then return false
  setTypes n (← row flow)
  return true

/-- The types of a module's variable, for a function that reads it. -/
def globalTypes (top : GraphId) (symbol : String) : Typing (List Entry) := do
  let nodes ← require ((← graph top).symbols.get? symbol) .missingKey
  let mut types : List Entry := []
  for n in nodes do types ← (← typesAt n).foldlM Rule.addNew types
  return types

/-- A function that reads a variable of its module takes the types that it has there. -/
def fillGlobal (purpose : Purpose) (role : GraphRole) (n : NodeId) (info : SymbolInfo) :
    Eval Unit := do
  let types ← row (← node n).types
  match purpose, role with
  | .pass, .function _ top =>
    if info.scope = "global" ∧ types.isEmpty then setTypes n (← globalTypes top info.symbol)
  | _, _ => pure ()

def visitSymbol (purpose : Purpose) (role : GraphRole) (n : NodeId) (info : SymbolInfo)
    (conflicts : Conflicts) : Eval Visit := do
  let node ← Eval.node n
  match node.ins with
  | [] => do
    fillGlobal purpose role n info
    return { conflicts }
  | [link] => do
    fillGlobal purpose role n info
    let input ← require link .missingProperty
    if node.tag ≠ 1 ∧ node.tag ≠ 4 then
      return { changed := ← visitInput input n, conflicts }
    else
      return { conflicts := ← visitFixed purpose (role == .module) input n conflicts }
  | _ => throw (.rejectedValue "Symbol node should not have more than 1 input nodes.")

/-- Evaluate an operation. A call that rejects nothing is evaluated twice. -/
def visitOperation (users : List Document) (n : NodeId) (info : OperationInfo) : Eval Bool := do
  setTag n 3
  let before ← copyContents (← node n).types
  if info.op = "call" then
    if ← perform n (some users) then
      let _ ← perform n (some users)
  else
    let _ ← perform n (some users) (traversals.contains info.op)
  return !(← identicalRows before (← node n).types)

/-- Add a type to those of a merge, unless it has one that is identical. -/
def joinType (n : NodeId) (e : Entry) : Typing Unit := do
  let types := (← node n).types
  if !(← existSame e (← row types)) then append types e

/-- Add the types that flow along an edge to those of a merge. -/
def joinInput (n : NodeId) (link : Link) : Typing Unit := do
  let input ← require link .missingProperty
  (← row (← flowRow input n)).forM (joinType n)

/-- Add the types that flow along all edges to those of a merge. -/
def joinInputs (n : NodeId) : Typing Unit := do (← node n).ins.forM (joinInput n)

def visitMerge (n : NodeId) : Eval Bool := do
  setTag n 3
  let before ← copyContents (← node n).types
  setTypes n []
  joinInputs n
  return !(← identicalRows before (← node n).types)

def visitBranch (n : NodeId) : Eval Bool := do
  setTag n 3
  let before ← copyContents (← node n).types
  splitTypes n
  let after := (← node n).types
  if ← identicalRows (← sideRow before 0) (← sideRow after 0) then
    return !(← identicalRows (← sideRow before 1) (← sideRow after 1))
  else return true

/-- Bring the types of a node up to date with those of its inputs. -/
def visit (purpose : Purpose) (g : GraphId) (n : NodeId) (conflicts : Conflicts) :
    Eval Visit := do
  let graph ← graph g
  match (← node n).kind with
  | .symbol info => visitSymbol purpose graph.role n info conflicts
  | .operation info => return { changed := ← visitOperation graph.userNames n info, conflicts }
  | .known _ => do
    if purpose = .pass then setTag n 3
    return { conflicts }
  | .merge _ => return { changed := ← visitMerge n, conflicts }
  | .branch .. => return { changed := ← visitBranch n, conflicts }
  | .base => return { conflicts }

/-- A node with an input that is not final waits at the end of the queue. -/
def waitForInputs (n : NodeId) (queue : List NodeId) : List Link → Eval (List NodeId)
  | [] => return queue
  | link :: rest => do
    let input ← node (← require link .missingProperty)
    if input.label < 2 then
      setLabel n 1
      waitForInputs n (if queue.contains n then queue else queue ++ [n]) rest
    else waitForInputs n queue rest

/-- A call has to name its function to be reported. -/
def checkReport (n : Node) : Typing Unit := do
  match n.kind with
  | .operation info =>
    if n.name = "call" ∧ info.func = none then throw .wrongKind
  | _ => pure ()

/-- Queue the outputs of a node that have not been seen in this sweep. -/
def queueOutputs (queue : List NodeId) : List Link → Eval (List NodeId)
  | [] => return queue
  | link :: rest => do
    let n ← require link .missingProperty
    let node ← Eval.node n
    match node.label with
    | 0 => do
      setLabel n 1
      checkReport node
      queueOutputs (queue ++ [n]) rest
    | 1 => queueOutputs queue rest
    | _ => do
      checkReport node
      queueOutputs queue rest

/-- Visit a node if it is to be evaluated, and note whether this changed anything. -/
def evaluate (purpose : Purpose) (g : GraphId) (n : NodeId) (evaluated : Bool) (state : Visit) :
    Eval Visit :=
  if evaluated then do
    let v ← visit purpose g n state.conflicts
    return { v with changed := state.changed || v.changed }
  else return state

structure Turn where
  queue : List NodeId
  state : Visit
  /-- The inputs of the node were final. -/
  evaluated : Bool

/-- Take a node up: evaluate it if its inputs are final, and queue its outputs in any case. -/
def turn (purpose : Purpose) (g : GraphId) (n : NodeId) (queue : List NodeId) (state : Visit) :
    Eval Turn := do
  setLabel n 2
  let queue ← waitForInputs n queue (← node n).ins
  let evaluated := (← node n).label == 2
  let state ← evaluate purpose g n evaluated state
  let queue ← queueOutputs queue (← node n).outs
  return { queue, state, evaluated }

/-- Take up the nodes of a queue, at most the given number of times. -/
def sweep (purpose : Purpose) (g : GraphId) : Nat → List NodeId → Visit → Eval Visit
  | 0, _, state => return state
  | _, [], state => return state
  | fuel + 1, n :: queue, state => do
    let t ← turn purpose g n queue state
    sweep purpose g fuel t.queue t.state

def forward (purpose : Purpose) (g : GraphId) (conflicts : Conflicts) : Eval Visit := do
  let queue ← sources g
  clearLabels g
  sweep purpose g maxVisits queue { conflicts }

/-- Remove from a row what is identical to a type; the answer is what was removed. -/
def removeSame (types : RowId) (e : Entry) : Typing (Option Entry) := do
  match ← findSame e (← row types) with
  | some found => do
    modifyRow types (·.erase found)
    return some found
  | none => return none

def takeBack (types : RowId) (entries : List Entry) : Typing Unit :=
  entries.forM fun e => do let _ ← removeSame types e

/-- Take a rejected type back from the row of a symbol, and note it among those that end there if
it came in at this very symbol. -/
def takeBackNoting (info : SymbolInfo) (types : RowId) (ended : List Entry) (e : Entry) :
    Typing (List Entry) := do
  match ← removeSame types e with
  | some found => do
    let cell ← type (← found.asType)
    if cell.origin = some info.symbol ∧ cell.originOrder = some info.order then
      return ended ++ [found]
    else return ended
  | none => return ended

/-- Take rejected types back from the row of a symbol. The answer is those that came in at this
very symbol: they end their way here. -/
def takeBackEnded (info : SymbolInfo) (types : RowId) (entries : List Entry) :
    Typing (List Entry) :=
  entries.foldlM (takeBackNoting info types) []

/-- The row of rejected types to which an edge leads back. -/
def rejectedRow (source target : NodeId) : Typing RowId := do
  let node ← Eval.node source
  if node.kind.isBranch then sideFor node node.rejected target else return node.rejected

/-- Pass a rejected type back along the edge of a symbol, unless it ended there. -/
def passBack (ended : List Entry) (input n : NodeId) (e : Entry) : Typing Unit := do
  if ← existSame e (← row (← flowRow input n)) then
    if e ∉ ended then append (← rejectedRow input n) e

/-- Pass a rejected type on to an input that has it. -/
def passTo (link : Link) (e : Entry) : Typing Unit := do
  let input ← require link .missingProperty
  if ← existSame e (← typesAt input) then append (← node input).rejected e

/-- A symbol takes back types and passes them to its input. -/
def rejectAtSymbol (n : NodeId) (info : SymbolInfo) (node : Node) : Typing Unit := do
  let entries ← row node.rejected
  let ended ← takeBackEnded info node.types entries
  match node.ins with
  | [link] => do
    let input ← require link .missingProperty
    entries.forM (passBack ended input n)
  | _ => pure ()

/-- A known type cannot be taken back; the contradiction is reported. -/
def rejectAtKnown (node : Node) : Typing Unit := do
  (← row node.rejected).forM fun e => do
    if (← findSame e (← row node.types)).isSome then
      let _ ← print e

/-- An operation passes rejected types on by its rejection rule. -/
def rejectAtOperation (users : List Document) (n : NodeId) (info : OperationInfo) (node : Node) :
    Typing Unit := do
  if (← row node.rejected).isEmpty then throw (.rejectedKind "Unknown Node.")
  else performRejection n (some users) (traversals.contains info.op)

def takeBackSide (node : Node) (i : Nat) : Typing Unit := do
  (← row (← sideRow node.rejected i)).forM fun e => do
    let _ ← removeSame (← sideRow node.types i) e

/-- Pass a rejected type on to the second input of a node if there is one. -/
def passToSecond (node : Node) (e : Entry) : Typing Unit :=
  match node.ins with
  | _ :: link :: _ => passTo link e
  | _ => pure ()

/-- Each side of a branch takes back its types. The first side passes them to the first input,
the second one to the second input if there is one. -/
def rejectAtBranch (node : Node) : Typing Unit := do
  takeBackSide node 0
  takeBackSide node 1
  (← row (← sideRow node.rejected 0)).forM fun e => do passTo (← elementAt node.ins 0) e
  (← row (← sideRow node.rejected 1)).forM (passToSecond node)

/-- A merge takes back types and passes them to the inputs that have them. -/
def rejectAtMerge (node : Node) : Typing Unit := do
  let entries ← row node.rejected
  takeBack node.types entries
  node.ins.forM fun link => do
    let _ ← require link .missingProperty
    entries.forM (passTo link)

/-- Take rejected types back at a node and pass them on to its inputs. -/
def passRejected (users : List Document) (n : NodeId) (node : Node) : Typing Unit :=
  match node.kind with
  | .symbol info => rejectAtSymbol n info node
  | .known _ => rejectAtKnown node
  | .operation info => rejectAtOperation users n info node
  | .branch .. => rejectAtBranch node
  | .merge _ => rejectAtMerge node
  | .base => throw (.rejectedKind "Unknown Node.")

/-- Nothing rejected, in the form that a kind of node keeps it. -/
def noneRejected (kind : NodeKind) : Typing (List Entry) :=
  if kind.isBranch then emptySides else pure []

def reject (users : List Document) (n : NodeId) : Eval Unit := do
  let node ← Eval.node n
  passRejected users n node
  setRejected n (← noneRejected node.kind)

/-- Settle all nodes that have rejected types. The answer says that there were some. -/
def round (g : GraphId) (users : List Document) : Eval Bool := do
  let queue ← rejecting g
  queue.forM (reject users)
  return !queue.isEmpty

/-- Pass rejected types backward until none are left. -/
def backwardFrom (g : GraphId) (users : List Document) : Nat → Eval Unit
  | 0 => throw .tooDeep
  | fuel + 1 => do if ← round g users then backwardFrom g users fuel

/-- A bound for the rounds of a backward pass: every round takes a type off some row or moves a
rejected type on by one edge. -/
def rounds (s : Store) : Nat :=
  (s.nodes.size + 1) * (s.rows.foldl (fun sum r => sum + r.length) 0 + s.nodes.size + 2)

/-- Pass rejected types backward. -/
def backward (g : GraphId) : Eval Unit := do
  backwardFrom g (← graph g).userNames (rounds (← get))

/-- Sweep forward and backward until nothing changes. -/
def passFrom (g : GraphId) : Nat → Eval Unit
  | 0 => return ()
  | fuel + 1 => do
    let v ← forward .pass g []
    backward g
    if v.changed then passFrom g fuel

def passTypes (g : GraphId) : Eval Unit := passFrom g maxSweeps

/-- Sweep forward until nothing changes, collecting conflicts. -/
def conflictsFrom (g : GraphId) : Nat → Conflicts → Eval Conflicts
  | 0, conflicts => return conflicts
  | fuel + 1, conflicts => do
    let v ← forward .conflicts g conflicts
    if v.changed then conflictsFrom g fuel v.conflicts else return v.conflicts

/-- Numbers of nodes with rejected types and of conflicts with fixed types. -/
def countConflicts (g : GraphId) : Eval (Nat × Nat) := do
  let conflicts ← conflictsFrom g maxSweeps []
  return ((← rejecting g).length, conflicts.length)

end TypeFlow.Eval
