import TypeFlow.Graph.Basic

/-! # Definition paths and dominance

A definition path of a node leads from a node without inputs, or in a function from a call, to
the node. A variable dominates another one when the types of the second only wait for the first. -/

namespace TypeFlow.Eval

/-- No path is longer, and no chain of missing types is followed further, than this. -/
def maxDepth : Nat := 100

/-- The node at the end of an edge, which has to be there. -/
def linkNode (link : Link) : Eval Node := do
  node (← require link .missingProperty)

def isPathStart (local? : Bool) (n : Node) : Bool :=
  n.ins.isEmpty || (local? && match n.kind with
    | .operation info => info.op == "call"
    | _ => false)

/-- Paths do not go through variables from outside of a function. -/
def isPathStep (local? : Bool) (n : Node) : Bool :=
  !(local? && match n.kind with
    | .symbol info => info.scope != "local"
    | _ => false)

/-- The paths to a node that avoid nodes already on the way. -/
def pathsTo (local? : Bool) : Nat → Link → List Link → Eval (List (List Link))
  | 0, link, _ => do
    if isPathStart local? (← linkNode link) then return [[link]] else return []
  | fuel + 1, link, passed => do
    let n ← linkNode link
    if isPathStart local? n then return [[link]]
    let mut found : List (List Link) := []
    for input in n.ins do
      if input ∈ passed then continue
      let follows ← match input with
        | some i => do pure (isPathStep local? (← node i))
        | none => pure true
      if follows then
        found := found ++ (← pathsTo local? fuel input (passed ++ [link]))
    return found.map (· ++ [link])

def numberOf (n : NodeId) : Eval Int := do
  require (Text.lastPiece (← node n).id "@").toInt? .badValue

/-- Nodes with a smaller number. -/
def countBefore (number : Int) (nodes : List NodeId) : Eval Nat := do
  let mut count := 0
  for n in nodes do
    if (← numberOf n) < number then count := count + 1
  return count

/-- The definition paths of a node. In a function with many branches and merges before the node
there are too many to list. -/
def definitionPaths (g : GraphId) (n : NodeId) : Eval (List (List Link)) := do
  let graph ← graph g
  if graph.isModule then pathsTo false (maxDepth + 1) (some n) []
  else
    let number ← numberOf n
    let branches ← countBefore number graph.branches
    let merges ← countBefore number graph.merges
    if 15 ≤ branches + merges then return []
    pathsTo true (maxDepth + 1) (some n) []

/-- The inputs of a node without types. `none` when one of them is a call of a method through an
attribute, of which nothing will be known. -/
def emptyInputs : List Link → Eval (Option (List NodeId))
  | [] => return some []
  | link :: rest => do
    let n ← require link .missingProperty
    if ← isUntyped n then
      match (← node n).kind with
      | .operation { op := "call", func := some func, .. } =>
        if Text.has func "_@_" then return none
      | _ => pure ()
      return (← emptyInputs rest).map (n :: ·)
    else emptyInputs rest

def all (test : NodeId → Eval Bool) : List NodeId → Eval Bool
  | [] => return true
  | n :: rest => do if ← test n then all test rest else return false

/-- Everything that a node still waits for comes from nodes that `settled` accepts. `flows` says
that those nodes flow anywhere at all. -/
def waitsOnly (flows : Bool) (settled : NodeId → Bool) : Nat → NodeId → Eval Bool
  | 0, _ => return false
  | fuel + 1, n => do
    if !flows then return false
    if settled n then return true
    match ← emptyInputs (← node n).ins with
    | none => return false
    | some [] => return false
    | some inputs => all (waitsOnly flows settled fuel) inputs

/-- The types of the second node only wait for the first one. `depth` is how deep the question
already is. -/
def dominates (a b : NodeId) (depth : Int := 0) : Eval Bool := do
  let flows := !(← node a).outs.isEmpty
  waitsOnly flows (· == a) (maxDepth + 1 - depth).toNat b

/-- The types of a node only wait for nodes of a set. -/
def setDominates (set : List NodeId) (b : NodeId) (depth : Int := 0) : Eval Bool := do
  let outs ← set.mapM fun n => do return (← node n).outs
  waitsOnly (outs.any fun l => !l.isEmpty) (set.contains ·) (maxDepth + 1 - depth).toNat b

/-- Remove nodes from a queue, one occurrence for each. -/
def withoutNodes (queue removed : List NodeId) : List NodeId := removed.foldl List.erase queue

/-- A node's only type is `None`. -/
def isOnlyNone (n : NodeId) : Eval Bool := do
  match ← typesAt n with
  | [e] => return Text.lower (← type (← e.asType)).name == "none"
  | _ => return false

/-- The variables whose types would settle those of all others: no other variable without types
dominates them, alone or together. Arguments that are only known to be `None` count too, results
that nothing flows into do not. -/
def hotSymbols (g : GraphId) : Eval (List NodeId) := do
  let graph ← graph g
  if graph.isModule then throw .missingProperty
  let queue ← emptySymbols g
  let mut removed : List NodeId := []
  for (a, i) in queue.zipIdx do
    for (b, j) in queue.zipIdx do
      if i ≠ j then
        if ← dominates a b then removed := removed ++ [b]
  let queue := withoutNodes queue removed
  let covered ← queue.filterM fun n => setDominates (queue.erase n) n
  let mut queue := withoutNodes queue covered
  for n in graph.arguments do
    if ← isOnlyNone n then
      if !queue.contains n then queue := queue ++ [n]
  let idle ← queue.filterM fun n => do
    let node ← Eval.node n
    return node.ins.isEmpty && (node.kind.symbol?.any (·.context == "Return"))
  return withoutNodes queue idle

end TypeFlow.Eval
