import TypeFlow.Graph.Basic

/-! # Pruning

Merges and branches that feed nothing are removed from a graph, and then those that fed only
them. Nodes behind a branch are kept. -/

namespace TypeFlow.Eval

def isBranchLink (link : Link) : Eval Bool := do
  match link with
  | some n => return (← node n).kind.isBranch
  | none => return false

/-- A node feeds nothing, and no branch feeds it. -/
def isDead (n : NodeId) : Eval Bool := do
  let node ← Eval.node n
  if !node.outs.isEmpty then return false
  return !(← node.ins.anyM isBranchLink)

/-- Take an output from the node at the end of an edge. -/
def dropOutput (n : NodeId) : Link → Eval Unit
  | some source => modifyNode source fun node => { node with outs := node.outs.erase (some n) }
  | none => throw .missingProperty

def dropNode (g : GraphId) (n : NodeId) : Eval Unit := do
  (← node n).ins.forM (dropOutput n)
  modifyGraph g fun graph =>
    { graph with
      merges := graph.merges.erase n
      branches := graph.branches.erase n
      nodes := graph.nodes.erase n }

/-- Remove dead nodes, at most as many times as given. -/
def pruneRounds (g : GraphId) (candidates : Graph → List NodeId) : Nat → Eval Unit
  | 0 => pure ()
  | fuel + 1 => do
    match ← (candidates (← graph g)).filterM isDead with
    | [] => pure ()
    | dead => do
      dead.forM (dropNode g)
      pruneRounds g candidates fuel

/-- Remove dead nodes as long as there are some. Every round removes at least one. -/
def pruneKind (g : GraphId) (candidates : Graph → List NodeId) : Eval Unit := do
  pruneRounds g candidates ((candidates (← graph g)).length + 1)

/-- Remove the merges and then the branches that feed nothing. -/
def prune (g : GraphId) : Eval Unit := do
  pruneKind g (·.merges)
  pruneKind g (·.branches)

end TypeFlow.Eval
