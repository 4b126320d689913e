import TypeFlow.Build.Operation

/-! # Branches

A condition on the type of a variable splits its types: each side of the `if` starts with an
occurrence of its own. Where the sides meet, the variables that either of them touched are
merged. -/

namespace TypeFlow.Build

open Program

/-! ## Tests of types -/

/-- How a condition names the type that it tests for. -/
inductive Tested where
  /-- By a name as the type itself spells it. -/
  | exact_ (e : Expr)
  | named (e : Expr)
  | literal (kind : Literal)

/-- A condition on the type of a value: the type, and whether the condition asks for it. -/
structure TypeTest where
  tested : Tested
  positive : Bool

/-- Names and attributes. -/
def isTypeName : Expr → Bool
  | .name .. | .attribute .. => true
  | _ => false

/-- What the other side of `is` says about a type. -/
def identityTest (op : CompareOp) (right : Expr) : Option TypeTest :=
  let tested? := match right with
    | .constant _ kind => some (Tested.literal kind)
    | e => if isTypeName e then some (.named e) else none
  match op with
  | .is => tested?.map (⟨·, true⟩)
  | .isNot => tested?.map (⟨·, false⟩)
  | _ => none

/-- What a comparison of the type of a value says about it. -/
def equalityTest (op : CompareOp) (right : Expr) : Option TypeTest :=
  if isTypeName right then
    match op with
    | .eq => some ⟨.exact_ right, true⟩
    | .notEq => some ⟨.exact_ right, false⟩
    | _ => none
  else none

/-- The test that a condition makes: `type(x) == t`, `x is t` or `isinstance(x, t)`. -/
def typeTest? : Expr → Option TypeTest
  | .compare _ (.call _ (.name _ func _) [_] _) [op] [right] =>
    if func = "type" then equalityTest op right else none
  | .compare _ left [op] [right] => if isTypeName left then identityTest op right else none
  | .call _ (.name _ func _) [_, type] _ =>
    if func = "isinstance" && isTypeName type then some ⟨.named type, true⟩ else none
  | _ => none

/-- The type that a path denotes; standard types are looked up under a spelling. -/
def denotedType (path spelling : String) : Build Entry := do
  if path ∈ Vocabulary.standardNames then
    match Vocabulary.denoted? spelling with
    | some name => return .type (← Eval.newType name)
    | none => throw .missingKey
  else return .type (← Eval.newType path .user)

def testedType : Tested → Build Entry
  | .exact_ e => do
    let path ← pathOf e
    denotedType path path
  | .named e => do
    let path ← pathOf e
    denotedType path (Text.lower path)
  | .literal kind => do
    match ← literalType kind with
    | some name => return .type (← Eval.newType name)
    | none => return .absent

def newBranch (test : TypeTest) (subject : Build Unit) : Build NodeId := do
  let b ← Eval.newBranch none
  reading b subject
  let t ← testedType test.tested
  Eval.setOutTypes b (← Eval.newRow (if test.positive then [t, .absent] else [.absent, t]))
  addNode b
  return b

/-! ## Both sides -/

/-- The variables of all scopes at one moment. -/
structure Snapshot where
  module : Variables
  function : Option Variables
  class_ : Option Variables
deriving Repr, Inhabited

def Snapshot.tier (s : Snapshot) : Tier → Option Variables
  | .module => some s.module
  | .function => s.function
  | .class_ => s.class_

def snapshot : Build Snapshot := do
  let w ← get
  return ⟨w.globals, vars? .function w, vars? .class_ w⟩

/-- Go back to the current nodes of a snapshot. Occurrences stay counted. -/
def restoreLatest (s : Snapshot) : Build Unit := do
  for t in [Tier.module, .function, .class_] do
    match s.tier t, vars? t (← get) with
    | some old, some v => setVariables t { v with latest := old.latest }
    | _, _ => pure ()

structure SplitVariable where
  branch : NodeId
  tier : Tier
  info : SymbolInfo
  pos : Position

def tierOf (scope : String) : Option Tier :=
  match scope with
  | "global" => some .module
  | "local" => some .function
  | "attribute" => some .class_
  | _ => none

def setBranchName (b : NodeId) (name : String) : Build Unit :=
  Eval.modifyNode b fun node =>
    { node with kind := match node.kind with
        | .branch _ outTypes => .branch (some name) outTypes
        | other => other }

/-- Find the variable of a branch and make the branch its current node. Branches on variables of
the module stay without a name. -/
def splitVariable (b : NodeId) : Build (Option SplitVariable) := do
  match (← Eval.node b).ins with
  | [] => throw .outOfRange
  | none :: _ => return none
  | some n :: _ => do
    let node ← Eval.node n
    match node.kind.symbol? with
    | none => return none
    | some info =>
      match tierOf info.scope with
      | none => return none
      | some t => do
        setLatest t info.symbol (some b)
        match ← count? t info.symbol with
        | none => throw .missingKey
        | some order =>
          if t ≠ .module then setBranchName b (info.symbol ++ toString order)
        return some ⟨b, t, info, node.position⟩

/-- Start a side of an `if` with an occurrence of the variable whose types are split. -/
def enterSide (split : Option SplitVariable) : Build Unit := do
  match split with
  | none => pure ()
  | some s => do
    let order ← again s.tier s.info.symbol
    let owner := if s.tier = .class_ then s.info.owner else none
    let n ← Eval.newSymbol
      { symbol := s.info.symbol, order, owner, scope := s.info.scope, extra := true }
    place n [some s.branch] [] s.pos
    Eval.addOutput s.branch (some n)
    setLatest s.tier s.info.symbol (some n)
    addNode n

/-- Merge two nodes of a variable into its current node. -/
def joinVariable (t : Tier) (key : String) (first second : Link) : Build Unit := do
  let m ← newMerge [first, second]
  setLatest t key (some m)
  match t with
  | .module => do
    addToModule m
    addToFunction m
  | .function => addToFunction m
  | .class_ => addNode m

/-- The current node of a variable at an earlier moment. -/
def latestIn (v : Variables) (key : String) : Build Link := do
  match v.latest.get? key with
  | some link => return link
  | none => throw .missingKey

/-- Merge a variable that had a current node before the `if`. Occurrences on the second side
count more than those on the first. -/
def joinOld (t : Tier) (before first now : Variables) (old : Link) (key : String) :
    Build Unit := do
  match first.counts.get? key, now.counts.get? key with
  | some afterFirst, some afterSecond =>
    if afterFirst ≠ afterSecond then
      let current ← latest t key
      if current.isSome then
        let other ← latestIn first key
        if other.isSome then joinVariable t key current other
    else
      match before.counts.get? key with
      | none => throw .missingKey
      | some start =>
        if start < afterSecond && old.isSome then
          let other ← latestIn first key
          if other.isSome then joinVariable t key old other
  | _, _ => pure ()

/-- Merge a variable where the sides of an `if` meet. -/
def joinSides (t : Tier) (before first : Variables) (key : String) : Build Unit := do
  let now ← vars t
  match before.latest.get? key with
  | some old => joinOld t before first now old key
  | none =>
    match first.latest.get? key, now.latest.get? key with
    | some other, some current => joinVariable t key current other
    | some other, none => setLatest t key other
    | none, _ => pure ()

/-- Merge all variables where the sides of an `if` meet. -/
def joinAll (before first : Snapshot) : Build Unit := do
  for t in [Tier.module, .function, .class_] do
    match before.tier t, first.tier t with
    | some b, some f => do
      for key in (← vars t).counts.keys do joinSides t b f key
    | _, _ => pure ()

/-- An `if` statement or a conditional expression. -/
def visitIf (test : Expr) (subject condition body orElse : Build Unit) : Build Unit := do
  let split ← match typeTest? test with
    | some t => do splitVariable (← newBranch t subject)
    | none => do
      if !test.isConstant then unusedValue condition
      pure none
  let before ← snapshot
  enterSide split
  body
  let first ← snapshot
  restoreLatest before
  enterSide split
  orElse
  joinAll before first
  match split with
  | some s => do let _ ← latest s.tier s.info.symbol
  | none => pure ()

def visitConditional (pos : Position) (test : Expr) (subject condition body orElse : Build Unit) :
    Build Unit :=
  visitUsed "IfExp" pos (visitIf test subject condition body orElse)

end TypeFlow.Build
