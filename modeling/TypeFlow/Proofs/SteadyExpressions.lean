import TypeFlow.Proofs.Steady

/-!
# Expressions are steady

What the walk does at names, attributes, operations, calls and subscripts leaves it orderly: each
node is added where it is made, once to each graph.
-/

namespace TypeFlow.Build

open Program

variable {plain : Bool} {x : Build NodeId} {α : Type} {q : Option Bool} {P : List Known}
  {K : List Charge} {w : Walk} {s : Store} {n : NodeId}
variable (t : Tier) (key id : String) (pos : Position) (unused : Bool) (access : Access) (c : Chain)
    (visitValue visitIndex : Build Unit)

set_option synthInstance.maxSize 1000

namespace Steady

/-! ## Variables -/

instance inFunction : Steady q inFunction := .of_builds (by unfold Build.inFunction; infer_instance)

instance inClass : Steady q inClass := .of_builds (by unfold Build.inClass; infer_instance)

instance atTop : Steady q atTop := .of_builds (by unfold Build.atTop; infer_instance)

instance count? : Steady q (count? t key) :=
  .of_builds (by unfold Build.count?; infer_instance)

instance occurs : Steady q (occurs t key) := .of_builds (by
  unfold Build.occurs
  refine .andThen fun w => ?_
  split <;> infer_instance)

instance isCurrent : Steady q (isCurrent t key) := .of_builds (by
  unfold Build.isCurrent
  refine .andThen fun w => ?_
  split <;> infer_instance)

instance latest : Steady q (latest t key) := .of_builds (by
  unfold Build.latest
  refine .andThen fun v => ?_
  split <;> infer_instance)

instance again : Steady q (again t key) := .of_builds (by
  unfold Build.again
  refine .andThen fun n => ?_
  cases n <;> infer_instance)

instance next : Steady q (next t key) := .of_builds (by
  unfold Build.next
  refine .andThen fun n => ?_
  cases n <;> infer_instance)

instance forget : Steady q (forget t key) :=
  .of_builds (by unfold Build.forget; infer_instance)

instance graphAtHand : Steady q graphAtHand := .of_builds (by
  unfold Build.graphAtHand
  refine .andThen fun w => ?_
  split <;> infer_instance)

instance takeUnused : Steady q takeUnused := modifiesGet fun _ => ⟨⟨rfl, rfl, rfl, rfl⟩, rfl, rfl⟩

instance unusedValue (act : Build Unit) [Steady q act] :
    Steady q (unusedValue act) := .of_builds (by
  unfold Build.unusedValue
  have hflag (b : Bool) : Steady q (modify fun w : Walk => { w with unused := b } : Build PUnit) :=
    modifies fun _ => ⟨⟨rfl, rfl, rfl, rfl⟩, rfl, rfl⟩
  infer_instance)

end Steady

/-! ## Names -/

/-- A computation that gives a node which may be added to the graph at hand. -/
class Spares (q : Option Bool) (x : Build NodeId) : Prop where
  run : ∀ {o : Origin} {K : List Charge} {w : Walk} {s : Store}, w.Holds o K s →
    Meets True x w s fun n w' t => w'.Holds o (.spare n :: K) t ∧ w.Extends s w' t
  level : ∀ loud ∈ q, Levels loud x

namespace Spares

instance makes (x : Build NodeId) [hx : Makes q plain x] : Spares q x := by
  refine ⟨?_, hx.level⟩
  intro o K w s hw
  refine (hx.run hw).imp fun n w' t h => ⟨?_, h.2.1⟩
  exact (Offers.fresh_spare n []).offer h.1

theorem andThen {x : Build α} {f : α → Build NodeId} [hx : Steady q x] (hf : ∀ a, Spares q (f a)) :
    Spares q (x >>= f) := by
  refine ⟨?_, level_bind hx.level fun a => (hf a).level⟩
  intro o K w s hw
  rw [meets_bind]
  refine (hx.run hw).imp fun a w' t h => ?_
  exact ((hf a).run h.1).imp fun _ _ _ h' => ⟨h'.1, h.2.trans h'.2⟩

/-- A node that the module gets as well, when a function is being read. -/
theorem lend [hx : Makes q plain x] : Spares q (do
    let n ← x
    if ← inFunction then addToModule n
    return n) := by
  refine ⟨?_, level_bind hx.level fun _ => inferInstance⟩
  intro o K w s hw
  rw [meets_bind]
  refine (hx.run hw).imp fun n w' t h => ?_
  obtain ⟨hw', he, -⟩ := h
  rw [meets_bind, meets_inFunction]
  cases hframes : w'.functions with
  | nil => exact ⟨(Offers.fresh_spare n []).offer hw', he⟩
  | cons f rest =>
    have hadd : w'.Extends t w' (t.added w'.top n) := .added hw'.orderly.framed.opened.2
    have hrun : addToModule n w' t = .ok ((), w') (t.added w'.top n) :=
      Eval.bind_of_ok (Eval.addNode_apply w'.top n t) _
    simp only [List.isEmpty_cons, Bool.not_false, if_true]
    rw [meets_bind]
    refine (Eval.meets_of_eq hrun).mpr ⟨?_, he.trans hadd⟩
    have hinner := hw'.listTop
    refine hinner.weaken rfl ⟨hinner.clear (.inner n) (.head _), fun hnil => ?_⟩
    rw [hframes] at hnil
    cases hnil

end Spares

instance Builds.spares (x : Build NodeId) (f : NodeId → Build α) [hx : Spares q x]
    [hf : ∀ n, Builds q P (.spare n :: K) (f n)] : Builds q P K (x >>= f) :=
  seq (fun _ => []) (.spare · :: K) hx.level
    (fun hw _ => (hx.run hw).imp fun _ _ _ h => ⟨h.1, h.2, by simp⟩) hf

theorem builds_lend {f : NodeId → Build α} [Makes q plain x]
    (hf : ∀ n, Builds q P (.spare n :: K) (f n)) : Builds q P K (do
      let n ← x
      if ← inFunction then addToModule n
      f n) := by
  have := Spares.lend (q := q) (x := x)
  have h : Builds q P K ((do
      let n ← x
      if ← inFunction then addToModule n
      return n) >>= f) := inferInstance
  convert h using 1
  simp only [bind_assoc]
  refine bind_congr fun n => bind_congr fun inner => ?_
  cases inner <;> simp

namespace Steady

instance pathOf (e : Expr) : Steady q (pathOf e) := ofExcept _

instance literalType (kind : Literal) : Steady q (literalType kind) := ofExcept _

instance typeOperand (name : String) (category : Category) :
    Steady q (typeOperand name category pos) := .of_builds (by
  unfold Build.typeOperand
  refine @Builds.consumer _ _ _ _ _ _ ?_ ?_
  · infer_instance
  · infer_instance)

instance readConstant (kind : Literal) : Steady q (readConstant kind pos) :=
  .of_builds (by
    unfold Build.readConstant
    refine .andThen fun w => ?_
    split
    · infer_instance
    · refine .andThen fun name => ?_
      cases name <;> infer_instance)

instance readReceiver : Steady q (readReceiver pos) := .of_builds (by
  unfold Build.readReceiver
  refine .andThen fun w => ?_
  split <;> infer_instance)

instance readModule : Steady q (readModule id unused pos) := .of_builds (by
  unfold Build.readModule
  infer_instance)

end Steady

namespace Spares

instance rereadGlobal (current : Option Link) : Spares q (rereadGlobal key current unused pos) := by
  unfold Build.rereadGlobal
  refine andThen fun order => ?_
  dsimp only
  split
  · infer_instance
  · exact lend

end Spares

namespace Steady

variable (value : Build Unit)

instance readGlobal : Steady q (readGlobal id unused pos) := .of_builds (by
  unfold Build.readGlobal
  infer_instance)

instance readLocal : Steady q (readLocal id unused pos) := .of_builds (by
  unfold Build.readLocal
  refine .andThen fun v => ?_
  split <;> infer_instance)

instance readVariable : Steady q (readVariable id unused pos) := .of_builds (by
  unfold Build.readVariable
  infer_instance)

instance writeVariable : Steady q (writeVariable id pos) :=
  .of_builds (by
    unfold Build.writeVariable
    infer_instance)

instance deleteVariable : Steady q (deleteVariable id) := .of_builds (by
  unfold Build.deleteVariable
  dsimp only
  infer_instance)

instance isClassName : Steady q (isClassName id) := .of_builds (by
  unfold Build.isClassName
  infer_instance)

instance visitName : Steady q (visitName id access pos) := .of_builds (by
  unfold Build.visitName
  dsimp only
  infer_instance)

/-! ## Attributes -/

instance isRead : Steady q (isRead access) := .of_builds (by
  unfold Build.isRead
  infer_instance)

instance takeAttribute [Steady q value] : Steady q (takeAttribute c value) := .of_builds (by
  unfold Build.takeAttribute
  infer_instance)

instance visitPlain [Steady q value] : Steady q (visitPlain c value) := .of_builds (by
  unfold Build.visitPlain
  infer_instance)

instance ownAttribute (order : Nat) : Steady q (ownAttribute c order) := .of_builds (by
  unfold Build.ownAttribute
  refine .andThen fun w => ?_
  split <;> infer_instance)

instance readOwn : Steady q (readOwn c) := .of_builds (by
  unfold Build.readOwn
  dsimp only
  refine .andThen fun inClass => ?_
  split
  · infer_instance
  · refine .andThen fun v => ?_
    split
    · refine .andThen fun order => .andThen fun info => ?_
      split
      · infer_instance
      · refine builds_lend fun n => ?_
        infer_instance
    · infer_instance)

instance writeOwn : Steady q (writeOwn c) := .of_builds (by
  unfold Build.writeOwn
  infer_instance)

instance visitOwn : Steady q (visitOwn c) := .of_builds (by
  unfold Build.visitOwn deleteOwn
  infer_instance)

instance isFresh : Steady q (isFresh t key) := .of_builds (by
  unfold Build.isFresh
  infer_instance)

instance readFresh [Steady q value] : Steady q (readFresh c value) := .of_builds (by
  unfold Build.readFresh
  dsimp only
  refine .andThen fun op => .andThen fun inner => ?_
  cases inner
  · simp only [Bool.false_eq_true, if_false, if_true]
    infer_instance
  · simp only [reduceCtorEq, if_false, if_true]
    infer_instance)

instance writeFresh : Steady q (writeFresh c) := .of_builds (by
  unfold Build.writeFresh
  infer_instance)

end Steady

instance Spares.rereadChain (keepsGap : Bool) : Spares q (rereadChain c keepsGap) := by
  unfold Build.rereadChain
  refine andThen fun order => ?_
  dsimp only
  refine andThen fun current => ?_
  have : Steady q (consumer c.unused) := .of_builds (by
    unfold Build.consumer
    infer_instance)
  cases current with
  | some n => infer_instance
  | none => exact andThen fun target => lend

namespace Steady

variable {operands : List Operand} (value : Build Unit) (before op : NodeId) (link : Link)
  (info : SymbolInfo) (func : Expr)

instance visitKnownGlobal : Steady q (visitKnownGlobal c) := .of_builds (by
  unfold Build.visitKnownGlobal
  infer_instance)

instance rereadLocal : Steady q (rereadLocal c) := .of_builds (by
  unfold Build.rereadLocal
  infer_instance)

instance visitKnownLocal : Steady q (visitKnownLocal c) := .of_builds (by
  unfold Build.visitKnownLocal
  infer_instance)

instance visitShort [Steady q value] : Steady q (visitShort c value) := .of_builds (by
  unfold Build.visitShort
  infer_instance)

instance readLongGlobal : Steady q (readLongGlobal c) := .of_builds (by
  unfold Build.readLongGlobal
  infer_instance)

instance readLongLocal : Steady q (readLongLocal c) := .of_builds (by
  unfold Build.readLongLocal
  infer_instance)

instance writeLong : Steady q (writeLong c) := .of_builds (by
  unfold Build.writeLong
  dsimp only
  infer_instance)

instance visitLong : Steady q (visitLong c) := .of_builds (by
  unfold Build.visitLong
  dsimp only
  infer_instance)

instance visitAttribute (value : Expr) (attr : String) [Steady q visitValue] :
    Steady q (visitAttribute value attr access pos visitValue) := .of_builds (by
  unfold Build.visitAttribute
  infer_instance)

/-! ## Operations -/

instance visitOperation (op : String) (operands : Build Unit) [Steady q operands] :
    Steady q (visitOperation op pos operands) := .of_builds (by
  unfold Build.visitOperation
  infer_instance)

instance visitUsed (op : String) (operands : Build Unit) [Steady q operands] :
    Steady q (visitUsed op pos operands) := .of_builds (by
  unfold Build.visitUsed
  infer_instance)

section

variable (h : ∀ operand ∈ operands, Steady q operand.visit)

include h

theorem visitEach : Steady q (visitEach operands) :=
  .of_builds (.forM_of_mem fun operand ho => @Builds.of_steady _ _ _ _ _ (h operand ho))

theorem chainOperands {op : String} : Steady q (chainOperands op before operands) := by
  induction operands generalizing before with
  | nil => exact .of_builds (.pure before)
  | cons operand rest ih =>
    have := h operand (.head _)
    have hrest (n : NodeId) := ih n fun operand ho => h operand (.tail _ ho)
    refine .of_builds ?_
    unfold Build.chainOperands
    infer_instance

theorem visitChoice {op : BoolOp} {pos : Position} : Steady q (visitChoice op pos operands) := by
  have : Steady q (Build.visitEach (operands.take 2)) :=
    visitEach fun o ho => h o (List.mem_of_mem_take ho)
  have (n : NodeId) : Steady q (Build.chainOperands op.symbol n (operands.drop 2)) :=
    chainOperands n fun o ho => h o (List.mem_of_mem_drop ho)
  refine .of_builds ?_
  unfold Build.visitChoice
  infer_instance

end

instance visitComparison (op : CompareOp) (pos : Position) (left right : Operand)
    [Steady q left.visit] [Steady q right.visit] :
    Steady q (visitComparison op pos left right) := .of_builds (by
  unfold Build.visitComparison
  infer_instance)

theorem chainComparisons {ops : List (CompareOp × Operand)} (left : Operand)
    [hleft : Steady q left.visit] (h : ∀ o ∈ ops, Steady q o.2.visit) :
    Steady q (chainComparisons before left ops) := by
  induction ops generalizing before left with
  | nil => exact .of_builds (.pure before)
  | cons o rest ih =>
    have := h o (.head _)
    have hrest (n : NodeId) := ih n o.2 fun o ho => h o (.tail _ ho)
    refine .of_builds ?_
    unfold Build.chainComparisons
    infer_instance

theorem visitComparisons {pos : Position} {left : Operand} {ops : List CompareOp}
    {comparators : List Operand} [Steady q left.visit]
    (h : ∀ operand ∈ comparators, Steady q operand.visit) :
    Steady q (visitComparisons pos left ops comparators) := .of_builds (by
  unfold Build.visitComparisons
  refine .andThen fun unused => ?_
  have hzip : ∀ o ∈ ops.zip comparators, Steady q o.2.visit :=
    fun o ho => h o.2 (List.of_mem_zip ho).2
  cases ho : ops.zip comparators with
  | nil => infer_instance
  | cons o rest =>
    rw [ho] at hzip
    have := hzip o (.head _)
    have hrest (n : NodeId) := chainComparisons n o.2 fun o ho => hzip o (.tail _ ho)
    infer_instance)

instance visitDisplay (op : String) (elements : Build Unit) (splitIndex : Int) [Steady q elements] :
    Steady q (visitDisplay op pos elements splitIndex) := .of_builds (by
  unfold Build.visitDisplay
  infer_instance)

instance visitSequence (noun : String) (elements : Build Unit) [Steady q elements] :
    Steady q (visitSequence noun access pos elements) := .of_builds (by
  unfold Build.visitSequence visitUnpacking
  infer_instance)

instance visitLambda : Steady q (visitLambda pos) := .of_builds (by
  unfold Build.visitLambda
  infer_instance)

instance visitClause (iterPos : Position) (target iter conditions : Build Unit)
    [Steady q target] [Steady q iter] [Steady q conditions] :
    Steady q (visitClause iterPos target iter conditions) := .of_builds (by
  unfold Build.visitClause
  have hflag (b : Bool) : Steady q (modify fun w : Walk => { w with binding := b } : Build PUnit) :=
    modifies fun _ => ⟨⟨rfl, rfl, rfl, rfl⟩, rfl, rfl⟩
  infer_instance)

instance visitComprehension (op : String) (pos : Position) (clauses element : Build Unit)
    [Steady q clauses] [Steady q element] :
    Steady q (visitComprehension op pos clauses element) := .of_builds (by
  unfold Build.visitComprehension
  infer_instance)

instance resultSymbol : Steady q resultSymbol := .of_builds (by
  unfold Build.resultSymbol
  refine .andThen fun w => ?_
  split <;> infer_instance)

instance visitYield [Steady q value] : Steady q (visitYield pos value) := .of_builds (by
  unfold Build.visitYield
  dsimp only
  infer_instance)

/-! ## Calls and subscripts -/

instance firstInput : Steady q (firstInput op) := .of_builds (by
  unfold Build.firstInput
  refine .andThen fun node => ?_
  split <;> infer_instance)

instance symbolAt : Steady q (symbolAt link) := .of_builds (by
  unfold Build.symbolAt
  cases link <;> infer_instance)

instance changeReceiver : Steady q (changeReceiver op info pos) := .of_builds (by
  unfold Build.changeReceiver
  dsimp only
  simp only [pure_bind]
  infer_instance)

instance setCallee (func : String) (attr : Option String) : Steady q (setCallee op func attr) := by
  refine modifyNode (fun node => ?_) (fun _ => ⟨rfl, rfl⟩) fun _ => rfl
  obtain ⟨kind, _⟩ := node
  cases kind <;> rfl

instance visitCallee (receiver arguments : Build Unit) [Steady q receiver] [Steady q arguments] :
    Steady q (visitCallee op func receiver arguments) := .of_builds (by
  unfold Build.visitCallee
  split
  · infer_instance
  · refine .andThen fun path => ?_
    split
    · infer_instance
    · refine .andThen fun _ => .andThen fun _ => .andThen fun _ => .andThen fun _ =>
        .andThen fun _ => ?_
      split
      · refine .andThen fun first => .andThen fun found => ?_
        cases found <;> infer_instance
      · infer_instance
  · infer_instance)

instance visitCall (pos : Position) (receiver arguments : Build Unit) [Steady q receiver]
    [Steady q arguments] : Steady q (visitCall func pos receiver arguments) := .of_builds (by
  unfold Build.visitCall
  infer_instance)

instance findOperation (op : String) : Steady q (findOperation op pos) :=
  .of_builds (by
    have hfind (nodes : List NodeId) : Builds q [] [] (nodes.findM? fun n => do
        let node ← Eval.node n
        return node.position == pos && node.kind.operation?.any (·.op == op) : Build _) := by
      induction nodes with
      | nil => exact .pure none
      | cons n rest ih =>
        rw [List.findM?]
        refine .andThen fun found => ?_
        cases found <;> infer_instance
    unfold Build.findOperation
    infer_instance)

instance changeContainer : Steady q (changeContainer op info pos) := .of_builds (by
  unfold Build.changeContainer
  simp only [pure_bind]
  infer_instance)

instance changeSelf : Steady q (changeSelf op pos) := .of_builds (by
  unfold Build.changeSelf
  refine .andThen fun w => ?_
  split <;> infer_instance)

instance positionAt : Steady q (positionAt link) := .of_builds (by
  unfold Build.positionAt
  cases link <;> infer_instance)

end Steady

instance Builds.visitContainer (op : NodeId) (nested : Bool) (value : Expr)
    (visitValue : Build Unit) [Knows (.target op) P] [Steady q visitValue] :
    Builds q P K (visitContainer op nested value visitValue) := by
  unfold Build.visitContainer
  split
  · refine andThen fun found => ?_
    cases found <;> infer_instance
  · infer_instance

namespace Steady

instance writeElement (value : Expr) (nested : Bool) [Steady q visitValue] [Steady q visitIndex] :
    Steady q (writeElement value pos unused nested visitValue visitIndex) := .of_builds (by
  have hflag (b : Bool) :
      Steady q (modify fun w : Walk => { w with subscriptWrite := b } : Build PUnit) :=
    modifies fun _ => ⟨⟨rfl, rfl, rfl, rfl⟩, rfl, rfl⟩
  unfold Build.writeElement
  refine @Builds.opens _ _ _ _ _ _ _ fun op => ?_
  refine .andThen fun _ => .andThen fun first => .andThen fun found => ?_
  cases found <;> infer_instance)

instance readElement [Steady q visitValue] [Steady q visitIndex] :
    Steady q (readElement pos unused visitValue visitIndex) := .of_builds (by
  unfold Build.readElement
  infer_instance)

instance visitSubscript (value : Expr) [Steady q visitValue] [Steady q visitIndex] :
    Steady q (visitSubscript value access pos visitValue visitIndex) := .of_builds (by
  have hnested : Steady q (MonadStateOf.modifyGet fun w : Walk =>
      (w.subscriptWrite, { w with subscriptWrite := false }) : Build Bool) :=
    modifiesGet fun _ => ⟨⟨rfl, rfl, rfl, rfl⟩, rfl, rfl⟩
  unfold Build.visitSubscript
  infer_instance)

end Steady

end TypeFlow.Build
