import TypeFlow.Proofs.Nesting

/-!
# Steps that open no body

The steps of which rules are made neither open nor close a body: they make nodes, add them to the
graph at hand and move the current nodes of variables.
-/

namespace TypeFlow.Build

variable {loud : Bool}

set_option synthInstance.maxSize 1000

namespace Levels

variable (t : Tier) (key name : String) (link : Link) (unused : Bool) (pos : Position)
    (info : SymbolInfo) (operands : Build Unit) (n : NodeId) (links : List Link)

instance vars : Levels loud (vars t) := by
  unfold Build.vars
  refine andThen fun w => ?_
  split <;> infer_instance

instance setVariables (v : Variables) : Levels loud (setVariables t v) :=
  modifies (.withVariables t v)

instance latest : Levels loud (latest t key) := by
  unfold Build.latest
  refine andThen fun v => ?_
  split <;> infer_instance

instance setLatest : Levels loud (setLatest t key link) := by
  unfold Build.setLatest
  infer_instance

instance addToModule : Levels loud (addToModule n) := by
  unfold Build.addToModule
  infer_instance

instance addToFunction : Levels loud (addToFunction n) := by
  unfold Build.addToFunction
  refine andThen fun w => ?_
  split <;> infer_instance

instance addNode : Levels loud (addNode n) := by
  unfold Build.addNode
  refine andThen fun w => ?_
  refine andThen fun w' => ?_
  split <;> infer_instance

instance operation : Levels loud operation := by
  unfold Build.operation
  refine andThen fun w => ?_
  split <;> infer_instance

instance consumer : Levels loud (consumer unused) := by
  unfold Build.consumer
  infer_instance

instance newOperation (op : String) (attr : Option String) (splitIndex : Int) :
    Levels loud (newOperation op pos attr splitIndex) := by
  unfold Build.newOperation
  infer_instance

instance place (ins outs : List Link) : Levels loud (place n ins outs pos) := by
  unfold Build.place
  infer_instance

instance newKnown (category : Category) (target : NodeId) :
    Levels loud (newKnown name category target pos) := by
  unfold Build.newKnown
  infer_instance

instance newRead (sources : List Link) : Levels loud (newRead info sources unused pos) := by
  unfold Build.newRead
  refine andThen fun target => andThen fun n => andThen fun _ => ?_
  refine loopThen (fun source _ _ => ?_) fun _ => ?_
  · cases source <;> infer_instance
  · cases target <;> infer_instance

instance newWrite : Levels loud (newWrite info pos) := by
  unfold Build.newWrite
  infer_instance

instance reading [hx : Levels loud operands] : Levels loud (reading n operands) := by
  constructor
  intro o w s hw hs
  unfold Build.reading
  rw [Leaves.modify_bind]
  refine Leaves.bind (hx.level (hw.congr rfl rfl) hs) fun _ v t ht h => ?_
  refine Leaves.modify_iff.mpr ⟨ht, h.congr rfl ⟨h.walk.top, ?_, h.walk.functions, h.walk.classes⟩⟩
  exact congrArg List.tail h.walk.pending

instance mergeName : Levels loud (mergeName links) := by
  have hpart (link : Link) : Levels loud (mergePart link) := by
    unfold mergePart
    cases link with
    | none => infer_instance
    | some n =>
      refine andThen fun node => ?_
      split
      · split <;> infer_instance
      all_goals infer_instance
  unfold Build.mergeName
  infer_instance

instance newMerge : Levels loud (newMerge links) := by
  unfold Build.newMerge
  refine andThen fun name => andThen fun m => andThen fun _ => ?_
  refine loopThen (fun link _ _ => ?_) inferInstance
  cases link <;> infer_instance

instance snapshot : Levels loud snapshot := by
  unfold Build.snapshot
  infer_instance

instance restoreLatest (before : Snapshot) : Levels loud (restoreLatest before) := by
  unfold Build.restoreLatest
  refine loopThen (fun t _ _ => andThen fun w => ?_) inferInstance
  split <;> infer_instance

instance newResult (op : NodeId) : Levels loud (newResult info op pos) := by
  unfold Build.newResult
  infer_instance

instance forgetOccurrences : Levels loud (forgetOccurrences t name) := by
  unfold Build.forgetOccurrences
  refine andThen fun w => ?_
  split <;> infer_instance

instance paramNode : Levels loud (paramNode name) := by
  unfold Build.paramNode
  refine andThen fun link => ?_
  cases link <;> infer_instance

instance paramNodeByClass : Levels loud (paramNodeByClass name) := by
  unfold Build.paramNodeByClass
  refine andThen fun w => andThen fun frame => ?_
  split <;> infer_instance

instance mergeInputs : Levels loud (mergeInputs n) := by
  unfold Build.mergeInputs
  refine andThen fun node => ?_
  dsimp only
  split
  · refine andThen fun name => andThen fun m => andThen fun _ => ?_
    refine loopThen (fun link _ _ => ?_) inferInstance
    cases link <;> infer_instance
  · infer_instance

instance mergeAllInputs (g : GraphId) : Levels loud (mergeAllInputs g) := by
  unfold Build.mergeAllInputs
  infer_instance

end Levels

end TypeFlow.Build
