import TypeFlow.Proofs.Web

/-!
# Variables of a function

What the walk does with the variables of a function that stands outside of classes, in a module
without variables of its own: every read and every write makes an occurrence, which becomes the
current node of the variable.
-/

namespace TypeFlow

variable {w : Walk} {g : GraphId} {V : Variables} {v : String}

/-- A name that denotes neither a standard type nor the receiver of a method. -/
def IsVariable (v : String) : Prop := v ∉ Vocabulary.standardNames ∧ v ≠ "self"

instance (v : String) : Decidable (IsVariable v) := inferInstanceAs (Decidable (_ ∧ _))

theorem IsVariable.not_error (h : IsVariable v) : v ∉ Vocabulary.errorNames := by
  intro hv
  exact h.1 (by simp [Vocabulary.standardNames, hv])

theorem IsVariable.not_warning (h : IsVariable v) : v ∉ Vocabulary.warningNames := by
  intro hv
  exact h.1 (by simp [Vocabulary.standardNames, hv])

/-- An operation that calls some function. -/
def NodeKind.called (func : String) (attr : Option String) : NodeKind → NodeKind
  | .operation info => .operation { info with func := some func, attr }
  | other => other

/-- A branch with the name of its variable. -/
def NodeKind.named (name : String) : NodeKind → NodeKind
  | .branch _ row => .branch (some name) row
  | other => other

theorem NodeKind.name_called (func : String) (attr : Option String) (k : NodeKind) :
    (k.called func attr).name = k.name := by
  cases k <;> rfl

namespace Variables

/-- The node from which the next read of a variable takes its types. -/
def sources (V : Variables) (v : String) : List Link :=
  match V.counts.get? v, V.latest.get? v with
  | some _, some link => [link]
  | _, _ => []

/-- The number of the next read. A variable without a current node starts again. -/
def readOrder (V : Variables) (v : String) : Nat :=
  match V.counts.get? v, V.latest.get? v with
  | some c, some _ => c + 1
  | _, _ => 0

/-- The number of the next write. -/
def writeOrder (V : Variables) (v : String) : Nat :=
  match V.counts.get? v with
  | some c => c + 1
  | none => 0

def occur (V : Variables) (v : String) (order : Nat) (n : NodeId) : Variables :=
  ⟨V.counts.insert v order, V.latest.insert v (some n)⟩

end Variables

/-- The walk is in a function outside of classes; neither the module nor its imports and classes
have names. -/
structure Inside (w : Walk) (g : GraphId) (V : Variables) : Prop where
  functions : ∃ name, w.functions = [⟨name, g, V⟩]
  classes : w.classes = []
  globals : w.globals = {}
  modules : w.modules = []
  classNames : w.classNames = []
  subscriptWrite : w.subscriptWrite = false
  augmented : w.augmented = false

namespace Inside

variable {V' : Variables}

section

variable (h : Inside w g V)

include h

theorem vars_eq : Build.vars? .function w = some V := by
  obtain ⟨name, hf⟩ := h.functions
  simp [Build.vars?, hf]

theorem withVariables (V' : Variables) : Inside (Build.withVariables .function V' w) g V' := by
  obtain ⟨name, hf⟩ := h.functions
  exact { h with functions := ⟨name, by simp [Build.withVariables, hf]⟩ }

theorem withVariables_self : Build.withVariables .function V w = w := by
  obtain ⟨name, hf⟩ := h.functions
  cases w
  simp_all [Build.withVariables]

theorem withPending (p : List NodeId) : Inside { w with pending := p } g V := { h with }

theorem withUnused (b : Bool) : Inside { w with unused := b } g V := { h with }

theorem occurs_module (v : String) : (w.globals.counts.contains v) = false := by
  simp [h.globals, Table.contains, Table.get?, Table.lookup]

end

end Inside

namespace Build

open Eval

variable {e : Prop} {s : Store} {Q : Unit → Walk → Store → Prop}

theorem meets_addHere (hw : Inside w g V) (n : NodeId)
    (h : ∀ t, t.web = s.web.enter g n → Q () w t) : Meets e (addNode n) w s Q := by
  obtain ⟨name, hf⟩ := hw.functions
  exact meets_addNode hf n h

/-- A read makes an occurrence with the current node of the variable as its source. -/
theorem meets_readVariable (hw : Inside w g V) (v : String) (unused : Bool) (pos : Position)
    (hk : ∀ n, w.consumer unused = some n → (s.web.node n).kind.isKnown = true → e)
    (h : ∀ t, t.web = (((s.web.push ⟨.symbol { symbol := v, order := V.readOrder v }, V.sources v,
        (w.consumer unused).toList.map some⟩).tell (V.sources v) s.web.fresh).take
          (w.consumer unused) s.web.fresh).enter g s.web.fresh →
      Q () (withVariables .function (V.occur v (V.readOrder v) s.web.fresh) w) t) :
    Meets e (readVariable v unused pos) w s Q := by
  obtain ⟨name, hf⟩ := hw.functions
  have hglobal : (vars? .module w).any (·.counts.contains v) = false := by
    simp [vars?, hw.occurs_module]
  -- the occurrence, once its number has been counted
  have hoccur (order : Nat) (sources : List Link) (hsources : V.sources v = sources)
      (horder : V.readOrder v = order) :
      Meets e (newRead { symbol := v, order } sources unused pos)
        (withVariables .function { V with counts := V.counts.insert v order } w) s
        fun n w' t => Meets e (setLatest .function v (some n)) w' t fun _ w' t =>
          Meets e (addToFunction n) w' t Q := by
    subst hsources horder
    refine meets_newRead _ _ _ _ hk fun t ht => ?_
    rw [meets_setLatest (vars?_withVariables hw.vars_eq _), withVariables_withVariables]
    obtain ⟨name, hf⟩ := (hw.withVariables (V.occur v (V.readOrder v) s.web.fresh)).functions
    exact meets_addToFunction hf _ fun u hu => h u (ht ▸ hu)
  unfold readVariable
  simp only [meets_bind, meets_atTop, meets_occurs, hglobal, meets_ite, meets_inFunction, hf,
    List.isEmpty_cons, Bool.false_and, Bool.or_false, Bool.not_false, if_true, Bool.false_eq_true,
    if_false]
  unfold readLocal
  simp only [meets_bind, meets_vars hw.vars_eq]
  cases hc : V.counts.get? v with
  | none =>
    simp only [Table.contains, hc, Option.isSome_none, meets_bind, meets_get, hw.modules,
      List.not_mem_nil, if_false, meets_setCount hw.vars_eq]
    exact hoccur 0 [] (by simp [Variables.sources, hc]) (by simp [Variables.readOrder, hc])
  | some c =>
    cases hl : V.latest.get? v with
    | none =>
      simp only [Table.contains, hc, Option.isSome_some, meets_bind, meets_get, hw.modules,
        List.not_mem_nil, if_false, meets_setCount hw.vars_eq]
      exact hoccur 0 [] (by simp [Variables.sources, hc, hl])
        (by simp [Variables.readOrder, hc, hl])
    | some current =>
      simp only [Table.contains, hc, Option.isSome_some, meets_bind, meets_again hw.vars_eq hc]
      exact hoccur (c + 1) [current] (by simp [Variables.sources, hc, hl])
        (by simp [Variables.readOrder, hc, hl])

/-- A write makes an occurrence that takes the result of the operation at hand. -/
theorem meets_writeVariable (hw : Inside w g V) (v : String) (pos : Position)
    (he : w.pending = [] → e)
    (h : ∀ t source rest, w.pending = source :: rest →
      t.web = ((s.web.push ⟨.symbol { symbol := v, order := V.writeOrder v, context := "Write" },
        [some source], []⟩).tell [some source] s.web.fresh).enter g s.web.fresh →
      Q () (withVariables .function (V.occur v (V.writeOrder v) s.web.fresh) w) t) :
    Meets e (writeVariable v pos) w s Q := by
  obtain ⟨name, hf⟩ := hw.functions
  have hglobal : (vars? .module w).any (·.counts.contains v) = false := by
    simp [vars?, hw.occurs_module]
  have hoccur (order : Nat) (horder : V.writeOrder v = order) :
      Meets e (newWrite { symbol := v, order } pos)
        (withVariables .function { V with counts := V.counts.insert v order } w) s
        fun n w' t => Meets e (setLatest .function v (some n)) w' t fun _ w' t =>
          Meets e (addToFunction n) w' t Q := by
    subst horder
    refine meets_newWrite _ _ he fun t source rest hsource ht => ?_
    rw [meets_setLatest (vars?_withVariables hw.vars_eq _), withVariables_withVariables]
    obtain ⟨name, hf⟩ := (hw.withVariables (V.occur v (V.writeOrder v) s.web.fresh)).functions
    exact meets_addToFunction hf _ fun u hu => h u source rest hsource (ht ▸ hu)
  unfold writeVariable
  simp only [meets_bind, meets_atTop, meets_occurs, hglobal, meets_ite, meets_inFunction, hf,
    List.isEmpty_cons, Bool.false_and, Bool.or_false, Bool.not_false, if_true, Bool.false_eq_true,
    if_false, next, meets_count? hw.vars_eq]
  cases hc : V.counts.get? v with
  | none =>
    simp only [meets_bind, meets_setCount hw.vars_eq, meets_pure]
    exact hoccur 0 (by simp [Variables.writeOrder, hc])
  | some c =>
    simp only [meets_again hw.vars_eq hc]
    exact hoccur (c + 1) (by simp [Variables.writeOrder, hc])

theorem meets_setCallee (n : NodeId) (func : String) (attr : Option String)
    (h : ∀ t, t.web = s.web.alter n (fun v => { v with kind := v.kind.called func attr }) →
      Q () w t) : Meets e (setCallee n func attr) w s Q := by
  unfold setCallee
  rw [meets_lift]
  refine meets_modifyNode n _ _ (fun node => ?_) h
  cases hk : node.kind <;> simp [Node.wired, NodeKind.called, hk]

theorem meets_loadName (hw : Inside w g V) (hv : IsVariable v) (pos : Position) :
    Meets e (visitName v .load pos) w s Q ↔ Meets e (readVariable v w.unused pos) w s Q := by
  unfold visitName isClassName
  simp [hv.1, hv.2, hv.not_error, hv.not_warning, hw.classNames, hw.classes]

theorem meets_storeName (hw : Inside w g V) (hv : IsVariable v) (pos : Position) :
    Meets e (visitName v .store pos) w s Q ↔ Meets e (writeVariable v pos) w s Q := by
  unfold visitName isClassName
  simp [hv.not_error, hv.not_warning, hw.augmented]

theorem meets_typeOperand (hw : Inside w g V) (name : String) (category : Category) (pos : Position)
    (hk : ∀ n, w.consumer false = some n →
      n.index < s.web.size ∧ ((s.web.node n).kind.isKnown = true → e))
    (hnone : w.consumer false = none → Q () w s)
    (h : ∀ t c target, w.consumer false = some target →
      t.web = ((s.web.push ⟨.known c, [], [some target]⟩).take (some target) s.web.fresh).enter g
        s.web.fresh → Q () w t) : Meets e (typeOperand name category pos) w s Q := by
  unfold typeOperand
  simp only [meets_bind, meets_consumer]
  cases htarget : w.consumer false with
  | none => exact hnone htarget
  | some target =>
    simp only [meets_bind, meets_lift]
    refine meets_newKnown _ _ _ _ fun t c ht => ?_
    refine meets_addInput _ _ ?_ fun u hu => ?_
    · rw [ht, Web.push_node_of_lt (hk target htarget).1]
      exact (hk target htarget).2
    · exact meets_addHere hw _ fun v hv => h v c target htarget (by rw [hv, hu, ht])

end Build
end TypeFlow
