import TypeFlow.Proofs.Features
import TypeFlow.Proofs.Walking

/-!
# What every rule of the walk keeps

A program is read by one rule for each form of expression and statement. A property of
computations that every rule keeps holds of the walk over every program. The rules may ask for
programs whose features are among admitted ones, and expressions may have a property of their own.
While the handlers of a statement are read, another property may be in place; it has to be the same
one only where the handlers of a `try` statement each take a part of a group of errors.
-/

namespace TypeFlow

namespace Program

mutual

/-- No `try` statement inside of a statement splits groups of errors. -/
def Stmt.starless : Stmt → Bool
  | .function _ _ _ body _ _ | .class_ _ _ _ _ body _ | .with_ _ _ body => starlessBody body
  | .for_ _ _ _ body orElse | .while_ _ _ body orElse | .if_ _ _ body orElse =>
    starlessBody body && starlessBody orElse
  | .match_ _ cases => starlessCases cases
  | .try_ body handlers orElse finalBody =>
    starlessBody body && starlessHandlers handlers && starlessBody orElse &&
      starlessBody finalBody
  | .tryStar .. => false
  | _ => true

/-- No `try` statement inside of statements splits groups of errors. -/
def starlessBody : List Stmt → Bool
  | [] => true
  | s :: rest => s.starless && starlessBody rest

/-- No `try` statement inside of a handler splits groups of errors. -/
def Handler.starless : Handler → Bool
  | .mk _ _ _ body => starlessBody body

/-- No `try` statement inside of handlers splits groups of errors. -/
def starlessHandlers : List Handler → Bool
  | [] => true
  | h :: rest => h.starless && starlessHandlers rest

/-- No `try` statement inside of a case splits groups of errors. -/
def Case.starless : Case → Bool
  | .mk _ _ body => starlessBody body

/-- No `try` statement inside of cases splits groups of errors. -/
def starlessCases : List Case → Bool
  | [] => true
  | c :: rest => c.starless && starlessCases rest

end

end Program

namespace Build

open Program

variable {P : Feature → Prop} {E Φ Ψ : Build Unit → Prop} {around : Build Unit → Build Unit}
  (o : BuildOptions) (program : Module) (s : Store)

def Admits (P : Feature → Prop) (l : List Feature) : Prop := ∀ φ ∈ l, P φ

namespace Admits

variable {φ : Feature} {l m : List Feature}

theorem head (h : Admits P (φ :: l)) : P φ := h φ (.head _)

theorem tail (h : Admits P (φ :: l)) : Admits P l := fun ψ hψ => h ψ (.tail _ hψ)

theorem left (h : Admits P (l ++ m)) : Admits P l := fun ψ hψ => h ψ (List.mem_append_left _ hψ)

theorem right (h : Admits P (l ++ m)) : Admits P m := fun ψ hψ => h ψ (List.mem_append_right _ hψ)

theorem of_forall (h : ∀ φ, P φ) : Admits P l := fun φ _ => h φ

end Admits

/-- The rules for expressions with admitted features keep a property, and so does what is done
around every visit. -/
structure ExprRules (around : Build Unit → Build Unit) (P : Feature → Prop)
    (Φ : Build Unit → Prop) : Prop where
  visit : ∀ {x}, Φ x → Φ (around x)
  skip : Φ (pure ())
  seq : ∀ {x y}, Φ x → Φ y → Φ (do x; y)
  choice : ∀ {op pos operands}, (∀ o ∈ operands, Φ o.visit) → Φ (visitChoice op pos operands)
  operation : ∀ {op pos x}, Φ x → Φ (visitOperation op pos x)
  used : ∀ {op pos x}, Φ x → Φ (visitUsed op pos x)
  lambda : ∀ {pos}, Φ (visitLambda pos)
  branching : ∀ {f : Fork}, P (.fork f) → Φ (visitSubject around f.test) →
    Φ (visitExpr around f.test) → Φ (f.body around) → Φ (f.orElse around) →
    Φ (visitIf f.test (visitSubject around f.test) (visitExpr around f.test) (f.body around)
      (f.orElse around))
  display : ∀ {op pos x i}, Φ x → Φ (visitDisplay op pos x i)
  clause : ∀ {pos target iter conditions}, Φ target → Φ iter → Φ conditions →
    Φ (visitClause pos target iter conditions)
  comprehension : ∀ {op pos clauses element}, Φ clauses → Φ element →
    Φ (visitComprehension op pos clauses element)
  yield : ∀ {pos x}, Φ x → Φ (visitYield pos x)
  comparisons : ∀ {pos left ops comparators}, Φ left.visit → (∀ o ∈ comparators, Φ o.visit) →
    Φ (visitComparisons pos left ops comparators)
  call : ∀ {func pos receiver arguments}, Φ receiver → Φ arguments →
    Φ (visitCall func pos receiver arguments)
  constant : ∀ {kind pos}, Φ (readConstant kind pos)
  member : ∀ {value attr access pos x}, P (.access access) → Φ x →
    Φ (visitAttribute value attr access pos x)
  subscript : ∀ {value access pos x y}, Φ x → Φ y → Φ (visitSubscript value access pos x y)
  name : ∀ {id access pos}, P (.access access) → Φ (visitName id access pos)
  sequence : ∀ {noun access pos x}, Φ x → Φ (visitSequence noun access pos x)

namespace ExprRules

theorem each (h : ExprRules around P Φ) {operands : List Operand} (ho : ∀ o ∈ operands, Φ o.visit) :
    Φ (visitEach operands) := by
  induction operands with
  | nil => exact h.skip
  | cons o rest ih => exact h.seq (ho o (.head _)) (ih fun o hr => ho o (.tail _ hr))

mutual

/-- What the rules for expressions keep holds of every expression with admitted features. -/
theorem expr (h : ExprRules around P Φ) (e : Expr) (hp : Admits P e.features) :
    Φ (visitExpr around e) := by
  unfold visitExpr
  apply h.visit
  match e with
  | .boolOp _ _ values => exact h.choice (operands h values hp)
  | .named _ target value => exact h.seq (expr h target hp.left) (expr h value hp.right)
  | .binary _ _ left right =>
    exact h.operation (h.seq (expr h left hp.left) (expr h right hp.right))
  | .unary _ _ operand => exact h.operation (expr h operand hp)
  | .lambda .. => exact h.lambda
  | .conditional _ test body orElse =>
    have ht := hp.tail.left
    exact h.used (h.branching hp.head (subject h test ht) (expr h test ht)
      (expr h body hp.tail.right.left) (expr h orElse hp.tail.right.right))
  | .dict _ ks values =>
    exact h.display (h.seq (keys h ks hp.left) (h.each (operands h values hp.right)))
  | .set _ elements => exact h.display (h.each (operands h elements hp))
  | .comprehension _ _ element cs =>
    exact h.comprehension (clauses h cs hp.left) (expr h element hp.right)
  | .dictComprehension _ key value cs =>
    exact h.comprehension (clauses h cs hp.left)
      (h.seq (expr h key hp.right.left) (expr h value hp.right.right))
  | .await _ value => exact expr h value hp
  | .yield _ value => exact h.yield (expr? h value hp)
  | .yieldFrom _ value => exact h.yield (expr h value hp)
  | .compare _ left _ comparators =>
    exact h.comparisons (expr h left hp.left) (operands h comparators hp.right)
  | .call _ func args named =>
    exact h.call (object h func hp.left)
      (h.seq (h.each (operands h args hp.right.left)) (keywords h named hp.right.right))
  | .formatted _ value spec => exact h.seq (expr h value hp.left) (expr? h spec hp.right)
  | .joined _ values => exact h.used (h.each (operands h values hp))
  | .constant .. => exact h.constant
  | .attribute _ value _ _ => exact h.member hp.head (expr h value hp.tail)
  | .subscript _ value index _ =>
    exact h.subscript (expr h value hp.left) (expr h index hp.right)
  | .starred _ value => exact expr h value hp
  | .name .. => exact h.name hp.head
  | .list _ elements _ => exact h.sequence (h.each (operands h elements hp))
  | .tuple _ elements _ => exact h.sequence (h.each (operands h elements hp))
  | .slice _ lower upper step =>
    exact h.seq (expr? h lower hp.left)
      (h.seq (expr? h upper hp.right.left) (expr? h step hp.right.right))

theorem operands (h : ExprRules around P Φ) (l : List Expr) (hp : Admits P (featuresOf l)) :
    ∀ o ∈ operandsOf around l, Φ o.visit := by
  match l with
  | [] => exact fun o ho => absurd ho List.not_mem_nil
  | e :: rest =>
    intro o ho
    rcases List.mem_cons.mp ho with rfl | ho
    · exact expr h e hp.left
    · exact operands h rest hp.right o ho

theorem expr? (h : ExprRules around P Φ) (e : Option Expr) (hp : Admits P (featuresOf? e)) :
    Φ (visitExpr? around e) := by
  match e with
  | none => exact h.skip
  | some e => exact expr h e hp

theorem keys (h : ExprRules around P Φ) (l : List (Option Expr)) (hp : Admits P (keyFeatures l)) :
    Φ (visitKeys around l) := by
  match l with
  | [] => exact h.skip
  | e :: rest => exact h.seq (expr? h e hp.left) (keys h rest hp.right)

theorem keyword (h : ExprRules around P Φ) (k : Keyword) (hp : Admits P k.features) :
    Φ (visitKeyword around k) := by
  match k with
  | .mk _ value => exact expr h value hp

theorem keywords (h : ExprRules around P Φ) (l : List Keyword)
    (hp : Admits P (keywordsFeatures l)) : Φ (visitKeywords around l) := by
  match l with
  | [] => exact h.skip
  | k :: rest => exact h.seq (keyword h k hp.left) (keywords h rest hp.right)

theorem oneClause (h : ExprRules around P Φ) (c : Clause) (hp : Admits P c.features) :
    Φ (readClause around c) := by
  match c with
  | .mk target iter conditions =>
    exact h.clause (expr h target hp.left) (expr h iter hp.right.left)
      (h.each (operands h conditions hp.right.right))

theorem clauses (h : ExprRules around P Φ) (l : List Clause) (hp : Admits P (clausesFeatures l)) :
    Φ (visitClauses around l) := by
  match l with
  | [] => exact h.skip
  | c :: rest => exact h.seq (oneClause h c hp.left) (clauses h rest hp.right)

theorem object (h : ExprRules around P Φ) (e : Expr) (hp : Admits P e.features) :
    Φ (visitObject around e) := by
  unfold visitObject
  split
  · exact expr h _ hp.tail
  · exact h.skip

theorem subject (h : ExprRules around P Φ) (e : Expr) (hp : Admits P e.features) :
    Φ (visitSubject around e) := by
  unfold visitSubject
  split
  · split
    · exact first h _ hp.left.right.left
    · exact expr h _ hp.left
  · exact first h _ hp.right.left
  · exact h.skip

theorem first (h : ExprRules around P Φ) (l : List Expr) (hp : Admits P (featuresOf l)) :
    Φ (visitFirst around l) := by
  match l with
  | [] => exact h.skip
  | e :: _ => exact expr h e hp.left

end

end ExprRules

/-- The rules for statements keep a property. Expressions have one that is at least as strong, and
the last one is that of handlers. -/
structure StmtRules (around : Build Unit → Build Unit) (P : Feature → Prop)
    (E Φ Ψ : Build Unit → Prop) : Prop extends ExprRules around P E where
  stmtVisit : ∀ {x}, Φ x → Φ (around x)
  handlerVisit : ∀ {x}, Ψ x → Ψ (around x)
  lift : ∀ {x}, E x → Φ x
  andThen : ∀ {x y}, Φ x → Φ y → Φ (do x; y)
  forking : ∀ {f : Fork}, P (.fork f) → E (visitSubject around f.test) →
    E (visitExpr around f.test) → Φ (f.body around) → Φ (f.orElse around) →
    Φ (visitIf f.test (visitSubject around f.test) (visitExpr around f.test) (f.body around)
      (f.orElse around))
  function : ∀ {pos name params body}, (∀ e ∈ params.initials, E (visitExpr around e)) → Φ body →
    Φ (visitFunction pos name (visitParams params (visitExpr around)) body)
  classBody : ∀ {name body}, Φ body → Φ (visitClass name body)
  result : ∀ {pos x}, E x → Φ (visitReturn pos x)
  augmented : ∀ {op pos target value}, E target → E value → Φ (visitAugmented op pos target value)
  forLoop : ∀ {pos orElse target iter body}, E target → E iter → Φ body →
    Φ (visitFor pos orElse target iter body)
  whileLoop : ∀ {orElse test body}, E test → Φ body → Φ (visitWhile orElse test body)
  context : ∀ {value} {target : Option (Expr × Build Unit)}, P (.context target.isSome) →
    E value → (∀ t ∈ target, E t.2) → Φ (visitContext value target)
  contexts : ∀ {pos items body}, Φ items → Φ body → Φ (visitWith pos items body)
  importing : ∀ {names}, Φ (visitImport names)
  handlerSkip : Ψ (pure ())
  handlerSeq : ∀ {x y}, Ψ x → Ψ y → Ψ (do x; y)
  handler : ∀ {pos name body}, P (.handler name.isSome) → Φ body → Ψ (visitHandler pos name body)
  trying : ∀ {body handlers orElse finalBody}, Φ body → Ψ handlers → Φ orElse → Φ finalBody →
    Φ (visitTry body handlers orElse finalBody)

namespace StmtRules

mutual

theorem pattern (h : ExprRules around P Φ) (p : Pattern) (hp : Admits P p.features) :
    Φ (visitPattern around p) := by
  match p with
  | .value value => exact h.expr value hp
  | .singleton => exact h.skip
  | .sequence ps => exact patterns h ps hp
  | .mapping ks ps => exact h.seq (h.each (h.operands ks hp.left)) (patterns h ps hp.right)
  | .object cls ps named =>
    exact h.seq (h.expr cls hp.left)
      (h.seq (patterns h ps hp.right.left) (patterns h named hp.right.right))
  | .star => exact h.skip
  | .capture p => exact pattern? h p hp
  | .alternatives ps => exact patterns h ps hp

theorem pattern? (h : ExprRules around P Φ) (p : Option Pattern)
    (hp : Admits P (patternFeatures? p)) : Φ (visitPattern? around p) := by
  match p with
  | none => exact h.skip
  | some p => exact pattern h p hp

theorem patterns (h : ExprRules around P Φ) (l : List Pattern)
    (hp : Admits P (patternsFeatures l)) : Φ (visitPatterns around l) := by
  match l with
  | [] => exact h.skip
  | p :: rest => exact h.seq (pattern h p hp.left) (patterns h rest hp.right)

end

theorem items (h : StmtRules around P E Φ Ψ) (l : List Context)
    (hp : Admits P (l.flatMap Context.features)) : Φ (l.forM (readContext around)) := by
  induction l with
  | nil => exact h.lift h.skip
  | cons c rest ih =>
    rw [List.flatMap_cons] at hp
    have hc : Admits P c.features := hp.left
    refine h.andThen (h.context ?_ (h.expr c.value hc.tail.left) ?_) (ih hp.right)
    · rw [Option.isSome_map]
      exact hc.head
    · intro t ht
      obtain ⟨e, he, rfl⟩ := Option.map_eq_some_iff.mp (Option.mem_def.mp ht)
      refine h.expr e ?_
      have htarget := hc.tail.right
      rw [he] at htarget
      exact htarget

theorem initials (h : ExprRules around P E) {l : List Expr} (hp : Admits P (featuresOf l)) :
    ∀ e ∈ l, E (visitExpr around e) := by
  induction l with
  | nil => exact fun e he => absurd he List.not_mem_nil
  | cons e rest ih =>
    intro e' he'
    rcases List.mem_cons.mp he' with rfl | he'
    · exact h.expr e' hp.left
    · exact ih hp.right e' he'

/-- Handlers may stand for themselves, or there are none that split groups of errors. -/
abbrev Allows (Φ Ψ : Build Unit → Prop) (starless : Bool) : Prop :=
  (∀ x, Ψ x → Φ x) ∨ starless = true

theorem Allows.left {a b : Bool} (h : Allows Φ Ψ (a && b)) : Allows Φ Ψ a :=
  h.imp_right fun h => (Bool.and_eq_true_iff.mp h).1

theorem Allows.right {a b : Bool} (h : Allows Φ Ψ (a && b)) : Allows Φ Ψ b :=
  h.imp_right fun h => (Bool.and_eq_true_iff.mp h).2

mutual

/-- What the rules for statements keep holds of every statement with admitted features. -/
theorem stmt (h : StmtRules around P E Φ Ψ) (st : Stmt) (hp : Admits P st.features)
    (hs : Allows Φ Ψ st.starless) : Φ (visitStmt around st) := by
  unfold visitStmt
  apply h.stmtVisit
  match st with
  | .function _ _ _ b _ _ =>
    exact h.function (initials h.toExprRules hp.left) (body h b hp.right hs)
  | .class_ _ _ _ _ b _ => exact h.classBody (body h b hp hs)
  | .return_ _ value => exact h.result (h.expr? value hp)
  | .delete targets => exact h.lift (h.each (h.operands targets hp))
  | .assign _ targets value =>
    exact h.lift (h.used (h.seq (h.expr value hp.left) (h.each (h.operands targets hp.right))))
  | .augAssign _ target _ value => exact h.augmented (h.expr target hp.left) (h.expr value hp.right)
  | .annAssign _ target _ (some value) =>
    exact h.lift (h.used (h.seq (h.expr value hp.left) (h.expr target hp.right)))
  | .annAssign _ _ _ none => exact h.lift h.skip
  | .for_ _ target iter b _ =>
    exact h.forLoop (h.expr target hp.left) (h.expr iter hp.right.left)
      (body h b hp.right.right hs.left)
  | .while_ _ test b _ => exact h.whileLoop (h.expr test hp.left) (body h b hp.right hs.left)
  | .if_ _ test b orElse =>
    have ht := hp.tail.left
    exact h.forking hp.head (h.subject test ht) (h.expr test ht)
      (body h b hp.tail.right.left hs.left) (body h orElse hp.tail.right.right hs.right)
  | .with_ _ l b => exact h.contexts (items h l hp.left) (body h b hp.right hs)
  | .match_ subject cs =>
    exact h.andThen (h.lift (h.expr subject hp.left)) (cases_ h cs hp.right hs)
  | .raise exc cause => exact h.lift (h.seq (h.expr? exc hp.left) (h.expr? cause hp.right))
  | .try_ b hands orElse finalBody =>
    exact h.trying (body h b hp.left hs.left.left.left)
      (handlers h hands hp.right.left hs.left.left.right)
      (body h orElse hp.right.right.left hs.left.right)
      (body h finalBody hp.right.right.right hs.right)
  | .tryStar b hands orElse finalBody =>
    have hplain : ∀ x, Ψ x → Φ x := hs.resolve_right Bool.false_ne_true
    exact h.andThen (body h b hp.left (.inl hplain))
      (h.andThen (hplain _ (handlers h hands hp.right.left (.inl hplain)))
        (h.andThen (body h orElse hp.right.right.left (.inl hplain))
          (body h finalBody hp.right.right.right (.inl hplain))))
  | .assert .. => exact h.lift h.skip
  | .import_ names => exact h.importing
  | .importFrom _ names _ => exact h.importing
  | .expr value =>
    change Φ (if value.isConstant then pure () else visitExpr around value)
    split
    · exact h.lift h.skip
    · exact h.lift (h.expr value hp)
  | .other => exact h.lift h.skip

theorem body (h : StmtRules around P E Φ Ψ) (l : List Stmt) (hp : Admits P (bodyFeatures l))
    (hs : Allows Φ Ψ (starlessBody l)) : Φ (visitBody around l) := by
  match l with
  | [] => exact h.lift h.skip
  | st :: rest => exact h.andThen (stmt h st hp.left hs.left) (body h rest hp.right hs.right)

theorem oneHandler (h : StmtRules around P E Φ Ψ) (hand : Handler) (hp : Admits P hand.features)
    (hs : Allows Φ Ψ hand.starless) : Ψ (readHandler around hand) := by
  match hand with
  | .mk _ _ _ b => exact h.handlerVisit (h.handler hp.head (body h b hp.tail hs))

theorem handlers (h : StmtRules around P E Φ Ψ) (l : List Handler)
    (hp : Admits P (handlersFeatures l)) (hs : Allows Φ Ψ (starlessHandlers l)) :
    Ψ (visitHandlers around l) := by
  match l with
  | [] => exact h.handlerSkip
  | hand :: rest =>
    exact h.handlerSeq (oneHandler h hand hp.left hs.left) (handlers h rest hp.right hs.right)

theorem case (h : StmtRules around P E Φ Ψ) (c : Case) (hp : Admits P c.features)
    (hs : Allows Φ Ψ c.starless) : Φ (visitCase around c) := by
  match c with
  | .mk p guard b =>
    exact h.andThen (h.lift (pattern h.toExprRules p hp.left))
      (h.andThen (h.lift (h.expr? guard hp.right.left)) (body h b hp.right.right hs))

theorem cases_ (h : StmtRules around P E Φ Ψ) (l : List Case) (hp : Admits P (casesFeatures l))
    (hs : Allows Φ Ψ (starlessCases l)) : Φ (visitCases around l) := by
  match l with
  | [] => exact h.lift h.skip
  | c :: rest => exact h.andThen (case h c hp.left hs.left) (cases_ h rest hp.right hs.right)

end

end StmtRules

/-! ## Programs -/

def startWalk (o : BuildOptions) (top : GraphId) : Walk :=
  { top, fileName := o.fileName, userNames := o.userNames, locations := o.locations }

/-- A store with a new graph of a module. -/
def startStore (o : BuildOptions) (s : Store) : Store :=
  { s with graphs := s.graphs.push (Graph.ofModule o.fileName o.userNames) }

def readGraphs (around : Build Unit → Build Unit) (o : BuildOptions) (top : GraphId)
    (program : Module) : Build Unit := do
  if 0 < o.aliasLevel then findAliases top program
  if o.aliasLevel ≤ 1 then readProgram around o program

theorem lift_bind_apply {α β : Type} (x : Eval α) (f : α → Build β) (w : Walk) :
    (liftM x >>= f : Build β) w = x >>= fun a => f a w := by
  change (x >>= fun a => pure (a, w)) >>= (fun r => f r.1 r.2) = _
  simp only [bind_assoc, pure_bind]

theorem graphsAround_apply : graphsAround around o program s =
      (readGraphs around o ⟨s.graphs.size⟩ program (startWalk o ⟨s.graphs.size⟩) >>=
        fun r => pure r.2) (startStore o s) := by
  have hstart : start o s = .ok (startWalk o ⟨s.graphs.size⟩) (startStore o s) := rfl
  unfold graphsAround readGraphs
  rw [Eval.bind_of_ok hstart]
  by_cases hfind : 0 < o.aliasLevel <;> by_cases hread : o.aliasLevel ≤ 1 <;>
    simp only [hfind, hread, if_true, if_false, lift_bind_apply, bind_assoc] <;> rfl

theorem finish_graphsAround : (graphsAround around o program).finish s =
      Eval.finish (readGraphs around o ⟨s.graphs.size⟩ program (startWalk o ⟨s.graphs.size⟩))
        (startStore o s) := by
  unfold Eval.finish
  rw [graphsAround_apply, Eval.bind_apply]
  cases readGraphs around o ⟨s.graphs.size⟩ program (startWalk o ⟨s.graphs.size⟩)
    (startStore o s) <;> rfl

theorem graphsOf_eq_ok {o : BuildOptions} {program : Module} {s t : Store} {w : Walk} :
    graphsOf o program s = .ok w t ↔
      readGraphs id o ⟨s.graphs.size⟩ program (startWalk o ⟨s.graphs.size⟩) (startStore o s) =
        .ok ((), w) t := by
  rw [graphsOf, graphsAround_apply, Eval.bind_apply]
  cases readGraphs id o ⟨s.graphs.size⟩ program (startWalk o ⟨s.graphs.size⟩)
    (startStore o s) with
  | ok r u => simp [Prod.ext_iff]
  | error e u => simp

/-- The walk over a program comes to an end. -/
def comesToEnd (o : BuildOptions) (program : Module) : Bool :=
  match graphsOf o program {} with
  | .ok .. => true
  | .error .. => false

theorem exists_of_comesToEnd {o : BuildOptions} {program : Module}
    (h : comesToEnd o program = true) : ∃ w t, graphsOf o program {} = .ok w t := by
  unfold comesToEnd at h
  cases hrun : graphsOf o program {} with
  | ok w t => exact ⟨w, t, rfl⟩
  | error e t =>
    rw [hrun] at h
    cases h

end Build

end TypeFlow
