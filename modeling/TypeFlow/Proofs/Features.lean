import TypeFlow.Build.Stmt

/-!
# Features of a program

Of what a program is made of, some parts decide how it is read: how names and attributes are met,
the conditions at which the ways through the program part, and the names that contexts and handlers
bind. They are listed for every form of expression and statement, as far as it is read at all.
-/

namespace TypeFlow.Program

/-- A place where the ways through a program part: an `if` statement or a conditional expression. -/
inductive Fork where
  | statement (test : Expr) (body orElse : List Stmt)
  | conditional (test body orElse : Expr)

def Fork.test : Fork → Expr
  | statement test _ _ | conditional test _ _ => test

/-- What a program makes use of. -/
inductive Feature where
  /-- A name or an attribute is met. -/
  | access (a : Access)
  | fork (f : Fork)
  /-- A context is entered, and its value may be assigned to something. -/
  | context (bound : Bool)
  /-- An error is handled, and it may get a name. -/
  | handler (bound : Bool)

mutual

/-- Features of an expression. The body of a function without a name is not read. -/
def Expr.features : Expr → List Feature
  | .boolOp _ _ values | .set _ values | .joined _ values => featuresOf values
  | .list _ elements _ | .tuple _ elements _ => featuresOf elements
  | .named _ left right | .binary _ _ left right => left.features ++ right.features
  | .unary _ _ value | .await _ value | .yieldFrom _ value | .starred _ value => value.features
  | .lambda .. | .constant .. => []
  | .conditional _ test body orElse =>
    .fork (.conditional test body orElse) :: (test.features ++ (body.features ++ orElse.features))
  | .dict _ keys values => keyFeatures keys ++ featuresOf values
  | .comprehension _ _ element clauses => clausesFeatures clauses ++ element.features
  | .dictComprehension _ key value clauses =>
    clausesFeatures clauses ++ (key.features ++ value.features)
  | .yield _ value => featuresOf? value
  | .compare _ left _ comparators => left.features ++ featuresOf comparators
  | .call _ func args keywords => func.features ++ (featuresOf args ++ keywordsFeatures keywords)
  | .formatted _ value spec => value.features ++ featuresOf? spec
  | .attribute _ value _ access => .access access :: value.features
  | .subscript _ value index _ => value.features ++ index.features
  | .name _ _ access => [.access access]
  | .slice _ lower upper step => featuresOf? lower ++ (featuresOf? upper ++ featuresOf? step)

def featuresOf : List Expr → List Feature
  | [] => []
  | e :: rest => e.features ++ featuresOf rest

/-- Features of an expression that may be absent. -/
def featuresOf? : Option Expr → List Feature
  | none => []
  | some e => e.features

/-- Features of the keys of a dictionary. -/
def keyFeatures : List (Option Expr) → List Feature
  | [] => []
  | e :: rest => featuresOf? e ++ keyFeatures rest

/-- Features of a named argument. -/
def Keyword.features : Keyword → List Feature
  | .mk _ value => value.features

/-- Features of named arguments. -/
def keywordsFeatures : List Keyword → List Feature
  | [] => []
  | k :: rest => k.features ++ keywordsFeatures rest

def Clause.features : Clause → List Feature
  | .mk target iter conditions => target.features ++ (iter.features ++ featuresOf conditions)

def clausesFeatures : List Clause → List Feature
  | [] => []
  | c :: rest => c.features ++ clausesFeatures rest

end

/-- The values that parameters have by default. -/
def Params.initials : Params → List Expr
  | .mk _ _ _ _ keywordDefaults _ defaults => defaults ++ keywordDefaults.filterMap id

section Initials

variable {positional plain keyword : List Param} {variadic mapping : Option Param}
  {keywordDefaults : List (Option Expr)} {defaults : List Expr} {p : Param} {e : Expr}

theorem Params.mem_initials_of_align (h : (p, e) ∈ Build.alignDefaults plain defaults) :
    e ∈ (Params.mk positional plain variadic keyword keywordDefaults mapping defaults).initials :=
  List.mem_append_left _ (List.mem_of_mem_drop (List.of_mem_zip h).2)

theorem Params.mem_initials_of_zip (h : (p, some e) ∈ keyword.zip keywordDefaults) :
    e ∈ (Params.mk positional plain variadic keyword keywordDefaults mapping defaults).initials :=
  List.mem_append_right _ (List.mem_filterMap.mpr ⟨some e, (List.of_mem_zip h).2, rfl⟩)

end Initials

mutual

def Pattern.features : Pattern → List Feature
  | .value value => value.features
  | .singleton | .star => []
  | .sequence patterns | .alternatives patterns => patternsFeatures patterns
  | .mapping keys patterns => featuresOf keys ++ patternsFeatures patterns
  | .object cls patterns named =>
    cls.features ++ (patternsFeatures patterns ++ patternsFeatures named)
  | .capture pattern => patternFeatures? pattern

/-- Features of a pattern that may be absent. -/
def patternFeatures? : Option Pattern → List Feature
  | none => []
  | some p => p.features

def patternsFeatures : List Pattern → List Feature
  | [] => []
  | p :: rest => p.features ++ patternsFeatures rest

end

def Context.features (c : Context) : List Feature :=
  .context c.target.isSome :: (c.value.features ++ featuresOf? c.target)

mutual

/-- Features of a statement. Loops cannot have an `else` part, and assertions are not read. -/
def Stmt.features : Stmt → List Feature
  | .function _ _ params body _ _ => featuresOf params.initials ++ bodyFeatures body
  | .class_ _ _ _ _ body _ => bodyFeatures body
  | .return_ _ value => featuresOf? value
  | .delete targets => featuresOf targets
  | .assign _ targets value => value.features ++ featuresOf targets
  | .augAssign _ target _ value => target.features ++ value.features
  | .annAssign _ target _ (some value) => value.features ++ target.features
  | .for_ _ target iter body _ => target.features ++ (iter.features ++ bodyFeatures body)
  | .while_ _ test body _ => test.features ++ bodyFeatures body
  | .if_ _ test body orElse =>
    .fork (.statement test body orElse) ::
      (test.features ++ (bodyFeatures body ++ bodyFeatures orElse))
  | .with_ _ items body => items.flatMap Context.features ++ bodyFeatures body
  | .match_ subject cases => subject.features ++ casesFeatures cases
  | .raise exc cause => featuresOf? exc ++ featuresOf? cause
  | .try_ body handlers orElse finalBody | .tryStar body handlers orElse finalBody =>
    bodyFeatures body ++
      (handlersFeatures handlers ++ (bodyFeatures orElse ++ bodyFeatures finalBody))
  | .expr value => value.features
  | .annAssign _ _ _ none | .assert .. | .import_ .. | .importFrom .. | .other => []

def bodyFeatures : List Stmt → List Feature
  | [] => []
  | s :: rest => s.features ++ bodyFeatures rest

def Handler.features : Handler → List Feature
  | .mk _ _ name body => .handler name.isSome :: bodyFeatures body

def handlersFeatures : List Handler → List Feature
  | [] => []
  | h :: rest => h.features ++ handlersFeatures rest

def Case.features : Case → List Feature
  | .mk pattern guard body => pattern.features ++ (featuresOf? guard ++ bodyFeatures body)

def casesFeatures : List Case → List Feature
  | [] => []
  | c :: rest => c.features ++ casesFeatures rest

end

/-! ## Sides of a fork -/

variable (around : Build Unit → Build Unit)

/-- Read what a fork does when its condition holds. -/
def Fork.body : Fork → Build Unit
  | statement _ body _ => Build.visitBody around body
  | conditional _ body _ => Build.visitExpr around body

/-- Read what a fork does when its condition does not hold. -/
def Fork.orElse : Fork → Build Unit
  | statement _ _ orElse => Build.visitBody around orElse
  | conditional _ _ orElse => Build.visitExpr around orElse

end TypeFlow.Program

namespace TypeFlow.Build

open Program

/-- The value whose type a condition tests. -/
def subject? : Expr → Option Expr
  | .compare _ left _ _ =>
    match left with
    | .call _ _ args _ => args.head?
    | e => some e
  | .call _ _ args _ => args.head?
  | _ => none

theorem visitSubject_eq (around : Build Unit → Build Unit) (e : Expr) :
    visitSubject around e = visitExpr? around (subject? e) := by
  have hfirst (args : List Expr) : visitFirst around args = visitExpr? around args.head? := by
    cases args <;> simp [visitFirst, visitExpr?]
  cases e with
  | compare pos left ops comparators =>
    cases left <;> simp [visitSubject, subject?, visitExpr?, hfirst]
  | call pos func args keywords => simp [visitSubject, subject?, hfirst]
  | _ => simp [visitSubject, subject?, visitExpr?]

end TypeFlow.Build
