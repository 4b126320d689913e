import TypeFlow.Program.Stmt

/-! # Outlines

What an analysis of names sees of a program, in reading order: classes, functions, assignments,
imports, and the longest attribute chains. Expressions of other shapes matter only through the
attributes inside them. -/

namespace TypeFlow.Program

/-- A part of a program that an analysis of names looks at. -/
inductive Part where
  | attribute (e : Expr)
  | function (name : String) (params : List String) (parts : List Part)
  | class_ (name : String) (bases : List Expr) (parts : List Part)
  | assign (targets : List Expr) (value : Expr) (parts : List Part)
  | annAssign (target : Expr) (value : Option Expr) (parts : List Part)
  | import_ (names : List Import)
  | importFrom (module : Option String) (names : List Import) (level : Nat)

mutual

/-- Attributes of an expression that are not part of a longer chain. -/
def Expr.attributes : Expr → List Expr
  | .boolOp _ _ values => attributesOf values
  | .named _ target value => target.attributes ++ value.attributes
  | .binary _ _ left right => left.attributes ++ right.attributes
  | .unary _ _ operand => operand.attributes
  | .lambda _ params body => params.attributes ++ body.attributes
  | .conditional _ test body orElse => test.attributes ++ body.attributes ++ orElse.attributes
  | .dict _ keys values => attributesOfOptional keys ++ attributesOf values
  | .set _ elements => attributesOf elements
  | .comprehension _ _ element clauses => element.attributes ++ attributesOfClauses clauses
  | .dictComprehension _ key value clauses =>
    key.attributes ++ value.attributes ++ attributesOfClauses clauses
  | .await _ value => value.attributes
  | .yield _ value => attributesOf? value
  | .yieldFrom _ value => value.attributes
  | .compare _ left _ comparators => left.attributes ++ attributesOf comparators
  | .call _ func args keywords =>
    func.attributes ++ attributesOf args ++ attributesOfKeywords keywords
  | .formatted _ value spec => value.attributes ++ attributesOf? spec
  | .joined _ values => attributesOf values
  | .constant .. => []
  | .attribute p value attr access => [.attribute p value attr access]
  | .subscript _ value index _ => value.attributes ++ index.attributes
  | .starred _ value => value.attributes
  | .name .. => []
  | .list _ elements _ => attributesOf elements
  | .tuple _ elements _ => attributesOf elements
  | .slice _ lower upper step =>
    attributesOf? lower ++ attributesOf? upper ++ attributesOf? step

def attributesOf : List Expr → List Expr
  | [] => []
  | e :: rest => e.attributes ++ attributesOf rest

def attributesOf? : Option Expr → List Expr
  | none => []
  | some e => e.attributes

def attributesOfOptional : List (Option Expr) → List Expr
  | [] => []
  | e :: rest => attributesOf? e ++ attributesOfOptional rest

def Clause.attributes : Clause → List Expr
  | .mk target iter conditions => target.attributes ++ iter.attributes ++ attributesOf conditions

def attributesOfClauses : List Clause → List Expr
  | [] => []
  | c :: rest => c.attributes ++ attributesOfClauses rest

def Keyword.attributes : Keyword → List Expr
  | .mk _ value => value.attributes

def attributesOfKeywords : List Keyword → List Expr
  | [] => []
  | k :: rest => k.attributes ++ attributesOfKeywords rest

def Param.attributes : Param → List Expr
  | .mk _ _ hint => attributesOf? hint

def attributesOfParam? : Option Param → List Expr
  | none => []
  | some p => p.attributes

def attributesOfParams : List Param → List Expr
  | [] => []
  | p :: rest => p.attributes ++ attributesOfParams rest

def Params.attributes : Params → List Expr
  | .mk positional plain variadic keyword keywordDefaults mapping defaults =>
    attributesOfParams positional ++ attributesOfParams plain ++ attributesOfParam? variadic ++
      attributesOfParams keyword ++ attributesOfOptional keywordDefaults ++
      attributesOfParam? mapping ++ attributesOf defaults

end

mutual

def Pattern.attributes : Pattern → List Expr
  | .value value => value.attributes
  | .singleton => []
  | .sequence patterns => attributesOfPatterns patterns
  | .mapping keys patterns => attributesOf keys ++ attributesOfPatterns patterns
  | .object cls patterns named =>
    cls.attributes ++ attributesOfPatterns patterns ++ attributesOfPatterns named
  | .star => []
  | .capture pattern => attributesOfPattern? pattern
  | .alternatives patterns => attributesOfPatterns patterns

def attributesOfPattern? : Option Pattern → List Expr
  | none => []
  | some p => p.attributes

def attributesOfPatterns : List Pattern → List Expr
  | [] => []
  | p :: rest => p.attributes ++ attributesOfPatterns rest

end

def Expr.items (e : Expr) : List Part := e.attributes.map .attribute

def itemsOf (l : List Expr) : List Part := (attributesOf l).map .attribute

/-- The attributes of an expression that may be absent as parts of a program. -/
def itemsOf? (e : Option Expr) : List Part := (attributesOf? e).map .attribute

def Context.items (c : Context) : List Part := c.value.items ++ itemsOf? c.target

mutual

def Stmt.outline : Stmt → List Part
  | .function _ name params body decorators returns =>
    [.function name params.names
      (params.attributes.map .attribute ++ outline body ++ itemsOf decorators ++
        itemsOf? returns)]
  | .class_ _ name bases keywords body decorators =>
    [.class_ name bases
      (itemsOf bases ++ (attributesOfKeywords keywords).map .attribute ++ outline body ++
        itemsOf decorators)]
  | .return_ _ value => itemsOf? value
  | .delete targets => itemsOf targets
  | .assign _ targets value => [.assign targets value (itemsOf targets ++ value.items)]
  | .augAssign _ target _ value => target.items ++ value.items
  | .annAssign _ target hint value =>
    [.annAssign target value (target.items ++ hint.items ++ itemsOf? value)]
  | .for_ _ target iter body orElse =>
    target.items ++ iter.items ++ outline body ++ outline orElse
  | .while_ _ test body orElse => test.items ++ outline body ++ outline orElse
  | .if_ _ test body orElse => test.items ++ outline body ++ outline orElse
  | .with_ _ items body => items.flatMap Context.items ++ outline body
  | .match_ subject cases => subject.items ++ outlineOfCases cases
  | .raise exc cause => itemsOf? exc ++ itemsOf? cause
  | .try_ body handlers orElse finalBody =>
    outline body ++ outlineOfHandlers handlers ++ outline orElse ++ outline finalBody
  | .tryStar body handlers orElse finalBody =>
    outline body ++ outlineOfHandlers handlers ++ outline orElse ++ outline finalBody
  | .assert test message => test.items ++ itemsOf? message
  | .import_ names => [.import_ names]
  | .importFrom module names level => [.importFrom module names level]
  | .expr value => value.items
  | .other => []

def outline : List Stmt → List Part
  | [] => []
  | s :: rest => s.outline ++ outline rest

def Handler.outline : Handler → List Part
  | .mk _ kind _ body => itemsOf? kind ++ Program.outline body

def outlineOfHandlers : List Handler → List Part
  | [] => []
  | h :: rest => h.outline ++ outlineOfHandlers rest

def Case.outline : Case → List Part
  | .mk pattern guard body =>
    pattern.attributes.map .attribute ++ itemsOf? guard ++ Program.outline body

def outlineOfCases : List Case → List Part
  | [] => []
  | c :: rest => c.outline ++ outlineOfCases rest

end

end TypeFlow.Program
