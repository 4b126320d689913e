/-! # Operators

The operators of expressions, each with the name of the operation that types it. -/

namespace TypeFlow.Program

inductive BinaryOp where
  | add
  | sub
  | mult
  | div
  | floorDiv
  | mod
  | pow
  | shiftLeft
  | shiftRight
  | bitOr
  | bitXor
  | bitAnd
  | matMult
deriving DecidableEq, Repr, Inhabited

inductive UnaryOp where
  | plus
  | minus
  | not
  | invert
deriving DecidableEq, Repr, Inhabited

inductive BoolOp where
  | and
  | or
deriving DecidableEq, Repr, Inhabited

inductive CompareOp where
  | eq
  | notEq
  | lt
  | ltE
  | gt
  | gtE
  | is
  | isNot
  | within
  | notWithin
deriving DecidableEq, Repr, Inhabited

/-- The operation of an operator. A power is typed like a remainder. -/
def BinaryOp.symbol : BinaryOp → String
  | .add => "+"
  | .sub => "-"
  | .mult => "*"
  | .div => "/"
  | .floorDiv => "//"
  | .mod => "%"
  | .pow => "%"
  | .shiftLeft => "<<"
  | .shiftRight => ">>"
  | .bitOr => "|"
  | .bitXor => "^"
  | .bitAnd => "&"
  | .matMult => "@"

def UnaryOp.symbol : UnaryOp → String
  | .plus => "+"
  | .minus => "-"
  | .not => "not"
  | .invert => "~"

def BoolOp.symbol : BoolOp → String
  | .and => "and"
  | .or => "or"

def CompareOp.symbol : CompareOp → String
  | .eq => "=="
  | .notEq => "!="
  | .lt => "<"
  | .ltE => "<="
  | .gt => ">"
  | .gtE => ">="
  | .is => "is"
  | .isNot => "is not"
  | .within => "in"
  | .notWithin => "not in"

end TypeFlow.Program
