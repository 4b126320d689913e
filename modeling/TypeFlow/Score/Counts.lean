import TypeFlow.Document

/-! # Counts

How many annotations fell under each verdict, by category, and the shares computed from them. -/

namespace TypeFlow.Score

/-- Numbers of annotations by category. -/
structure Counts where
  arg : Nat := 0
  ret : Nat := 0
  loc : Nat := 0
  total : Nat := 0
deriving DecidableEq, Repr, Inhabited

namespace Counts

def add (c : Counts) (category : Document) : Except Fault Counts :=
  let c := { c with total := c.total + 1 }
  match category with
  | .text "arg" => .ok { c with arg := c.arg + 1 }
  | .text "return" => .ok { c with ret := c.ret + 1 }
  | .text "local" => .ok { c with loc := c.loc + 1 }
  | .text "total" => .ok { c with total := c.total + 1 }
  | .list _ | .record _ => .error .wrongKind
  | _ => .error .missingKey

def describe (c : Counts) : Document :=
  .record [("arg", .int c.arg), ("return", .int c.ret), ("local", .int c.loc),
    ("total", .int c.total)]

end Counts

/-- How an inferred type compares with an annotation. -/
inductive Verdict where
  | success
  | similar
  | partly
  | failed
  | missing
deriving DecidableEq, Repr, Inhabited

structure Tally where
  total : Nat := 0
  success : Counts := {}
  similar : Counts := {}
  partly : Counts := {}
  failed : Counts := {}
  missing : Counts := {}
deriving DecidableEq, Repr, Inhabited

/-- A share; without anything to share it is not valid. -/
structure Share where
  part : Nat
  whole : Nat
deriving DecidableEq, Repr, Inhabited

namespace Share

def isValid (s : Share) : Bool := s.whole ≠ 0

/-- The quotient of two numbers to the nearest number, a half going to the even one. -/
def nearest (num den : Nat) : Nat :=
  let q := num / den
  let r := num % den
  if 2 * r < den then q
  else if den < 2 * r then q + 1
  else if q % 2 = 0 then q else q + 1

def places : Nat := 6

def print (s : Share) : String :=
  if s.isValid then
    let unit := Nat.pow 10 places
    let scaled := nearest (s.part * unit) s.whole
    let digits := toString (scaled % unit)
    toString (scaled / unit) ++ "." ++
      String.ofList (List.replicate (places - digits.length) '0') ++ digits
  else "Not Valid"

end Share

namespace Tally

def add (t : Tally) (verdict : Verdict) (category : Document) : Except Fault Tally := do
  match verdict with
  | .success => return { t with success := ← t.success.add category }
  | .similar => return { t with similar := ← t.similar.add category }
  | .partly => return { t with partly := ← t.partly.add category }
  | .failed => return { t with failed := ← t.failed.add category }
  | .missing => return { t with missing := ← t.missing.add category }

def inferred (t : Tally) : Nat :=
  t.success.total + t.failed.total + t.similar.total + t.partly.total

/-- Annotations whose type was inferred exactly. -/
def exactly (t : Tally) : Nat := t.success.total

/-- Annotations whose type was inferred up to the contents of containers. -/
def similarly (t : Tally) : Nat := t.success.total + t.similar.total

/-- Annotations whose type was inferred at least in part. -/
def partially (t : Tally) : Nat := t.success.total + t.similar.total + t.partly.total

/-- A share of the annotations for which a type was inferred. -/
def accuracy (t : Tally) (part : Nat) : Share := ⟨part, t.inferred⟩

def recallOf (t : Tally) (part : Nat) : Share := ⟨part, t.total⟩

def describe (t : Tally) : Document :=
  .record [
    ("total", .int t.total), ("success", t.success.describe), ("nores", t.missing.describe),
    ("similar", t.similar.describe), ("partial", t.partly.describe),
    ("failed", t.failed.describe),
    ("acc", .text (t.accuracy t.exactly).print),
    ("recall", .text (t.recallOf t.exactly).print),
    ("similaracc", .text (t.accuracy t.similarly).print),
    ("similarrecall", .text (t.recallOf t.similarly).print),
    ("partialacc", .text (t.accuracy t.partially).print),
    ("partialrecall", .text (t.recallOf t.partially).print)]

end Tally
end TypeFlow.Score
