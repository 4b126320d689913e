import TypeFlow.Text.Basic

/-! # Whole numbers

A whole number is written with a sign, if any, and digits, between which single underscores may
stand. Blanks around it do not count. -/

namespace TypeFlow.Text

def isBlank (c : Char) : Bool :=
  c == ' ' || ('\t' ≤ c && c ≤ '\r') || ('\x1c' ≤ c && c ≤ '\x1f') || c.toNat == 0x85 ||
    c.toNat == 0xa0 || c.toNat == 0x1680 || (0x2000 ≤ c.toNat && c.toNat ≤ 0x200a) ||
    c.toNat == 0x2028 || c.toNat == 0x2029 || c.toNat == 0x202f || c.toNat == 0x205f ||
    c.toNat == 0x3000

def trimBlanks (l : List Char) : List Char :=
  ((l.dropWhile isBlank).reverse.dropWhile isBlank).reverse

/-- Read digits after those that make up `n`. -/
def digitsFrom? (n : Nat) : List Char → Option Nat
  | [] => some n
  | '_' :: c :: rest =>
    if c.isDigit then digitsFrom? (10 * n + (c.toNat - '0'.toNat)) rest else none
  | c :: rest => if c.isDigit then digitsFrom? (10 * n + (c.toNat - '0'.toNat)) rest else none

/-- Read a number without a sign. -/
def digits? : List Char → Option Nat
  | c :: rest => if c.isDigit then digitsFrom? (c.toNat - '0'.toNat) rest else none
  | [] => none

def int? (s : String) : Option Int :=
  match trimBlanks s.toList with
  | '-' :: rest => (digits? rest).map fun n => -(n : Int)
  | '+' :: rest => (digits? rest).map Int.ofNat
  | l => (digits? l).map Int.ofNat

/-- A text looks like a negative number: a minus sign, and digits or a decimal fraction. -/
def looksNegative (s : String) : Bool :=
  match s.toList with
  | '-' :: rest =>
    let whole := rest.takeWhile Char.isDigit
    match rest.drop whole.length with
    | [] => !whole.isEmpty
    | '.' :: fraction => !fraction.isEmpty && fraction.all Char.isDigit
    | _ => false
  | _ => false

end TypeFlow.Text
