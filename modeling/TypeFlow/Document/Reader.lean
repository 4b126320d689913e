import TypeFlow.Document
import TypeFlow.Table

/-! # Reading documents

Documents are written as JSON. Every step of the reader takes at least one character, so as many
steps as there are characters are enough. -/

namespace TypeFlow.Document

def isBlank (c : Char) : Bool := c == ' ' || c == '\n' || c == '\r' || c == '\t'

def skipBlanks (cs : List Char) : List Char := cs.dropWhile isBlank

def hexValue (c : Char) : Option Nat :=
  if c.isDigit then some (c.toNat - 48)
  else if 'a' ≤ c ∧ c ≤ 'f' then some (c.toNat - 87)
  else if 'A' ≤ c ∧ c ≤ 'F' then some (c.toNat - 55)
  else none

/-- The value of four hexadecimal digits. -/
def hexCode (a b c d : Char) : Option Nat := do
  let a ← hexValue a
  let b ← hexValue b
  let c ← hexValue c
  let d ← hexValue d
  return ((a * 16 + b) * 16 + c) * 16 + d

def escaped (c : Char) : Option Char :=
  match c with
  | '"' | '\\' | '/' => some c
  | 'b' => some '\x08'
  | 'f' => some '\x0c'
  | 'n' => some '\n'
  | 'r' => some '\r'
  | 't' => some '\t'
  | _ => none

/-- First halves of a pair of codes. -/
def isHighHalf (code : Nat) : Bool := 0xd800 ≤ code && code < 0xdc00

/-- Second halves of a pair of codes. -/
def isLowHalf (code : Nat) : Bool := 0xdc00 ≤ code && code < 0xe000

/-- Add the character of a code to a text that is kept backwards. The first half of a pair waits
for the second one. -/
def addCode (high : Option Nat) (text : List Char) (code : Nat) : Option Nat × List Char :=
  if isHighHalf code then (some code, text)
  else
    match high with
    | some h =>
      if isLowHalf code then
        (none, Char.ofNat (0x10000 + (h - 0xd800) * 0x400 + (code - 0xdc00)) :: text)
      else (none, Char.ofNat code :: text)
    | none => (none, (if isLowHalf code then '�' else Char.ofNat code) :: text)

/-- Read a text after its opening quote. Control characters have to be escaped. -/
def readText (high : Option Nat) (text : List Char) : List Char → Option (String × List Char)
  | [] => none
  | '"' :: rest => some (String.ofList text.reverse, rest)
  | '\\' :: 'u' :: a :: b :: c :: d :: rest =>
    match hexCode a b c d with
    | some code =>
      let (high, text) := addCode high text code
      readText high text rest
    | none => none
  | '\\' :: c :: rest =>
    match escaped c with
    | some c => readText none (c :: text) rest
    | none => none
  | c :: rest => if c.toNat < 32 then none else readText none (c :: text) rest

def digitsValue (digits : List Char) : Nat :=
  digits.foldl (fun n c => n * 10 + (c.toNat - 48)) 0

def readDigits (cs : List Char) : List Char × List Char := cs.span Char.isDigit

def readPower : List Char → Option (Int × List Char)
  | c :: rest =>
    if c == 'e' || c == 'E' then
      let (negative, rest) := match rest with
        | '-' :: rest => (true, rest)
        | '+' :: rest => (false, rest)
        | rest => (false, rest)
      let (digits, rest) := readDigits rest
      if digits.isEmpty then none
      else some (if negative then -(digitsValue digits : Int) else digitsValue digits, rest)
    else some (0, c :: rest)
  | [] => some (0, [])

/-- A decimal number from its digits and its power of ten. -/
def ofDigits (mantissa : Int) (power : Int) : Document :=
  if 0 ≤ power then .decimal (mantissa * Nat.pow 10 power.toNat) 0
  else .decimal mantissa (-power).toNat

/-- The digits before the point of a number: a zero, or digits that do not start with one. -/
def isWhole : List Char → Bool
  | [] => false
  | '0' :: rest => rest.isEmpty
  | _ => true

def readUnsigned (sign : Int) (cs : List Char) : Option (Document × List Char) := do
  let (whole, rest) := readDigits cs
  if !isWhole whole then none
  else
    match rest with
    | '.' :: rest => do
      let (fraction, rest) := readDigits rest
      if fraction.isEmpty then none
      else
        let (power, rest) ← readPower rest
        let mantissa := sign * digitsValue (whole ++ fraction)
        some (ofDigits mantissa (power - fraction.length), rest)
    | 'e' :: _ | 'E' :: _ => do
      let (power, rest) ← readPower rest
      some (ofDigits (sign * digitsValue whole) power, rest)
    | _ => some (.int (sign * digitsValue whole), rest)

def readNumber : List Char → Option (Document × List Char)
  | '-' :: rest => readUnsigned (-1) rest
  | cs => readUnsigned 1 cs

mutual

def readValue : Nat → List Char → Option (Document × List Char)
  | 0, _ => none
  | fuel + 1, cs =>
    match skipBlanks cs with
    | '"' :: rest => (readText none [] rest).map fun (s, rest) => (.text s, rest)
    | '[' :: rest =>
      match skipBlanks rest with
      | ']' :: rest => some (.list [], rest)
      | rest => readItems fuel [] rest
    | '\x7b' :: rest =>
      match skipBlanks rest with
      | '\x7d' :: rest => some (.record [], rest)
      | rest => readFields fuel [] rest
    | 't' :: 'r' :: 'u' :: 'e' :: rest => some (.bool true, rest)
    | 'f' :: 'a' :: 'l' :: 's' :: 'e' :: rest => some (.bool false, rest)
    | 'n' :: 'u' :: 'l' :: 'l' :: rest => some (.null, rest)
    | rest => readNumber rest

/-- Read the rest of a list; the items so far are kept backwards. -/
def readItems : Nat → List Document → List Char → Option (Document × List Char)
  | 0, _, _ => none
  | fuel + 1, items, cs => do
    let (d, rest) ← readValue fuel cs
    match skipBlanks rest with
    | ',' :: rest => readItems fuel (d :: items) rest
    | ']' :: rest => some (.list (d :: items).reverse, rest)
    | _ => none

/-- Read the rest of a record; the fields so far are kept backwards. Of several fields with one
name the last counts. -/
def readFields : Nat → List (String × Document) → List Char → Option (Document × List Char)
  | 0, _, _ => none
  | fuel + 1, fields, cs =>
    match skipBlanks cs with
    | '"' :: rest => do
      let (key, rest) ← readText none [] rest
      match skipBlanks rest with
      | ':' :: rest => do
        let (d, rest) ← readValue fuel rest
        match skipBlanks rest with
        | ',' :: rest => readFields fuel ((key, d) :: fields) rest
        | '\x7d' :: rest => some (.record (Table.ofList ((key, d) :: fields).reverse).entries, rest)
        | _ => none
      | _ => none
    | _ => none

end

def read? (text : String) : Option Document :=
  let cs := text.toList
  match readValue (cs.length + 1) cs with
  | some (d, rest) => if (skipBlanks rest).isEmpty then some d else none
  | none => none

end TypeFlow.Document
