import TypeFlow.Document

/-! # Writing documents

Documents are written as JSON without blanks. -/

namespace TypeFlow.Document

def hexDigit (n : Nat) : Char := if n < 10 then Char.ofNat (48 + n) else Char.ofNat (87 + n)

def writeChar (c : Char) : List Char :=
  if c == '"' then ['\\', '"']
  else if c == '\\' then ['\\', '\\']
  else if c.toNat < 32 then
    ['\\', 'u', '0', '0', hexDigit (c.toNat / 16), hexDigit (c.toNat % 16)]
  else [c]

def writeText (s : String) : String :=
  "\"" ++ String.ofList (s.toList.flatMap writeChar) ++ "\""

/-- A decimal number with as many places as its exponent says. -/
def writeDecimal (mantissa : Int) (exponent : Nat) : String :=
  let digits := toString mantissa.natAbs
  let padded := String.ofList (List.replicate (exponent + 1 - digits.length) '0') ++ digits
  let cut := padded.length - exponent
  let whole := String.ofList (padded.toList.take cut)
  let fraction := String.ofList (padded.toList.drop cut)
  (if mantissa < 0 then "-" else "") ++ whole ++ "." ++
    if fraction.isEmpty then "0" else fraction

mutual

/-- A document as text. Types that are not spelled out have no text of their own. -/
def write : Document → String
  | .null => "null"
  | .bool b => if b then "true" else "false"
  | .int n => toString n
  | .decimal mantissa exponent => writeDecimal mantissa exponent
  | .text s => writeText s
  | .list items => "[" ++ writeItems items ++ "]"
  | .record fields => "\x7b" ++ writeFields fields ++ "\x7d"
  | .type _ => "null"

def writeItems : List Document → String
  | [] => ""
  | [d] => d.write
  | d :: rest => d.write ++ "," ++ writeItems rest

def writeField : String × Document → String
  | (key, d) => writeText key ++ ":" ++ d.write

def writeFields : List (String × Document) → String
  | [] => ""
  | [f] => writeField f
  | f :: rest => writeField f ++ "," ++ writeFields rest

end

end TypeFlow.Document
