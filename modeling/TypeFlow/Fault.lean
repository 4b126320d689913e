/-! # Faults

The ways in which an analysis step can stop. A fault either follows from the shape of the data
(a missing key, a value of the wrong kind) or is stated by a rule, with its wording. -/

namespace TypeFlow

/-- Causes for which an analysis step stops. -/
inductive Fault where
  /-- A table has no entry for a key. -/
  | missingKey
  /-- A value lacks the property that is asked of it. -/
  | missingProperty
  /-- A position lies outside a list. -/
  | outOfRange
  /-- A value is of a kind that the operation cannot take. -/
  | wrongKind
  /-- A value of the right kind that the operation cannot take. -/
  | badValue
  /-- A table changed its size while it was walked. -/
  | tableChanged
  /-- Recursion went deeper than any finite value allows. -/
  | tooDeep
  /-- A name is used that nothing defines. -/
  | unknownName
  /-- A variable is read before it has a value. -/
  | unboundVariable
  /-- A file or directory does not exist. -/
  | noSuchFile
  /-- A directory stands where a file is needed. -/
  | isDirectory
  /-- A file stands where a directory is needed. -/
  | notDirectory
  /-- A source file does not parse. -/
  | badSource
  /-- A data file does not parse. -/
  | badData
  /-- A helper program reported failure. -/
  | commandFailed
  | divisionByZero
  | timedOut
  /-- The command line asks to stop with an exit code. -/
  | exit (code : Nat)
  /-- A rule rejects a value, in its own words. -/
  | rejectedValue (message : String)
  /-- A rule rejects the kind of a value, in its own words. -/
  | rejectedKind (message : String)
deriving DecidableEq, Repr, Inhabited

end TypeFlow
