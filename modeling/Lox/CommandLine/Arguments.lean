/-
# Command-line arguments

Arguments are read from left to right. A request for help ends the reading at once; anything wrong
with them ends it too.
-/

import Lox.Execution.State

namespace Lox.CommandLine

/-- What is to be done. -/
inductive Mode where
  | script (path : String)
  | prompt
  | help
  deriving DecidableEq, Repr

/-- Why a text is no call depth. -/
inductive DepthProblem where
  | empty
  | invalidDigit
  | tooLarge
  deriving DecidableEq, Repr

/-- What is wrong with the arguments. -/
inductive UsageError where
  | missingValue (option : String)
  | invalidDepth (text : String) (problem : DepthProblem)
  | unknownOption (option : String)
  | severalScripts
  deriving DecidableEq, Repr

/-- Why a text is no call depth, in words. -/
def DepthProblem.message : DepthProblem → String
  | empty => "cannot parse integer from empty string"
  | invalidDigit => "invalid digit found in string"
  | tooLarge => "number too large to fit in target type"

/-- What is wrong with the arguments, in words. -/
def UsageError.message : UsageError → String
  | missingValue option => "Missing value after " ++ option
  | invalidDepth text problem => "Invalid call depth '" ++ text ++ "': " ++ problem.message
  | unknownOption option => "Unknown option '" ++ option ++ "'"
  | severalScripts => "Only one script is supported"

/-- The arguments explained. -/
def usage : String :=
  "Usage: treelox [--no-resolver] [--max-depth N] [--allow-host] [script]"

/-- Read further decimal digits of a number whose digits so far make `value`. What is wrong first is
what is reported. -/
def depthDigits : List Char → (value : Nat) → Except DepthProblem Nat
  | [], value => .ok value
  | c :: rest, value =>
    if '0' ≤ c ∧ c ≤ '9' then
      let value := value * 10 + (c.toNat - '0'.toNat)
      if value < UInt64.size then depthDigits rest value else .error .tooLarge
    else
      .error .invalidDigit

/-- Read a call depth: decimal digits, possibly behind a plus sign. -/
def depth (text : String) : Except DepthProblem Nat :=
  match text.toList with
  | [] => .error .empty
  | ['+'] => .error .invalidDigit
  | '+' :: digits => depthDigits digits 0
  | digits => depthDigits digits 0

/-- Read arguments, given what the ones before them say. -/
def readArguments (config : Config) (script : Option String) :
    List String → Except UsageError (Config × Mode)
  | [] => .ok (config, match script with | some path => .script path | none => .prompt)
  | "--no-resolver" :: rest => readArguments { config with useResolver := false } script rest
  | "--allow-host" :: rest => readArguments { config with allowHost := true } script rest
  | "--max-depth" :: [] => .error (.missingValue "--max-depth")
  | "--max-depth" :: text :: rest =>
    match depth text with
    | .ok maxCallDepth => readArguments { config with maxCallDepth } script rest
    | .error problem => .error (.invalidDepth text problem)
  | "-h" :: _ | "--help" :: _ => .ok (config, .help)
  | argument :: rest =>
    if argument.toList.head? = some '-' then
      .error (.unknownOption argument)
    else if script.isSome then
      .error .severalScripts
    else
      readArguments config (some argument) rest

end Lox.CommandLine
