/-
# The interpreter as a program

The outer layer: it reads files and the lines that the user enters, and writes what they come to.
What that is, `Lox.CommandLine` decides.
-/

import Lox.CommandLine.Run
import Lox.Host.Definition
import Std.Time.DateTime.Timestamp

namespace Lox.CommandLine

/-- More rounds than any statement can take in a lifetime. -/
def lifetime : Nat := 1 <<< 62

/-- The machine that this process runs on, its clock stopped at the present. -/
def thisHost : IO Host := do
  let block ← try IO.FS.readBinFile "/proc/self/environ" catch _ => pure .empty
  let environment := Host.environmentOf (Host.Definition.ofBlock block.toList [] [])
  let now ← Std.Time.Timestamp.now
  let seconds := Int64.ofInt now.toSecondsSinceUnixEpoch.val
  return { environment, clock := fun _ => seconds }

/-- What is found under a path. -/
def findFile (path : String) : IO File := do
  try
    return .content (← IO.FS.readBinFile path)
  catch
    | .noFileOrDirectory .. => return .missing
    | .inappropriateType .. => return .directory
    | problem => return .unreadable (toString problem)

/-- Write what something came to, and give its exit status. -/
def write (outcome : Outcome) : IO UInt32 := do
  let output ← IO.getStdout
  output.putStr outcome.output
  output.flush
  (← IO.getStderr).putStr outcome.errors
  return outcome.exitCode.toUInt32

/-- Write what something came to, if it ever ended. -/
def writeEnded (outcome : Option Outcome) : IO UInt32 :=
  write (outcome.getD ⟨1, "", failureLine "the program does not end"⟩)

/-- The next line of an input with the newline that ends it; `seen` has been read of it so far. -/
partial def readLine (input : IO.FS.Stream) (seen : ByteArray) : IO ByteArray := do
  let bytes ← input.read 1
  match bytes.toList with
  | [] => return seen
  | byte :: _ =>
    let line := seen.push byte
    if byte = 10 then return line else readLine input line

/-- Answer the lines that the user enters. -/
partial def converse (input : IO.FS.Stream) (session : Session) : IO UInt32 := do
  let _ ← write ⟨0, promptText, ""⟩
  let bytes ← readLine input .empty
  if bytes.isEmpty then
    write endOfPrompt
  else
    match answer (← thisHost) lifetime session bytes with
    | none => writeEnded none
    | some (outcome, none) => write outcome
    | some (outcome, some session) =>
      let _ ← write outcome
      converse input session

end Lox.CommandLine

open Lox.CommandLine in
/-- Run the interpreter with the arguments given. -/
def main (arguments : List String) : IO UInt32 := do
  match readArguments .default none arguments with
  | .error error => write (refuse error)
  | .ok (_, .help) => write explain
  | .ok (config, .script path) =>
    writeEnded (runScript (← thisHost) lifetime config path (← findFile path))
  | .ok (config, .prompt) => converse (← IO.getStdin) (.start config)
