/-
# What a call of the interpreter does

The interpreter as a function of its arguments, the files there are and the bytes that the user
enters. It writes what programs print to one stream and everything that is wrong to another, and its
exit status tells how the run went.
-/

import Lox.CommandLine.Arguments
import Lox.Session

namespace Lox.CommandLine

/-- What is found under the path of a script. -/
inductive File where
  | missing
  | directory
  | content (bytes : ByteArray)
  /-- A file that cannot be read, for the reason given. -/
  | unreadable (reason : String)

/-- What a call of the interpreter comes to. -/
structure Outcome where
  exitCode : Nat
  output : String
  errors : String
  deriving DecidableEq, Repr

/-- The reason why bytes cannot be used that are no text. -/
def notText : String := "stream did not contain valid UTF-8"

/-- The text in a file, or the reason why there is none. -/
def File.text : File → Except String String
  | missing => .error "No such file or directory (os error 2)"
  | directory => .error "Is a directory (os error 21)"
  | content bytes =>
    match String.fromUTF8? bytes with
    | some text => .ok text
    | none => .error notText
  | unreadable reason => .error reason

/-- A message that stands on a line of its own. -/
def line (message : String) : String := message.push '\n'

/-- The line that says that nothing could be done. -/
def failureLine (message : String) : String := line ("error: " ++ message)

/-- What a run writes to standard error: its diagnostics, one on each line. -/
def diagnosticLines (report : Report) : String :=
  report.diagnostics.foldl (fun text diagnostic => text ++ line diagnostic.render) ""

/-- The exit status of a script. -/
def scriptStatus (report : Report) : Nat :=
  match report.result with
  | .ok () => 0
  | .error failure => failure.exitCode

/-- Run the script found under a path. -/
def runScript (host : Host) (rounds : Nat) (config : Config) (path : String) (file : File) :
    Option Outcome :=
  match file.text with
  | .error reason => some ⟨1, "", failureLine ("Reading " ++ path ++ ": " ++ reason)⟩
  | .ok source =>
    match (Session.start config).run host rounds source with
    | none => none
    | some (report, _) => some ⟨scriptStatus report, report.output, diagnosticLines report⟩

/-- What the user is asked for a line with. -/
def promptText : String := "> "

/-- The answer to a line that the user enters: what it comes to and, unless that ends the session,
the session after it. -/
def answer (host : Host) (rounds : Nat) (session : Session) (bytes : ByteArray) :
    Option (Outcome × Option Session) :=
  match String.fromUTF8? bytes with
  | none => some (⟨1, "", failureLine ("Reading stdin: " ++ notText)⟩, none)
  | some source =>
    match session.run host rounds source with
    | none => none
    | some (report, session) => some (⟨0, report.output, diagnosticLines report⟩, some session)

/-- What the end of the input comes to. -/
def endOfPrompt : Outcome := ⟨0, "\n", ""⟩

/-- The lines of an input, each with the newline that ends it; `seen` holds the bytes of the current
line so far and `done` the lines before it, the last first. -/
def linesFrom : List UInt8 → (seen : ByteArray) → (done : List ByteArray) → List ByteArray
  | [], seen, done => (if seen.isEmpty then done else seen :: done).reverse
  | byte :: rest, seen, done =>
    if byte = 10 then linesFrom rest .empty (seen.push byte :: done)
    else linesFrom rest (seen.push byte) done

/-- The lines of an input, each with the newline that ends it. -/
def lines (input : ByteArray) : List ByteArray := linesFrom input.toList .empty []

/-- Answer lines until they or the session end; `output` and `errors` have been written so far. -/
def answerAll (host : Host) (rounds : Nat) (session : Session) (output errors : String) :
    List ByteArray → Option Outcome
  | [] => some ⟨endOfPrompt.exitCode, output ++ promptText ++ endOfPrompt.output, errors⟩
  | bytes :: rest =>
    match answer host rounds session bytes with
    | none => none
    | some (outcome, next) =>
      let output := output ++ promptText ++ outcome.output
      let errors := errors ++ outcome.errors
      match next with
      | none => some ⟨outcome.exitCode, output, errors⟩
      | some session => answerAll host rounds session output errors rest

/-- What a call with wrong arguments comes to. -/
def refuse (error : UsageError) : Outcome := ⟨64, "", line error.message ++ line usage⟩

/-- What a call for help comes to. -/
def explain : Outcome := ⟨0, line usage, ""⟩

/-- What a call of the interpreter comes to, unless a statement takes more than `rounds` rounds. -/
def run (host : Host) (rounds : Nat) (arguments : List String) (files : String → File)
    (input : ByteArray) : Option Outcome :=
  match readArguments .default none arguments with
  | .error error => some (refuse error)
  | .ok (_, .help) => some explain
  | .ok (config, .script path) => runScript host rounds config path (files path)
  | .ok (config, .prompt) => answerAll host rounds (.start config) "" "" (lines input)

end Lox.CommandLine
