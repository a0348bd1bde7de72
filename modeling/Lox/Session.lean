/-
# Sessions

A session runs one source text after another. What one run defines, the next can use; a run that is
stopped leaves behind what it did until then, and one that is rejected before it is executed leaves
nothing behind.
-/

import Lox.Execution.Run
import Lox.Parse.Program
import Lox.Scope.Resolve
import Lox.Token.Scan

namespace Lox

/-- Why a run did not succeed. -/
inductive Failure where
  | scan (errors : List ScanError)
  | parse (errors : List ParseError)
  | resolve (errors : List ResolveError)
  | runtime (fault : Fault)
  deriving DecidableEq, Repr

namespace Failure

/-- The phase in which a run failed. -/
def phase : Failure → Phase
  | scan _ => .scan
  | parse _ => .parse
  | resolve _ => .resolve
  | runtime _ => .runtime

/-- Why a run failed, in words. -/
def message : Failure → String
  | scan errors => "scanning failed with " ++ toString errors.length ++ " error(s)"
  | parse errors => "parsing failed with " ++ toString errors.length ++ " error(s)"
  | resolve errors => "resolution failed with " ++ toString errors.length ++ " error(s)"
  | runtime fault => fault.message

/-- The reports of everything that is wrong. -/
def diagnostics : Failure → List Diagnostic
  | scan errors => errors.map (·.diagnostic)
  | parse errors => errors.map (·.diagnostic)
  | resolve errors => errors.map (·.diagnostic)
  | runtime fault => [fault.diagnostic]

/-- The exit status that tells a rejected program from one that was stopped. -/
def exitCode : Failure → Nat
  | scan _ | parse _ | resolve _ => 65
  | runtime _ => 70

end Failure

/-- What a run came to. -/
structure Report where
  result : Except Failure Unit
  output : String

/-- What is wrong, in the order in which it was found. -/
def Report.diagnostics (report : Report) : List Diagnostic :=
  match report.result with
  | .ok () => []
  | .error failure => failure.diagnostics

/-- The state of a session between two runs. -/
structure Session where
  config : Config
  /-- The first number for variable accesses that is not in use. -/
  nextId : AccessId
  /-- The depths of the variable accesses of all programs so far. Functions declared by earlier
  programs still refer to theirs. -/
  depths : DepthTable
  state : State

namespace Session

/-- A session that has not run anything. -/
def start (config : Config) : Session := ⟨config, 0, ∅, .initial⟩

/-- Add the depths of the accesses of one more program. -/
def learn (session : Session) (depths : BindingDepths) : Session :=
  { session with depths := session.depths.learn depths }

/-- Execute a program whose depths are known already. -/
def execute (host : Host) (rounds : Nat) (session : Session) (program : List Stmt) :
    Option (Except Fault Unit × String × Session) :=
  let setting := ⟨session.config, session.depths, host⟩
  match Program.execute setting rounds program session.state with
  | none => none
  | some (result, state) =>
    some (result, state.output, { session with state := { state with output := "" } })

/-- The program in a text, with the depths that have to be known to execute it. Without the resolver
there is nothing to know. -/
def prepare (session : Session) (source : String) :
    Except Failure (List Stmt × BindingDepths) × AccessId :=
  match Token.scan source with
  | .error errors => (.error (.scan errors), session.nextId)
  | .ok tokens =>
    match Program.ofTokens tokens session.nextId with
    | (.error errors, nextId) => (.error (.parse errors), nextId)
    | (.ok program, nextId) =>
      if session.config.useResolver then
        match Program.bindingDepths program with
        | .error errors => (.error (.resolve errors), nextId)
        | .ok depths => (.ok (program, depths), nextId)
      else
        (.ok (program, ∅), nextId)

/-- Run a text, unless one of its statements takes more than `rounds` rounds. -/
def run (host : Host) (rounds : Nat) (session : Session) (source : String) :
    Option (Report × Session) :=
  match session.prepare source with
  | (.error failure, nextId) => some (⟨.error failure, ""⟩, { session with nextId })
  | (.ok (program, depths), nextId) =>
    match { session.learn depths with nextId }.execute host rounds program with
    | none => none
    | some (result, output, session) => some (⟨result.mapError .runtime, output⟩, session)

/-- Run texts one after another. -/
def runAll (host : Host) (rounds : Nat) (session : Session) :
    List String → Option (List Report × Session)
  | [] => some ([], session)
  | source :: sources =>
    match session.run host rounds source with
    | none => none
    | some (report, session) =>
      match session.runAll host rounds sources with
      | none => none
      | some (reports, session) => some (report :: reports, session)

end Session

end Lox
