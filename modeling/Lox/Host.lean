/-
# The host

What a program can learn from the machine it runs on: the time, and through `host` expressions the
environment variables. The text given to `host` is a command and its argument. It is obeyed only
where the user has allowed that.
-/

import Lox.Text.WhiteSpace
import Lox.Value.Basic

namespace Lox

/-- What is found in the environment under a name. -/
inductive HostVariable where
  | unset
  | text (value : String)
  /-- Bytes that are no text. -/
  | undecodable
  deriving DecidableEq, Repr

/-- The machine a program runs on. -/
structure Host where
  environment : String → HostVariable
  /-- What its clock shows, in seconds since 1970, when it is read for the first time, the second
  time and so on. -/
  clock : Nat → Int64

namespace Host

/-- Why a command of the host failed. -/
inductive CommandFailure where
  | missingName
  | undecodable (name : String)
  deriving DecidableEq, Repr

/-- Why nothing came of a text given to `host`. -/
inductive Failure where
  | disabled
  | unknownCommand (command : String)
  | failed (command : String) (reason : CommandFailure)
  deriving DecidableEq, Repr

/-- Why a command failed, in words. -/
def CommandFailure.message : CommandFailure → String
  | missingName => "missing variable name"
  | undecodable name => "'" ++ name ++ "' is not valid unicode"

/-- Why nothing came of a text given to `host`, in words. -/
def Failure.message : Failure → String
  | disabled => "Host extensions are disabled."
  | unknownCommand command => "Unknown host command '" ++ command ++ "'."
  | failed command reason => "Host command '" ++ command ++ "' failed: " ++ reason.message

/-- What is found in the environment under `name`. No variable has NUL in its name. -/
def variableNamed (host : Host) (name : String) : HostVariable :=
  if name.toList.contains '\x00' then .unset else host.environment name

/-- The value of an environment variable. -/
def env (host : Host) (name : String) : Except CommandFailure Value :=
  if name.isEmpty then
    .error .missingName
  else
    match host.variableNamed name with
    | .unset => .ok .nil
    | .text value => .ok (.string value)
    | .undecodable => .error (.undecodable name)

/-- Obey a command, where commands are `allowed`. The command is the first word of the text, and its
argument is the rest without the white space around it. -/
def obey (host : Host) (allowed : Bool) (code : String) : Except Failure Value :=
  if !allowed then
    .error .disabled
  else
    let (command, argument) := Text.splitWord (Text.trim code.toList)
    let command := String.ofList command
    let argument := String.ofList argument
    if command = "echo" then
      .ok (.string argument)
    else if command = "env" then
      (host.env argument).mapError (.failed command)
    else
      .error (.unknownCommand command)

end Host

end Lox
