/-
# Executing a program

The statements of a program are executed in order until one is stopped by a fault. The machine gets
a bound on its rounds for each statement; a program that does not end within it has no outcome, and
a bound that lets a program end does not change what it does.
-/

import Lox.Execution.Evaluate

namespace Lox.Program

/-- What a program does to a state, unless one of its statements takes more than `rounds` rounds. -/
def execute (setting : Setting) (rounds : Nat) :
    (program : List Stmt) → State → Option (Except Fault Unit × State)
  | [], state => some (.ok (), state)
  | s :: ss, state =>
    match Routine.run (Code.execute setting) rounds (.statement s) state with
    | none => none
    | some (.ok _, state) => execute setting rounds ss state
    | some (.error fault, state) => some (.error fault, state.settle)

end Lox.Program
