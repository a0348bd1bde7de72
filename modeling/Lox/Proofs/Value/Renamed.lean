/-
# Values and faults under a renaming

Where a local variable is renamed, the values that a program computes stay the same but for the
functions, which carry code. A function keeps its name when it is renamed within, and it can see the
same frames; so no program can tell the two apart, and every operator makes the same of them.

Each frame is marked or not. The code of a function is written for the marks of the frames that it
can see. Faults report the names of variables, and there the new name may stand for the old one.
-/

import Lox.Proofs.Scope.Renamed
import Lox.Proofs.Value.Indistinct

namespace Lox

/-! ## Faults -/

/-- A cause of a fault with a variable called by its new name. -/
def FaultCause.respelled (ρ : Respelling) : FaultCause → FaultCause
  | undefinedVariable name => undefinedVariable (ρ.spell true name)
  | internal (.pastOutermostFrame depth name) =>
    internal (.pastOutermostFrame depth (ρ.spell true name))
  | internal (.missingVariable depth name) => internal (.missingVariable depth (ρ.spell true name))
  | cause => cause

/-- A fault with a variable called by its new name, at the token it happened at and in the cause. -/
def Fault.respelled (ρ : Respelling) (fault : Fault) : Fault :=
  ⟨fault.token.respelled ρ true, fault.cause.respelled ρ⟩

/-- Two faults that differ at most in the name of a variable. -/
def Fault.Renamed (ρ : Respelling) (fault fault' : Fault) : Prop :=
  fault' = fault ∨ fault' = fault.respelled ρ

/-- A fault at a name is one at what is written for it, if its cause says the same of both. -/
theorem Fault.renamed_of_token {ρ : Respelling} {mark : Bool} {name name' : Token}
    (h : name.Renamed ρ mark name') (cause : Token → FaultCause)
    (hcause : cause (name.respelled ρ true) = (cause name).respelled ρ) :
    Fault.Renamed ρ ⟨name, cause name⟩ ⟨name', cause name'⟩ := by
  obtain rfl := h.eq
  cases mark with
  | false =>
    rw [Token.respelled_false]
    exact .inl rfl
  | true =>
    rw [hcause]
    exact .inr rfl

/-! ## Values -/

/-- Which frames are marked of those that can be seen, the innermost first. What is said by a list
of marks that ends before all frames have come is that no further one is marked. -/
def Environment.Marked (flags : List Bool) (environment : Environment) (marks : List Bool) : Prop :=
  ∀ depth frame, environment[depth]? = some frame →
    flags[frame]? = some (markAt marks (some depth))

section Relations

variable (reach : AccessId → AccessId → Option Nat → Prop) (ρ : Respelling)

/-- A variable is renamed in code that is executed: what is written for the name of an access is
told by the depth at which both accesses find their variables. -/
def Renaming.dynamic : Renaming where
  accesses _ marks id name id' name' :=
    ∃ depth, reach id id' depth ∧ name.Renamed ρ (markAt marks depth) name'
  declares mark := Token.Renamed ρ mark

/-- Two declarations of functions that differ at most in the names of variables, in scopes with some
marks. -/
inductive FunctionDecl.Renamed (marks : List Bool) : FunctionDecl → FunctionDecl → Prop
  | intro {mark : Bool} {p : Place} {name : Token} {parameters parameters' : List Token}
      {body body' : List Stmt}
      (hparameters : List.Forall₂ (Token.Renamed ρ mark) parameters parameters')
      (hbody : Stmt.AllRenamed (.dynamic reach ρ) p (mark :: marks) body body') :
      FunctionDecl.Renamed marks ⟨name, parameters, body⟩ ⟨name, parameters', body'⟩

/-- Two things to be called that see the same frames, where some frames are marked, and differ at
most in the names of variables. -/
inductive Callable.Renamed (flags : List Bool) : Callable → Callable → Prop
  | function {declaration declaration' : FunctionDecl} {closure : Environment} {marks : List Bool}
      (hclosure : closure.Marked flags marks) (h : declaration.Renamed reach ρ marks declaration') :
      Callable.Renamed flags (.function declaration closure) (.function declaration' closure)
  | builtin {builtin : Builtin} : Callable.Renamed flags (.builtin builtin) (.builtin builtin)

/-- Two values that are the same data or the same function, where some frames are marked. -/
inductive Value.Renamed (flags : List Bool) : Value → Value → Prop
  | data {value : Value} (h : value.IsData) : Value.Renamed flags value value
  | callable {identity : Nat} {called called' : Callable}
      (h : called.Renamed reach ρ flags called') :
      Value.Renamed flags (.callable identity called) (.callable identity called')

end Relations

variable {reach reach' : AccessId → AccessId → Option Nat → Prop} {ρ : Respelling}
  {flags flags' : List Bool}

theorem Renaming.spells_dynamic : (dynamic reach ρ).Spells ρ := fun _ _ _ => Token.Renamed.lexeme

/-- Code stays renamed when more accesses are known to find the same variable. -/
theorem Stmt.AllRenamed.mono {p : Place} {marks : List Bool} {ss ss' : List Stmt}
    (h : AllRenamed (.dynamic reach ρ) p marks ss ss')
    (himp : ∀ id id' depth, reach id id' depth → reach' id id' depth) :
    AllRenamed (.dynamic reach' ρ) p marks ss ss' := by
  have himplies : (Renaming.dynamic reach ρ).Implies ρ (fun _ _ _ => True) (fun _ _ _ => True)
      (.dynamic reach' ρ) :=
    ⟨Renaming.spells_dynamic, fun _ _ _ h => h,
      fun ⟨depth, hreach, hname⟩ _ _ => ⟨depth, himp _ _ _ hreach, hname⟩⟩
  exact h.transport himplies (fun _ _ _ _ => trivial) fun _ _ _ _ => trivial

/-- Frames stay marked when there are more. -/
theorem Environment.Marked.mono {environment : Environment} {marks : List Bool}
    (h : environment.Marked flags marks) (hflags : flags <+: flags') :
    environment.Marked flags' marks := by
  obtain ⟨new, rfl⟩ := hflags
  intro depth frame hframe
  have hget := h depth frame hframe
  rw [List.getElem?_append_left (List.getElem?_eq_some_iff.1 hget).1, hget]

theorem FunctionDecl.Renamed.mono {marks : List Bool} {declaration declaration' : FunctionDecl}
    (h : declaration.Renamed reach ρ marks declaration')
    (himp : ∀ id id' depth, reach id id' depth → reach' id id' depth) :
    declaration.Renamed reach' ρ marks declaration' := by
  cases h with
  | intro hparameters hbody => exact .intro hparameters (hbody.mono himp)

/-! ## Telling values apart -/

namespace Callable.Renamed

variable {called called' : Callable} (h : called.Renamed reach ρ flags called')
include h

theorem name_eq : called.name = called'.name := by
  cases h with
  | function _ h =>
    cases h
    rfl
  | builtin => rfl

theorem arity_eq : called.arity = called'.arity := by
  cases h with
  | function _ h =>
    cases h with
    | intro hparameters _ => exact hparameters.length_eq
  | builtin => rfl

theorem display_eq : called.display = called'.display := by
  have hname := h.name_eq
  cases h with
  | function _ _ =>
    unfold display
    rw [hname]
  | builtin => rfl

theorem mono (himp : ∀ id id' depth, reach id id' depth → reach' id id' depth)
    (hflags : flags <+: flags') : called.Renamed reach' ρ flags' called' := by
  cases h with
  | function hclosure h => exact .function (hclosure.mono hflags) (h.mono himp)
  | builtin => exact .builtin

end Callable.Renamed

namespace Value.Renamed

variable {value value' : Value}

theorem nil : Value.Renamed reach ρ flags .nil .nil := .data nofun

theorem indistinct (h : value.Renamed reach ρ flags value') : value.Indistinct value' := by
  cases h with
  | data hdata => exact .data hdata
  | callable h => exact .callable h.display_eq

theorem mono (h : value.Renamed reach ρ flags value')
    (himp : ∀ id id' depth, reach id id' depth → reach' id id' depth)
    (hflags : flags <+: flags') : value.Renamed reach' ρ flags' value' := by
  cases h with
  | data hdata => exact .data hdata
  | callable h => exact .callable (h.mono himp hflags)

end Value.Renamed

end Lox
