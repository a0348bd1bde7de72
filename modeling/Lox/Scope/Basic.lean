/-
# Static scopes

A local scope belongs to a block or to a function; the top level of a program is none. While a
program is gone through, each scope records which names have been declared in it so far, and whether
they have got past their initializer. The depth of a variable access is the number of scopes between
the access and the scope that declares the name.
-/

import Lox.Diagnostic
import Lox.Tree.Basic
import Std.Data.TreeMap

namespace Lox

/-- The names declared in a scope so far, the latest declaration first, and whether each can be read
yet: a variable cannot be read in its own initializer. -/
abbrev Scope := List (String × Bool)

/-- How many scopes lie between a variable access and the scope that declares the variable. An
access that is not listed refers to a global variable. -/
abbrev BindingDepths := Std.TreeMap AccessId Nat

/-- The depths of the variable accesses of all programs so far. Each is kept under the low 32 bits
of the number of its access, so one that comes `2 ^ 32` numbers later takes its place. -/
structure DepthTable where
  /-- The depths under the low bits. -/
  entries : Std.TreeMap UInt32 Nat

namespace DepthTable

instance : EmptyCollection DepthTable := ⟨⟨∅⟩⟩

instance : GetElem? DepthTable AccessId Nat fun table id => UInt32.ofNat id ∈ table.entries where
  getElem table id h := table.entries[UInt32.ofNat id]
  getElem? table id := table.entries[UInt32.ofNat id]?

/-- Put the depths of the accesses of one more program in. -/
def learn (table : DepthTable) (depths : BindingDepths) : DepthTable where
  entries := table.entries.insertMany
    (depths.toList.map fun (id, depth) => (UInt32.ofNat id, depth))

end DepthTable

/-- The ways a program can break the rules of scoping. -/
inductive ResolveProblem where
  /-- A local variable is read in its own initializer. -/
  | readInOwnInitializer
  /-- A return outside every function. -/
  | topLevelReturn
  deriving DecidableEq, Repr

/-- A breach of the rules of scoping and the token it stands at. -/
structure ResolveError where
  /-- What is wrong. -/
  problem : ResolveProblem
  /-- The variable that is read, or the keyword of the return. -/
  token : Token
  deriving DecidableEq, Repr

namespace ResolveError

/-- What is wrong, in words. -/
def message (error : ResolveError) : String :=
  match error.problem with
  | .readInOwnInitializer =>
    "Can't read local variable '" ++ error.token.lexeme ++ "' in its own initializer."
  | .topLevelReturn => "Can't return from top-level code."

/-- The report of a breach of the rules of scoping. -/
def diagnostic (error : ResolveError) : Diagnostic := .atToken .resolve error.token error.message

end ResolveError

namespace Scope

/-- The number of scopes, from the innermost outwards, before the first one that declares a name. -/
def depthOf? (name : String) (scopes : List Scope) : Option Nat :=
  scopes.findIdx? fun scope => (scope.lookup name).isSome

end Scope

end Lox
