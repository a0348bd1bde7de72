/-
# Definitions of environment variables

A process is given its environment variables as definitions, each a name, an equals sign and a value
in bytes. A name refers to what stands behind it and an equals sign at the start of a definition.
Nothing marks which equals sign of a definition ends the name. So what stands before a later one is
found as well: where `A` holds `x=y`, the name `A=x` refers to `y`.
-/

import Lox.Host

namespace Lox.Host

/-- The definition of an environment variable, in bytes. -/
abbrev Definition := List UInt8

namespace Definition

/-- The definition of the variable `name` that holds `value`. -/
def ofValue (name : String) (value : List UInt8) : Definition :=
  name.toUTF8.toList ++ '='.toUInt8 :: value

/-- What stands behind a name and an equals sign in a definition that starts with them. -/
def valueOf? (definition : Definition) (name : String) : Option (List UInt8) :=
  (ofValue name []).isPrefixOf? definition

/-- The definitions in a block, where a zero byte ends each of them. The bytes in `seen`, last
first, come before, and so do the definitions in `done`. -/
def ofBlock : List UInt8 → (seen : Definition) → (done : List Definition) → List Definition
  | [], _, done => done.reverse
  | byte :: rest, seen, done =>
    if byte = 0 then ofBlock rest [] (seen.reverse :: done) else ofBlock rest (byte :: seen) done

end Definition

/-- What is found where a variable holds these bytes. -/
def variableOf (value : List UInt8) : HostVariable :=
  match String.fromUTF8? ⟨value.toArray⟩ with
  | some text => .text text
  | none => .undecodable

/-- What a name refers to: the first definition that it fits counts. -/
def environmentOf (definitions : List Definition) (name : String) : HostVariable :=
  match definitions.findSome? (·.valueOf? name) with
  | some value => variableOf value
  | none => .unset

end Lox.Host
