/-
# Frames

A frame holds the variables of one execution of a block or of one call. Frames are shared: functions
keep the frames that they could see where they were declared, so a frame outlives the execution that
made it. All frames lie in one store and are referred to by number. What a piece of a program can
see is a list of such numbers, the innermost frame first, and making a scope puts one more in front;
so no frame can enclose itself, and every search through the frames ends.
-/

import Lox.Fault

namespace Lox

/-- The variables of a frame and their values, each variable once. -/
abbrev Frame := List (String × Value)

namespace Frame

/-- The value of a variable. -/
def find? (frame : Frame) (name : String) : Option Value := frame.lookup name

/-- Give a variable a value, whether it exists already or not. -/
def insert (name : String) (value : Value) : Frame → Frame
  | [] => [(name, value)]
  | (other, old) :: rest =>
    if other = name then (name, value) :: rest else (other, old) :: insert name value rest

theorem find?_cons (first name : String) (value : Value) (rest : Frame) :
    find? ((first, value) :: rest) name = if name = first then some value else find? rest name := by
  by_cases h : name = first
  · rw [if_pos h, find?, h, List.lookup_cons_self]
  · rw [if_neg h, find?, List.lookup_cons, beq_false_of_ne h]
    rfl

theorem find?_insert (frame : Frame) (name other : String) (value : Value) :
    (frame.insert name value).find? other =
      if other = name then some value else frame.find? other := by
  induction frame with
  | nil => exact find?_cons name other value []
  | cons entry rest ih =>
    obtain ⟨first, old⟩ := entry
    by_cases hfirst : first = name
    · rw [insert, if_pos hfirst, find?_cons, find?_cons, hfirst]
      split <;> rfl
    · rw [insert, if_neg hfirst, find?_cons, find?_cons, ih]
      by_cases hother : other = first
      · rw [if_pos hother, if_pos hother, if_neg fun h => hfirst (hother.symm.trans h)]
      · rw [if_neg hother, if_neg hother]

end Frame

/-- The frames made so far, and the number for the next function. -/
structure Store where
  /-- The frames, by their numbers. -/
  frames : Array Frame
  /-- How many functions have come into being. -/
  functions : Nat

namespace Store

/-- The number of the frame with the global variables. -/
def globalFrame : FrameId := 0

/-- What can be seen outside every block and function. -/
def globals : Environment := [globalFrame]

/-- A store whose only frame is that of the global variables, without any. -/
def empty : Store := ⟨#[[]], 0⟩

/-- The value of a variable in one frame. -/
def find? (store : Store) (frame : FrameId) (name : String) : Option Value :=
  store.frames[frame]?.bind (·.find? name)

/-- Give a variable of one frame a value. -/
def insert (store : Store) (frame : FrameId) (name : String) (value : Value) : Store :=
  { store with frames := store.frames.modify frame (·.insert name value) }

/-- Make a new frame inside an environment. -/
def child (store : Store) (environment : Environment) : Environment × Store :=
  (store.frames.size :: environment, { store with frames := store.frames.push [] })

/-- Declare a variable in the innermost frame, in place of an older one of that name there. -/
def define (store : Store) (environment : Environment) (name : String) (value : Value) : Store :=
  match environment with
  | [] => store
  | frame :: _ => store.insert frame name value

/-- A value for a function that comes into being. -/
def newFunction (store : Store) (called : Callable) : Value × Store :=
  (.callable store.functions called, { store with functions := store.functions + 1 })

/-- Make the functions that every program starts with and declare them in the innermost frame. -/
def install (store : Store) (environment : Environment) : Store :=
  Builtin.all.foldl
    (fun store builtin =>
      let (value, store) := store.newFunction (.builtin builtin)
      store.define environment builtin.name value)
    store

/-! ## Variables by name -/

/-- The nearest variable of a name: the frame it is in and its value. -/
def lookup (store : Store) (environment : Environment) (name : Token) :
    Except Fault (FrameId × Value) :=
  match environment.findSome? fun frame => (store.find? frame name.lexeme).map (frame, ·) with
  | some found => .ok found
  | none => .error ⟨name, .undefinedVariable name.lexeme⟩

/-- The value of the nearest variable of a name. -/
def get (store : Store) (environment : Environment) (name : Token) : Except Fault Value :=
  (store.lookup environment name).map (·.2)

/-- Assign to the nearest variable of a name. Assignment never makes a variable. -/
def assign (store : Store) (environment : Environment) (name : Token) (value : Value) :
    Except Fault Store :=
  (store.lookup environment name).map fun (frame, _) => store.insert frame name.lexeme value

/-! ## Variables by depth -/

/-- What an environment is from the frame at a depth outwards. -/
def ancestor (environment : Environment) (depth : Nat) (name : Token) :
    Except Fault Environment :=
  match environment.drop depth with
  | [] => .error ⟨name, .internal (.pastOutermostFrame depth name.lexeme)⟩
  | outer => .ok outer

/-- The variable of a name in the frame at a depth, which is to have one: the frame and its
value. -/
def lookupAt (store : Store) (environment : Environment) (depth : Nat) (name : Token) :
    Except Fault (FrameId × Value) :=
  match environment.drop depth with
  | [] => .error ⟨name, .internal (.pastOutermostFrame depth name.lexeme)⟩
  | frame :: _ =>
    match store.find? frame name.lexeme with
    | some value => .ok (frame, value)
    | none => .error ⟨name, .internal (.missingVariable depth name.lexeme)⟩

/-- The value of a variable in the frame at a depth. -/
def getAt (store : Store) (environment : Environment) (depth : Nat) (name : Token) :
    Except Fault Value :=
  (store.lookupAt environment depth name).map (·.2)

/-- Assign to a variable in the frame at a depth. -/
def assignAt (store : Store) (environment : Environment) (depth : Nat) (name : Token)
    (value : Value) : Except Fault Store :=
  (store.lookupAt environment depth name).map fun (frame, _) =>
    store.insert frame name.lexeme value

end Store

end Lox
