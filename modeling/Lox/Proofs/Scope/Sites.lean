/-
# The sites of a program

What matters to resolution in a program are its variable accesses and its returns. `Program.sites`
lists them, each at its place, in the order in which a program is gone through. An access has the
number that its tree has, but nothing else about a site depends on how accesses are numbered.
-/

import Lox.Proofs.Grammar.Numbering
import Lox.Proofs.Grammar.WellFormed
import Lox.Scope.Basic

namespace Lox

/-! ## Depths -/

namespace Place

/-- The number of scopes between a place and the innermost one that declares a name before it. A
variable counts as declared in its own initializer. -/
def depthOf? (place : Place) (name : String) : Option Nat :=
  match place.scopes with
  | [] => none
  | scope :: scopes =>
    if place.initializes = some name ∨ name ∈ scope.before then some 0
    else (scopes.findIdx? fun scope => name ∈ scope.before).map (· + 1)

/-- The number of scopes between a place and the innermost one that declares a name at all. -/
def owner? (place : Place) (name : String) : Option Nat :=
  place.scopes.findIdx? fun scope => name ∈ scope.names

variable {place : Place} {name : String}

/-- A place in the initializer of a local variable awaits the variable, unless the scope has
declared one of this name before. -/
def Awaits (place : Place) (name : String) : Prop :=
  place.initializes = some name ∧ ∃ scope ∈ place.scopes.head?, name ∉ scope.before

theorem Awaits.scopes_ne_nil (h : place.Awaits name) : place.scopes ≠ [] := by
  intro hnil
  obtain ⟨-, scope, hscope, -⟩ := h
  rw [hnil] at hscope
  cases hscope

/-- A variable that is awaited is at depth zero. -/
theorem Awaits.depthOf? (h : place.Awaits name) : place.depthOf? name = some 0 := by
  obtain ⟨hinitializes, scope, hscope, -⟩ := h
  obtain ⟨_ | ⟨first, scopes⟩, inFunction, initializes⟩ := place
  · cases hscope
  · exact if_pos (.inl hinitializes)

/-- A name that is not awaited is at the depth of the innermost scope that declares it before. -/
theorem depthOf?_eq_findIdx? (h : ¬ place.Awaits name) :
    place.depthOf? name = place.scopes.findIdx? fun scope => name ∈ scope.before := by
  obtain ⟨_ | ⟨scope, scopes⟩, inFunction, initializes⟩ := place
  · rfl
  · unfold Place.depthOf?
    dsimp only
    rw [List.findIdx?_cons]
    by_cases hbefore : name ∈ scope.before
    · rw [if_pos (.inr hbefore), if_pos (decide_eq_true hbefore)]
    · have hnot : initializes ≠ some name := fun heq => h ⟨heq, scope, rfl, hbefore⟩
      rw [if_neg fun h => h.elim hnot hbefore, if_neg fun h => hbefore (of_decide_eq_true h)]

end Place

/-! ## Sites -/

/-- Something that matters to resolution, at its place. -/
inductive Site where
  /-- A variable is read. -/
  | read (place : Place) (id : AccessId) (name : Token)
  /-- A variable is assigned. -/
  | assign (place : Place) (id : AccessId) (name : Token)
  /-- A return. -/
  | return (place : Place) (keyword : Token)

namespace Site

/-- The number of an access. -/
def id? : Site → Option AccessId
  | read _ id _ | assign _ id _ => some id
  | .return _ _ => none

/-- What is noted down at a site. -/
def record (depths : BindingDepths) : Site → BindingDepths
  | read place id name | assign place id name =>
    match place.depthOf? name.lexeme with
    | some depth => depths.insert id depth
    | none => depths
  | .return _ _ => depths

/-- What is wrong at a site, if anything is. -/
def error? : Site → Option ResolveError
  | read place _ name =>
    if place.scopes ≠ [] ∧ place.initializes = some name.lexeme then
      some ⟨.readInOwnInitializer, name⟩
    else
      none
  | assign _ _ _ => none
  | .return place keyword => if place.inFunction then none else some ⟨.topLevelReturn, keyword⟩

/-- The depth at an access. -/
def depth? : Site → Option Nat
  | read place _ name | assign place _ name => place.depthOf? name.lexeme
  | .return _ _ => none

end Site

mutual

/-- The sites of an expression at a place. -/
def Expr.sites (place : Place) : Expr → List Site
  | .literal _ => []
  | .read id name => [.read place id name]
  | .assign id name value => value.sites place ++ [.assign place id name]
  | .unary _ operand => operand.sites place
  | .binary left _ right | .logical left _ right => left.sites place ++ right.sites place
  | .conditional condition whenTrue whenFalse =>
    condition.sites place ++ whenTrue.sites place ++ whenFalse.sites place
  | .call callee _ arguments => callee.sites place ++ Expr.allSites place arguments
  | .group inner => inner.sites place
  | .host _ code => code.sites place

/-- The sites of some expressions at a place. -/
def Expr.allSites (place : Place) : List Expr → List Site
  | [] => []
  | e :: es => e.sites place ++ Expr.allSites place es

end

mutual

/-- The sites of a statement at a place. -/
def Stmt.sites (place : Place) : Stmt → List Site
  | .block body => Stmt.allSites (place.enter body) body
  | .expression value => value.sites place
  | .function name parameters body =>
    Stmt.allSites (place.enterFunction name parameters body) body
  | .ifThen condition whenTrue => condition.sites place ++ whenTrue.sites place
  | .ifElse condition whenTrue whenFalse =>
    condition.sites place ++ whenTrue.sites place ++ whenFalse.sites place
  | .print _ value => value.sites place
  | .return keyword none => [.return place keyword]
  | .return keyword (some value) => .return place keyword :: value.sites place
  | .var _ none => []
  | .var name (some value) => value.sites (place.initializing name.lexeme)
  | .while condition body => condition.sites place ++ body.sites place

/-- The sites of some statements at a place. -/
def Stmt.allSites (place : Place) : List Stmt → List Site
  | [] => []
  | s :: ss => s.sites place ++ Stmt.allSites (place.declaring s.declared) ss

end

/-- The sites of a program. -/
def Program.sites (program : List Stmt) : List Site := Stmt.allSites .top program

/-! ## Sites and numbers -/

mutual

theorem Expr.ids_sites (p : Place) (e : Expr) : (e.sites p).filterMap Site.id? = e.ids := by
  cases e with
  | literal value => rfl
  | read id name => rfl
  | assign id name value =>
    rw [Expr.sites, List.filterMap_append, Expr.ids_sites p value]
    rfl
  | unary operator operand => exact Expr.ids_sites p operand
  | binary left operator right | logical left operator right =>
    rw [Expr.sites, List.filterMap_append, Expr.ids_sites p left, Expr.ids_sites p right]
    rfl
  | conditional condition whenTrue whenFalse =>
    rw [Expr.sites, List.filterMap_append, List.filterMap_append, Expr.ids_sites p condition,
      Expr.ids_sites p whenTrue, Expr.ids_sites p whenFalse]
    rfl
  | call callee paren arguments =>
    rw [Expr.sites, List.filterMap_append, Expr.ids_sites p callee, Expr.ids_allSites p arguments]
    rfl
  | group inner => exact Expr.ids_sites p inner
  | host keyword code => exact Expr.ids_sites p code

theorem Expr.ids_allSites (p : Place) (es : List Expr) :
    (Expr.allSites p es).filterMap Site.id? = Expr.allIds es := by
  cases es with
  | nil => rfl
  | cons e es =>
    rw [Expr.allSites, List.filterMap_append, Expr.ids_sites p e, Expr.ids_allSites p es]
    rfl

end

mutual

theorem Stmt.ids_sites (p : Place) (s : Stmt) : (s.sites p).filterMap Site.id? = s.ids := by
  cases s with
  | block body => exact Stmt.ids_allSites _ body
  | expression value => exact value.ids_sites p
  | function name parameters body => exact Stmt.ids_allSites _ body
  | ifThen condition whenTrue =>
    rw [Stmt.sites, List.filterMap_append, condition.ids_sites p, Stmt.ids_sites p whenTrue]
    rfl
  | ifElse condition whenTrue whenFalse =>
    rw [Stmt.sites, List.filterMap_append, List.filterMap_append, condition.ids_sites p,
      Stmt.ids_sites p whenTrue, Stmt.ids_sites p whenFalse]
    rfl
  | print keyword value => exact value.ids_sites p
  | «return» keyword value =>
    cases value with
    | none => rfl
    | some value => exact value.ids_sites p
  | var name initializer =>
    cases initializer with
    | none => rfl
    | some value => exact value.ids_sites _
  | «while» condition body =>
    rw [Stmt.sites, List.filterMap_append, condition.ids_sites p, Stmt.ids_sites p body]
    rfl

theorem Stmt.ids_allSites (p : Place) (ss : List Stmt) :
    (Stmt.allSites p ss).filterMap Site.id? = Stmt.allIds ss := by
  cases ss with
  | nil => rfl
  | cons s ss =>
    rw [Stmt.allSites, List.filterMap_append, Stmt.ids_sites p s, Stmt.ids_allSites _ ss]
    rfl

end

/-- The numbers of the sites of a program are those of its accesses. -/
theorem Program.ids_sites (program : List Stmt) :
    (Program.sites program).filterMap Site.id? = Stmt.allIds program :=
  Stmt.ids_allSites .top program

/-! ## Sites without numbers -/

/-- A site with its access numbered zero. -/
def Site.unnumbered : Site → Site
  | read place _ name => .read place 0 name
  | assign place _ name => .assign place 0 name
  | .return place keyword => .return place keyword

theorem Stmt.allDeclared_unnumbered (ss : List Stmt) :
    Stmt.allDeclared (Stmt.allUnnumbered ss) = Stmt.allDeclared ss := by
  induction ss with
  | nil => rfl
  | cons s ss ih => exact congrArg₂ (· ++ ·) s.declared_unnumbered ih

mutual

theorem Expr.sites_unnumbered (p : Place) (e : Expr) :
    e.unnumbered.sites p = (e.sites p).map Site.unnumbered := by
  cases e with
  | literal value => rfl
  | read id name => rfl
  | assign id name value =>
    rw [Expr.sites, List.map_append, ← Expr.sites_unnumbered p value]
    rfl
  | unary operator operand => exact Expr.sites_unnumbered p operand
  | binary left operator right | logical left operator right =>
    rw [Expr.sites, List.map_append, ← Expr.sites_unnumbered p left,
      ← Expr.sites_unnumbered p right]
    rfl
  | conditional condition whenTrue whenFalse =>
    rw [Expr.sites, List.map_append, List.map_append, ← Expr.sites_unnumbered p condition,
      ← Expr.sites_unnumbered p whenTrue, ← Expr.sites_unnumbered p whenFalse]
    rfl
  | call callee paren arguments =>
    rw [Expr.sites, List.map_append, ← Expr.sites_unnumbered p callee,
      ← Expr.allSites_unnumbered p arguments]
    rfl
  | group inner => exact Expr.sites_unnumbered p inner
  | host keyword code => exact Expr.sites_unnumbered p code

theorem Expr.allSites_unnumbered (p : Place) (es : List Expr) :
    Expr.allSites p (Expr.allUnnumbered es) = (Expr.allSites p es).map Site.unnumbered := by
  cases es with
  | nil => rfl
  | cons e es =>
    rw [Expr.allSites, List.map_append, ← Expr.sites_unnumbered p e,
      ← Expr.allSites_unnumbered p es]
    rfl

end

mutual

theorem Stmt.sites_unnumbered (p : Place) (s : Stmt) :
    s.unnumbered.sites p = (s.sites p).map Site.unnumbered := by
  cases s with
  | block body =>
    rw [Stmt.unnumbered, Stmt.sites, Place.enter, Stmt.allDeclared_unnumbered]
    exact Stmt.allSites_unnumbered _ body
  | expression value => exact value.sites_unnumbered p
  | function name parameters body =>
    rw [Stmt.unnumbered, Stmt.sites, Place.enterFunction, Stmt.allDeclared_unnumbered]
    exact Stmt.allSites_unnumbered _ body
  | ifThen condition whenTrue =>
    rw [Stmt.sites, List.map_append, ← condition.sites_unnumbered p,
      ← Stmt.sites_unnumbered p whenTrue]
    rfl
  | ifElse condition whenTrue whenFalse =>
    rw [Stmt.sites, List.map_append, List.map_append, ← condition.sites_unnumbered p,
      ← Stmt.sites_unnumbered p whenTrue, ← Stmt.sites_unnumbered p whenFalse]
    rfl
  | print keyword value => exact value.sites_unnumbered p
  | «return» keyword value =>
    cases value with
    | none => rfl
    | some value => exact congrArg (Site.return p keyword :: ·) (value.sites_unnumbered p)
  | var name initializer =>
    cases initializer with
    | none => rfl
    | some value => exact value.sites_unnumbered _
  | «while» condition body =>
    rw [Stmt.sites, List.map_append, ← condition.sites_unnumbered p,
      ← Stmt.sites_unnumbered p body]
    rfl

theorem Stmt.allSites_unnumbered (p : Place) (ss : List Stmt) :
    Stmt.allSites p (Stmt.allUnnumbered ss) = (Stmt.allSites p ss).map Site.unnumbered := by
  cases ss with
  | nil => rfl
  | cons s ss =>
    rw [Stmt.allSites, List.map_append, ← Stmt.sites_unnumbered p s,
      ← Stmt.allSites_unnumbered _ ss, Stmt.allUnnumbered, Stmt.allSites, Stmt.declared_unnumbered]

end

/-! ## Sites and places -/

/-- The sites of some code at a place. -/
def Code.sites (place : Place) : Code → List Site
  | expression e => e.sites place
  | arguments es => Expr.allSites place es
  | statement s => s.sites place
  | body ss => Stmt.allSites place ss

/-- The sites of a part are among those of the whole. -/
theorem Part.sites_subset {p p' : Place} {c c' : Code} (h : Part p c p' c') :
    c'.sites p' ⊆ c.sites p := by
  cases h with
  | assigned | binaryLeft | logicalLeft | callee | firstArgument | ifThenCondition
  | whileCondition | firstStatement => exact List.subset_append_left _ _
  | binaryRight | logicalRight | arguments | otherArguments | ifThenTrue | whileBody
  | otherStatements | whenFalse | ifElseFalse => exact List.subset_append_right _ _
  | condition | ifElseCondition =>
    exact List.Subset.trans (List.subset_append_left _ _) (List.subset_append_left _ _)
  | whenTrue | ifElseTrue =>
    exact List.Subset.trans (List.subset_append_right _ _) (List.subset_append_left _ _)
  | returned => exact List.subset_cons_self _ _
  | operand | grouped | hostCode | evaluated | printed | initializer | block | functionBody
  | whileAgain => exact List.Subset.refl _

/-- The sites of code that stands in a program are among those of the program. -/
theorem Lies.sites_subset {program : List Stmt} {p : Place} {c : Code} (h : Lies program p c) :
    c.sites p ⊆ Program.sites program := by
  have hall : ∀ at' : Place × Code, Relation.ReflTransGen
      (fun outer inner : Place × Code => Part outer.1 outer.2 inner.1 inner.2)
      (.top, .body program) at' → at'.2.sites at'.1 ⊆ Program.sites program := by
    intro at' hreach
    induction hreach with
    | refl => exact List.Subset.refl _
    | tail _ hpart ih => exact List.Subset.trans hpart.sites_subset ih
  exact hall (p, c) h

end Lox
