/-
# Places in a program

Where a piece of code stands in a program: in which local scopes, and what they declare. A block is
a scope, and so is a function, for its parameters and its body together; the top level of a program
is none. `Place` says of each scope around which names are declared directly in it, and which of
these declarations stand before the code.

`Part` leads from a piece of code at its place to the pieces directly within it at theirs. It is a
relation between trees as they are written: nothing is executed, and nothing is looked up.
-/

import Lox.Execution.Evaluate
import Mathlib.Logic.Relation

namespace Lox

/-- The names that a statement declares in the scope that it stands in. -/
def Stmt.declared : Stmt → List String
  | .var name _ => [name.lexeme]
  | .function name _ _ => [name.lexeme]
  | _ => []

/-- The names that statements declare in the scope that they stand in. -/
def Stmt.allDeclared (ss : List Stmt) : List String := ss.flatMap Stmt.declared

/-- A block or a function, as seen from a piece of code in it. -/
structure LocalScope where
  /-- The names declared directly in it, wherever that is. -/
  names : List String
  /-- The names declared directly in it before the code. -/
  before : List String

/-- Where a piece of code stands. -/
structure Place where
  /-- The local scopes around it, the innermost first. -/
  scopes : List LocalScope
  /-- Whether it stands within a function. -/
  inFunction : Bool
  /-- The variable of which it is the initializer, or part of the initializer. -/
  initializes : Option String

namespace Place

/-- Outside every block and function. -/
def top : Place := ⟨[], false, none⟩

/-- In the initializer of a variable. -/
def initializing (place : Place) (name : String) : Place := { place with initializes := some name }

/-- Behind declarations in the innermost scope. -/
def declaring (place : Place) (declared : List String) : Place :=
  match place.scopes with
  | [] => place
  | scope :: scopes =>
    { place with scopes := { scope with before := declared ++ scope.before } :: scopes }

/-- At the start of a block. -/
def enter (place : Place) (ss : List Stmt) : Place :=
  ⟨⟨Stmt.allDeclared ss, []⟩ :: place.scopes, place.inFunction, none⟩

/-- At the start of the body of a function. The function can be seen in its own body, whatever
comes behind it. -/
def enterFunction (place : Place) (name : Token) (parameters : List Token) (ss : List Stmt) :
    Place :=
  let parameters := parameters.map Token.lexeme
  ⟨⟨parameters ++ Stmt.allDeclared ss, parameters⟩ :: (place.declaring [name.lexeme]).scopes, true,
    none⟩

theorem initializes_declaring (place : Place) (declared : List String) :
    (place.declaring declared).initializes = place.initializes := by
  unfold declaring
  split <;> rfl

theorem inFunction_declaring (place : Place) (declared : List String) :
    (place.declaring declared).inFunction = place.inFunction := by
  unfold declaring
  split <;> rfl

theorem declaring_nil (place : Place) : place.declaring [] = place := by
  obtain ⟨_ | ⟨scope, scopes⟩, inFunction, initializes⟩ := place <;> rfl

end Place

/-- A piece of code at a place has another directly within it, at a place of its own. A loop goes on
as the loop it is, so it counts among the pieces within it. -/
inductive Part : Place → Code → Place → Code → Prop where
  | assigned {p : Place} {id : AccessId} {name : Token} {e : Expr} :
      Part p (.expression (.assign id name e)) p (.expression e)
  | operand {p : Place} {operator : Token} {e : Expr} :
      Part p (.expression (.unary operator e)) p (.expression e)
  | binaryLeft {p : Place} {operator : Token} {e f : Expr} :
      Part p (.expression (.binary e operator f)) p (.expression e)
  | binaryRight {p : Place} {operator : Token} {e f : Expr} :
      Part p (.expression (.binary e operator f)) p (.expression f)
  | logicalLeft {p : Place} {operator : Token} {e f : Expr} :
      Part p (.expression (.logical e operator f)) p (.expression e)
  | logicalRight {p : Place} {operator : Token} {e f : Expr} :
      Part p (.expression (.logical e operator f)) p (.expression f)
  | condition {p : Place} {condition whenTrue whenFalse : Expr} :
      Part p (.expression (.conditional condition whenTrue whenFalse)) p (.expression condition)
  | whenTrue {p : Place} {condition whenTrue whenFalse : Expr} :
      Part p (.expression (.conditional condition whenTrue whenFalse)) p (.expression whenTrue)
  | whenFalse {p : Place} {condition whenTrue whenFalse : Expr} :
      Part p (.expression (.conditional condition whenTrue whenFalse)) p (.expression whenFalse)
  | callee {p : Place} {callee : Expr} {paren : Token} {es : List Expr} :
      Part p (.expression (.call callee paren es)) p (.expression callee)
  | arguments {p : Place} {callee : Expr} {paren : Token} {es : List Expr} :
      Part p (.expression (.call callee paren es)) p (.arguments es)
  | grouped {p : Place} {e : Expr} : Part p (.expression (.group e)) p (.expression e)
  | hostCode {p : Place} {keyword : Token} {e : Expr} :
      Part p (.expression (.host keyword e)) p (.expression e)
  | firstArgument {p : Place} {e : Expr} {es : List Expr} :
      Part p (.arguments (e :: es)) p (.expression e)
  | otherArguments {p : Place} {e : Expr} {es : List Expr} :
      Part p (.arguments (e :: es)) p (.arguments es)
  | evaluated {p : Place} {e : Expr} : Part p (.statement (.expression e)) p (.expression e)
  | printed {p : Place} {keyword : Token} {e : Expr} :
      Part p (.statement (.print keyword e)) p (.expression e)
  | initializer {p : Place} {name : Token} {e : Expr} :
      Part p (.statement (.var name (some e))) (p.initializing name.lexeme) (.expression e)
  | block {p : Place} {ss : List Stmt} : Part p (.statement (.block ss)) (p.enter ss) (.body ss)
  | ifThenCondition {p : Place} {condition : Expr} {s : Stmt} :
      Part p (.statement (.ifThen condition s)) p (.expression condition)
  | ifThenTrue {p : Place} {condition : Expr} {s : Stmt} :
      Part p (.statement (.ifThen condition s)) p (.statement s)
  | ifElseCondition {p : Place} {condition : Expr} {s s' : Stmt} :
      Part p (.statement (.ifElse condition s s')) p (.expression condition)
  | ifElseTrue {p : Place} {condition : Expr} {s s' : Stmt} :
      Part p (.statement (.ifElse condition s s')) p (.statement s)
  | ifElseFalse {p : Place} {condition : Expr} {s s' : Stmt} :
      Part p (.statement (.ifElse condition s s')) p (.statement s')
  | whileCondition {p : Place} {condition : Expr} {s : Stmt} :
      Part p (.statement (.while condition s)) p (.expression condition)
  | whileBody {p : Place} {condition : Expr} {s : Stmt} :
      Part p (.statement (.while condition s)) p (.statement s)
  | whileAgain {p : Place} {condition : Expr} {s : Stmt} :
      Part p (.statement (.while condition s)) p (.statement (.while condition s))
  | functionBody {p : Place} {name : Token} {parameters : List Token} {ss : List Stmt} :
      Part p (.statement (.function name parameters ss)) (p.enterFunction name parameters ss)
        (.body ss)
  | returned {p : Place} {keyword : Token} {e : Expr} :
      Part p (.statement (.return keyword (some e))) p (.expression e)
  | firstStatement {p : Place} {s : Stmt} {ss : List Stmt} :
      Part p (.body (s :: ss)) p (.statement s)
  | otherStatements {p : Place} {s : Stmt} {ss : List Stmt} :
      Part p (.body (s :: ss)) (p.declaring s.declared) (.body ss)

/-- A piece of code stands at a place in a program. -/
def Lies (program : List Stmt) (place : Place) (code : Code) : Prop :=
  Relation.ReflTransGen (fun outer inner : Place × Code => Part outer.1 outer.2 inner.1 inner.2)
    (.top, .body program) (place, code)

theorem Lies.tail {program : List Stmt} {p p' : Place} {c c' : Code} (h : Lies program p c)
    (hpart : Part p c p' c') : Lies program p' c' :=
  Relation.ReflTransGen.tail h hpart

/-- A statement at the top level of a program stands outside every block and function. -/
theorem lies_of_mem {program : List Stmt} {s : Stmt} (h : s ∈ program) :
    Lies program .top (.statement s) := by
  unfold Lies
  induction program with
  | nil => cases h
  | cons first rest ih =>
    rcases List.mem_cons.1 h with rfl | h
    · exact .single .firstStatement
    · have hpart : Part .top (.body (first :: rest)) .top (.body rest) := .otherStatements
      exact .head hpart (ih h)

/-! ## Well-formed code -/

/-- The kinds of token that stand between two operands. -/
def binaryOperators : List Token.Kind :=
  [.plus, .plusEqual, .minus, .minusEqual, .star, .slash, .greater, .greaterEqual, .less,
    .lessEqual, .equalEqual, .bangEqual]

mutual

/-- Every operator in an expression is one. -/
def Expr.WellFormed : Expr → Prop
  | .literal _ | .read _ _ => True
  | .assign _ _ value => value.WellFormed
  | .unary operator operand =>
    (operator.kind = .bang ∨ operator.kind = .minus) ∧ operand.WellFormed
  | .binary left operator right =>
    operator.kind ∈ binaryOperators ∧ left.WellFormed ∧ right.WellFormed
  | .logical left _ right => left.WellFormed ∧ right.WellFormed
  | .conditional condition whenTrue whenFalse =>
    condition.WellFormed ∧ whenTrue.WellFormed ∧ whenFalse.WellFormed
  | .call callee _ arguments => callee.WellFormed ∧ Expr.AllWellFormed arguments
  | .group inner => inner.WellFormed
  | .host _ code => code.WellFormed

/-- Every operator in some expressions is one. -/
def Expr.AllWellFormed : List Expr → Prop
  | [] => True
  | e :: es => e.WellFormed ∧ Expr.AllWellFormed es

end

mutual

/-- Every operator in a statement is one, and what it does conditionally or repeatedly declares
nothing by itself: declarations stand directly in blocks. -/
def Stmt.WellFormed : Stmt → Prop
  | .block body => Stmt.AllWellFormed body
  | .expression value => value.WellFormed
  | .function _ _ body => Stmt.AllWellFormed body
  | .ifThen condition whenTrue =>
    condition.WellFormed ∧ whenTrue.declared = [] ∧ whenTrue.WellFormed
  | .ifElse condition whenTrue whenFalse =>
    condition.WellFormed ∧ (whenTrue.declared = [] ∧ whenTrue.WellFormed) ∧
      whenFalse.declared = [] ∧ whenFalse.WellFormed
  | .print _ value => value.WellFormed
  | .return _ none => True
  | .return _ (some value) => value.WellFormed
  | .var _ none => True
  | .var _ (some value) => value.WellFormed
  | .while condition body => condition.WellFormed ∧ body.declared = [] ∧ body.WellFormed

/-- The same of some statements. -/
def Stmt.AllWellFormed : List Stmt → Prop
  | [] => True
  | s :: ss => s.WellFormed ∧ Stmt.AllWellFormed ss

end

namespace Code

/-- Code is well-formed as its statements and expressions are. -/
def WellFormed : Code → Prop
  | expression e => e.WellFormed
  | arguments es => Expr.AllWellFormed es
  | statement s => s.WellFormed
  | body ss => Stmt.AllWellFormed ss

/-- The names that code declares in the scope that it stands in. -/
def declared : Code → List String
  | expression _ | arguments _ => []
  | statement s => s.declared
  | body ss => Stmt.allDeclared ss

end Code

namespace Place

/-- The innermost scope, if there is one, counts what code declares among its names. -/
def Lists (place : Place) (declared : List String) : Prop :=
  ∀ scope ∈ place.scopes.head?, declared ⊆ scope.names

end Place

theorem Place.lists_nil {p : Place} : p.Lists [] := fun _ _ => List.nil_subset _

theorem Part.wellFormed {p p' : Place} {c c' : Code} (h : Part p c p' c') (hwf : c.WellFormed) :
    c'.WellFormed := by
  cases h with
  | assigned | grouped | hostCode | evaluated | printed | initializer | block | whileAgain
  | functionBody | returned => exact hwf
  | operand => exact hwf.2
  | binaryLeft => exact hwf.2.1
  | binaryRight => exact hwf.2.2
  | logicalLeft | condition | callee | firstArgument | ifThenCondition | ifElseCondition
  | whileCondition | firstStatement => exact hwf.1
  | logicalRight | arguments | otherArguments | otherStatements => exact hwf.2
  | whenTrue => exact hwf.2.1
  | whenFalse => exact hwf.2.2
  | ifThenTrue | whileBody => exact hwf.2.2
  | ifElseTrue => exact hwf.2.1.2
  | ifElseFalse => exact hwf.2.2.2

/-- Where code stands, what it declares counts among the names of the innermost scope. -/
theorem Part.lists {p p' : Place} {c c' : Code} (h : Part p c p' c') (hwf : c.WellFormed)
    (hlists : p.Lists c.declared) : p'.Lists c'.declared := by
  cases h with
  | block =>
    intro scope hscope
    obtain rfl := Option.some.inj hscope
    exact List.Subset.refl _
  | functionBody =>
    intro scope hscope
    obtain rfl := Option.some.inj hscope
    exact List.subset_append_right _ _
  | ifThenTrue | whileBody =>
    have hnone := hwf.2.1
    simp only [Code.declared, hnone]
    exact Place.lists_nil
  | ifElseTrue =>
    have hnone := hwf.2.1.1
    simp only [Code.declared, hnone]
    exact Place.lists_nil
  | ifElseFalse =>
    have hnone := hwf.2.2.1
    simp only [Code.declared, hnone]
    exact Place.lists_nil
  | firstStatement =>
    exact fun scope hscope =>
      List.Subset.trans (List.subset_append_left _ _) (hlists scope hscope)
  | otherStatements =>
    intro scope hscope
    obtain ⟨_ | ⟨first, scopes⟩, inFunction, initializes⟩ := p
    · cases hscope
    · obtain rfl := Option.some.inj hscope
      exact List.Subset.trans (List.subset_append_right _ _) (hlists first rfl)
  | _ => exact Place.lists_nil

theorem Lies.wellFormed {program : List Stmt} {p : Place} {c : Code} (h : Lies program p c)
    (hwf : Stmt.AllWellFormed program) : c.WellFormed ∧ p.Lists c.declared := by
  have hall : ∀ at' : Place × Code, Relation.ReflTransGen
      (fun outer inner : Place × Code => Part outer.1 outer.2 inner.1 inner.2)
      (.top, .body program) at' → at'.2.WellFormed ∧ at'.1.Lists at'.2.declared := by
    intro at' hreach
    induction hreach with
    | refl => exact ⟨hwf, fun scope hscope => by cases hscope⟩
    | tail _ hpart ih => exact ⟨hpart.wellFormed ih.1, hpart.lists ih.1 ih.2⟩
  exact hall (p, c) h

/-- A name may be declared by code in the scope that it stands in. Nothing is said of code that is
not well-formed. -/
def Code.Declares (code : Code) (name : String) : Prop := code.WellFormed → name ∈ code.declared

/-- What is directly within some code and in no scope of its own declares nothing else. -/
theorem Part.declares {place : Place} {code made : Code} {name : String}
    (h : Part .top code place made) (hscopes : place.scopes = []) (hname : made.Declares name) :
    code.Declares name := by
  intro hwf
  have hmade := hname (h.wellFormed hwf)
  cases h with
  | block | functionBody => cases hscopes
  | ifThenTrue | whileBody =>
    have hnone := hwf.2.1
    simp only [Code.declared, hnone] at hmade
    cases hmade
  | ifElseTrue =>
    have hnone := hwf.2.1.1
    simp only [Code.declared, hnone] at hmade
    cases hmade
  | ifElseFalse =>
    have hnone := hwf.2.2.1
    simp only [Code.declared, hnone] at hmade
    cases hmade
  | firstStatement => exact List.mem_append_left _ hmade
  | otherStatements => exact List.mem_append_right _ hmade
  | whileAgain => exact hmade
  | _ => cases hmade

end Lox
