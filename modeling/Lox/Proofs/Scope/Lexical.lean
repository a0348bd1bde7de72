/-
# Lexical scoping

A name refers to the innermost scope around it that has declared the name before. What this means is
said here in terms of the tree of a program and of positions in it: which blocks and functions are
around a position, and which names they declare before it (`Program.RefersTo`). Nothing is gone
through from beginning to end, and nothing is kept on the way.

Resolution finds just this (`Program.bindingDepths_lexical`). A program is rejected exactly if a
local variable is read in its own initializer, or there is a return outside every function
(`Program.Offends`), and then it is told of all such positions, in the order in which they stand.
Otherwise the depths are those of lexical scoping.
-/

import Lox.Proofs.Scope.Positions
import Lox.Scope.Basic

namespace Lox

namespace Program

/-- A scope declares a name before a position. The parameters of a function are declared at its
start, and any other name at the statement that declares it, which is directly in the scope. What is
around a position comes before it, so a variable is declared in its own initializer, and a function
in its own body. -/
inductive DeclaresBefore (program : List Stmt) (scope : Position) (name : String)
    (position : Position) : Prop where
  | parameter {function : Token} {parameters : List Token} {ss : List Stmt}
      (hscope : codeAt? program scope = some (.statement (.function function parameters ss)))
      (hname : name ∈ parameters.map Token.lexeme)
  | statement {earlier : Position} {s : Stmt} (hearlier : earlier < position)
      (hstatement : codeAt? program earlier = some (.statement s)) (hname : name ∈ s.declared)
      (hscope : (scopesAround program earlier).head? = some scope)

/-- A name at a position refers to the scope at a depth, counted from the innermost one outwards:
this scope declares the name before, and none further in does. -/
def RefersTo (program : List Stmt) (position : Position) (name : String) (depth : Nat) : Prop :=
  (∃ scope, (scopesAround program position)[depth]? = some scope ∧
    DeclaresBefore program scope name position) ∧
  ∀ nearer < depth, ∀ scope, (scopesAround program position)[nearer]? = some scope →
    ¬ DeclaresBefore program scope name position

/-- A variable is read or assigned at a position. -/
def Accesses (program : List Stmt) (position : Position) (id : AccessId) (name : Token) : Prop :=
  codeAt? program position = some (.expression (.read id name)) ∨
    ∃ e, codeAt? program position = some (.expression (.assign id name e))

/-- The code at a position breaks a rule of scoping. -/
inductive Offends (program : List Stmt) : Position → ResolveError → Prop where
  | read {position outer : Position} {id : AccessId} {name declared : Token}
      {initializer : Option Expr}
      (hread : codeAt? program position = some (.expression (.read id name)))
      (hvariable : codeAt? program outer = some (.statement (.var declared initializer)))
      (hwithin : Position.Around outer position) (hname : declared.lexeme = name.lexeme)
      (hlocal : scopesAround program outer ≠ []) :
      Offends program position ⟨.readInOwnInitializer, name⟩
  | return {position : Position} {keyword : Token} {value : Option Expr}
      (hreturn : codeAt? program position = some (.statement (.return keyword value)))
      (houtside : ∀ outer name parameters ss, Position.Around outer position →
        codeAt? program outer ≠ some (.statement (.function name parameters ss))) :
      Offends program position ⟨.topLevelReturn, keyword⟩

end Program

/-! ## What is declared directly in a scope -/

namespace Code

variable {code piece : Code} {step : Nat} {name : String}

theorem piece?_cons {rest : Position} (h : code.pieces[step]? = some piece) :
    code.piece? (step :: rest) = piece.piece? rest :=
  (congrArg (Option.bind · _) h).trans (Option.bind_some _ _)

/-- Code that may stand directly in a scope. -/
def isStatement : Code → Bool
  | statement _ | body _ => true
  | _ => false

theorem isStatement_of_isScope (h : code.isScope = true) : code.isStatement = true := by
  cases code with
  | statement s => rfl
  | body ss => rfl
  | _ => cases h

/-- What is directly within code that is no scope is in no other scope. -/
theorem scopes_into_top (h : code.isScope = false) (step : Nat) :
    (Place.top.into code step).scopes = [] := by
  cases code with
  | statement s =>
    cases s with
    | block ss => cases h
    | function name parameters ss => cases h
    | _ => rfl
  | body ss =>
    rcases ss with _ | ⟨s, ss⟩ <;> rcases step with _ | _ | step <;> rfl
  | _ => rfl

/-- A scope has its statements within it and nothing else. -/
theorem one_piece (h : code.isScope = true) (hpiece : code.pieces[step]? = some piece) :
    step = 0 := by
  cases code with
  | statement s =>
    cases s with
    | block ss | function name parameters ss =>
      rcases step with _ | step
      · rfl
      · cases hpiece
    | _ => cases h
  | _ => cases h

/-- Code declares the names that are declared in it outside of the scopes within. -/
theorem mem_declared_of_piece? {rest : Position} {s : Stmt} (hwf : code.WellFormed)
    (hbetween : ∀ between, Position.Around between rest →
      (code.piece? between).any isScope = false)
    (hstatement : code.piece? rest = some (.statement s)) (hname : name ∈ s.declared) :
    name ∈ code.declared := by
  induction rest generalizing code with
  | nil =>
    cases hstatement
    exact hname
  | cons step rest ih =>
    obtain ⟨piece, hpiece, hrest⟩ := Option.bind_eq_some_iff.1 hstatement
    have hpart : Part .top code (Place.top.into code step) piece := .of_piece hpiece
    have hscope : code.isScope = false :=
      hbetween [] ⟨List.nil_prefix, (List.cons_ne_nil _ _).symm⟩
    have hdeclares : piece.Declares name := by
      intro hwf'
      refine ih hwf' (fun between haround => ?_) hrest
      have hcode := hbetween (step :: between) ⟨List.cons_prefix_cons.2 ⟨rfl, haround.1⟩,
        fun heq => haround.2 (List.cons.inj heq).2⟩
      rwa [piece?_cons hpiece] at hcode
    exact hpart.declares (scopes_into_top hscope step) hdeclares hwf

/-- Names that code declares are declared in it outside of the scopes within. -/
theorem exists_piece?_of_mem_declared (h : name ∈ code.declared) :
    ∃ rest s, code.piece? rest = some (.statement s) ∧ name ∈ s.declared ∧
      ∀ between, Position.Around between rest → (code.piece? between).any isScope = false := by
  cases code with
  | expression e => cases h
  | arguments es => cases h
  | statement s =>
    refine ⟨[], s, rfl, h, fun between haround => ?_⟩
    exact absurd (List.prefix_nil.1 haround.1) haround.2
  | body ss =>
    induction ss with
    | nil => cases h
    | cons s ss ih =>
      rcases List.mem_append.1 h with h | h
      · refine ⟨[0], s, rfl, h, fun between haround => ?_⟩
        rcases List.prefix_cons_iff.1 haround.1 with rfl | ⟨inner, rfl, hinner⟩
        · rfl
        · exact absurd (congrArg _ (List.prefix_nil.1 hinner)) haround.2
      · obtain ⟨rest, s', hpiece, hname, hbetween⟩ := ih h
        refine ⟨1 :: rest, s', hpiece, hname, fun between haround => ?_⟩
        rcases List.prefix_cons_iff.1 haround.1 with rfl | ⟨inner, rfl, hinner⟩
        · rfl
        · exact hbetween inner ⟨hinner, fun heq => haround.2 (congrArg _ heq)⟩

/-- The names that code has declared, in the scope that it stands in, when it comes to a piece
directly within it: those of the statements before the piece, and of the code itself, since it
begins before the piece. -/
def declaredBefore : Code → Nat → List String
  | statement s, _ => s.declared
  | body (s :: _), 1 => s.declared
  | _, _ => []

/-- These are the names that are declared by pieces before, or by the code itself. -/
theorem mem_declaredBefore_iff (hwf : code.WellFormed) (hpiece : code.pieces[step]? = some piece) :
    name ∈ code.declaredBefore step ↔
      (∃ s, code = .statement s ∧ name ∈ s.declared) ∨
        ∃ earlier < step, ∃ piece',
          code.pieces[earlier]? = some piece' ∧ name ∈ piece'.declared := by
  constructor
  · intro h
    cases code with
    | statement s => exact .inl ⟨s, rfl, h⟩
    | body ss =>
      rcases ss with _ | ⟨s, ss⟩ <;> rcases step with _ | _ | step <;> cases hpiece
      · cases h
      · exact .inr ⟨0, Nat.zero_lt_one, .statement s, rfl, h⟩
    | _ => cases h
  · rintro (⟨s, rfl, h⟩ | ⟨earlier, hearlier, piece', hpiece', h⟩)
    · exact h
    · have hpart : Part .top code (Place.top.into code earlier) piece' := .of_piece hpiece'
      cases hscope : code.isScope with
      | true =>
        rw [one_piece hscope hpiece] at hearlier
        cases hearlier
      | false =>
        have hdeclared := hpart.declares (scopes_into_top hscope earlier) (fun _ => h) hwf
        cases code with
        | statement s => exact hdeclared
        | body ss =>
          rcases ss with _ | ⟨s, ss⟩ <;> rcases step with _ | _ | step <;> cases hpiece
          · cases hearlier
          · cases Nat.lt_one_iff.1 hearlier
            cases hpiece'
            exact h
        | _ => cases hdeclared

end Code

namespace Program

variable {program : List Stmt} {position later scope : Position} {step : Nat} {place : Place}
  {code piece : Code} {name : String}

theorem isScopeAt_append {rest : Position} (h : codeAt? program position = some code) :
    isScopeAt program (position ++ rest) = (code.piece? rest).any Code.isScope :=
  congrArg (Option.any Code.isScope) (codeAt?_append h)

namespace DeclaresBefore

theorem mono (h : DeclaresBefore program scope name position) (hlater : position < later) :
    DeclaresBefore program scope name later := by
  cases h with
  | parameter hscope hname => exact .parameter hscope hname
  | statement hearlier hstatement hname hscope =>
    exact .statement (List.lt_trans hearlier hlater) hstatement hname hscope

/-- A scope around some code declares before a piece of it what it declares before the code, and the
innermost scope also what the code has declared when it comes to the piece. -/
theorem concat_iff (hcode : codeAt? program position = some code) (hwf : code.WellFormed)
    (hpiece : code.pieces[step]? = some piece) (haround : scope ∈ scopesAround program position) :
    DeclaresBefore program scope name (position ++ [step]) ↔
      DeclaresBefore program scope name position ∨
        (scopesAround program position).head? = some scope ∧ name ∈ code.declaredBefore step := by
  have hlength := (around_of_mem_scopesAround haround).length_lt
  have hlength' : ∀ step, scope.length < (position ++ [step]).length := fun step =>
    Nat.lt_trans hlength (by simp)
  constructor
  · intro h
    cases h with
    | parameter hscope hname => exact .inl (.parameter hscope hname)
    | statement hearlier hstatement hname hscope =>
      rcases Position.lt_concat_iff.1 hearlier with hearlier | rfl | ⟨before, hbefore, rest, rfl⟩
      · exact .inl (.statement hearlier hstatement hname hscope)
      · obtain rfl := Option.some.inj (hcode.symm.trans hstatement)
        exact .inr ⟨hscope, hname⟩
      · obtain ⟨hlt, -⟩ := List.getElem?_eq_some_iff.1 hpiece
        have hpiece' := List.getElem?_eq_getElem (Nat.lt_trans hbefore hlt)
        have hcode' := (codeAt?_concat hcode).trans hpiece'
        have hpart : Part .top code (Place.top.into code before) _ := .of_piece hpiece'
        obtain ⟨hhead, hbetween⟩ := (head?_scopesAround_append (hlength' before)).1 hscope
        refine .inr ⟨((head?_scopesAround_append hlength).1 hhead).1, ?_⟩
        refine (Code.mem_declaredBefore_iff hwf hpiece).2 (.inr ⟨before, hbefore, _, hpiece', ?_⟩)
        refine Code.mem_declared_of_piece? (hpart.wellFormed hwf) (fun between haround => ?_)
          ((codeAt?_append hcode').symm.trans hstatement) hname
        exact (isScopeAt_append hcode').symm.trans (hbetween between haround)
  · rintro (h | ⟨hhead, hname⟩)
    · exact h.mono Position.lt_concat
    · rcases (Code.mem_declaredBefore_iff hwf hpiece).1 hname with ⟨s, rfl, hname⟩ |
        ⟨before, hbefore, piece', hpiece', hname⟩
      · exact .statement Position.lt_concat hcode hname hhead
      · have hcode' := (codeAt?_concat hcode).trans hpiece'
        obtain ⟨rest, s, hstatement, hname, hbetween⟩ := Code.exists_piece?_of_mem_declared hname
        have hnot : isScopeAt program position = false := by
          rw [isScopeAt_eq hcode]
          cases hscope : code.isScope with
          | false => rfl
          | true =>
            rw [Code.one_piece hscope hpiece] at hbefore
            cases hbefore
        have hearlier : position ++ [before] ++ rest < position ++ [step] :=
          Position.lt_concat_iff.2 (.inr (.inr ⟨before, hbefore, List.prefix_append _ _⟩))
        refine .statement hearlier ((codeAt?_append hcode').trans hstatement) hname ?_
        refine (head?_scopesAround_append (hlength' before)).2 ⟨?_, fun between haround => ?_⟩
        · rwa [scopesAround_concat_of_not_scope hnot]
        · exact (isScopeAt_append hcode').trans (hbetween between haround)

/-- At the start of a block or a function it has declared its parameters. -/
theorem start_iff (hcode : codeAt? program position = some code) (hstep : step = 0) :
    DeclaresBefore program position name (position ++ [step]) ↔
      ∃ function parameters ss, code = .statement (.function function parameters ss) ∧
        name ∈ parameters.map Token.lexeme := by
  constructor
  · intro h
    cases h with
    | parameter hscope hname =>
      exact ⟨_, _, _, Option.some.inj (hcode.symm.trans hscope), hname⟩
    | @statement earlier s hearlier hstatement hname hscope =>
      have hmem := List.mem_of_mem_head? (Option.mem_def.2 hscope)
      have hlt : position < earlier := (around_of_mem_scopesAround hmem).lt
      rcases Position.lt_concat_iff.1 hearlier with h | rfl | ⟨before, hbefore, -⟩
      · exact absurd h (List.lt_asymm hlt)
      · exact absurd hlt (List.lt_irrefl _)
      · rw [hstep] at hbefore
        cases hbefore
  · rintro ⟨function, parameters, ss, rfl, hname⟩
    exact .parameter hcode hname

end DeclaresBefore

end Program

end Lox
