/-
# Positions in a program

A position leads from a whole program to a piece of it: it says at each step into which of the
pieces directly within to go on. Positions are ordered as words are, and that is the order of the
tree: what is around a piece comes before it, and of two pieces neither of which is within the other
the one on the left comes first.

A scope is a block or a function, so the scopes around a position are blocks and functions on the
way to it.
-/

import Lox.Proofs.Scope.Place
import Mathlib.Data.List.Infix

namespace Lox

/-- A way into a piece of code: at each step the number of a piece directly within. -/
abbrev Position := List Nat

/-! ## The order of positions -/

namespace Position

variable {position other outer : Position} {step : Nat}

/-- A position lies on the way to another one. -/
def Around (outer position : Position) : Prop := outer <+: position ∧ outer ≠ position

theorem around_concat_iff :
    Around outer (position ++ [step]) ↔ outer = position ∨ Around outer position := by
  constructor
  · rintro ⟨hinit, hne⟩
    rcases List.prefix_concat_iff.1 hinit with rfl | hinit
    · exact absurd rfl hne
    · by_cases heq : outer = position
      · exact .inl heq
      · exact .inr ⟨hinit, heq⟩
  · intro h
    have hinit : outer <+: position := h.elim (fun heq => heq ▸ List.prefix_rfl) And.left
    refine ⟨hinit.trans (List.prefix_append _ _), ?_⟩
    rintro rfl
    exact absurd hinit.length_le (by simp)

theorem Around.length_lt (h : Around outer position) : outer.length < position.length :=
  Nat.lt_of_le_of_ne h.1.length_le fun heq => h.2 (h.1.eq_of_length heq)

theorem around_of_piece (h : position ++ [step] <+: other) : Around position other := by
  refine ⟨(List.prefix_append _ _).trans h, ?_⟩
  rintro rfl
  exact absurd h.length_le (by simp)

/-- What is around a position comes before it. -/
theorem Around.lt (h : Around outer position) : outer < position := by
  obtain ⟨⟨_ | ⟨step, rest⟩, rfl⟩, hne⟩ := h
  · exact absurd (List.append_nil outer).symm hne
  · have hrest := @List.append_left_lt _ _ outer _ _ (List.nil_lt_cons step rest)
    rwa [List.append_nil] at hrest

/-- Before a piece comes what comes before the code around it, this code itself, and what is in the
pieces before it. -/
theorem lt_concat_iff : other < position ++ [step] ↔
    other < position ∨ other = position ∨ ∃ earlier < step, position ++ [earlier] <+: other := by
  induction position generalizing other with
  | nil =>
    cases other with
    | nil => simp
    | cons first rest => simp [List.cons_lt_cons_iff, List.cons_prefix_cons]
  | cons first position ih =>
    cases other with
    | nil => simp
    | cons first' other =>
      simp only [List.cons_append, List.cons_lt_cons_iff, ih, List.cons.injEq,
        List.cons_prefix_cons]
      constructor
      · rintro (h | ⟨rfl, h | rfl | ⟨earlier, hearlier, h⟩⟩)
        · exact .inl (.inl h)
        · exact .inl (.inr ⟨rfl, h⟩)
        · exact .inr (.inl ⟨rfl, rfl⟩)
        · exact .inr (.inr ⟨earlier, hearlier, rfl, h⟩)
      · rintro ((h | ⟨rfl, h⟩) | ⟨rfl, rfl⟩ | ⟨earlier, hearlier, rfl, h⟩)
        · exact .inl h
        · exact .inr ⟨rfl, .inl h⟩
        · exact .inr ⟨rfl, .inr (.inl rfl)⟩
        · exact .inr ⟨rfl, .inr (.inr ⟨earlier, hearlier, h⟩)⟩

theorem lt_concat : position < position ++ [step] := lt_concat_iff.2 (.inr (.inl rfl))

/-- What is in a piece comes before what is in a later piece. -/
theorem lt_of_pieces {first second : Position} {later : Nat} (h : step < later)
    (hfirst : position ++ [step] <+: first) (hsecond : position ++ [later] <+: second) :
    first < second := by
  obtain ⟨rest, rfl⟩ := hfirst
  obtain ⟨rest', rfl⟩ := hsecond
  rw [List.append_assoc, List.append_assoc]
  exact List.append_left_lt (List.cons_lt_cons_iff.2 (.inl h))

/-- What is in some code is the code itself or in one of its pieces. -/
theorem init_iff :
    position <+: other ↔ other = position ∨ ∃ step, position ++ [step] <+: other := by
  constructor
  · rintro ⟨_ | ⟨step, rest⟩, rfl⟩
    · exact .inl (List.append_nil position)
    · exact .inr ⟨step, rest, (List.append_cons position step rest).symm⟩
  · rintro (rfl | ⟨step, hstep⟩)
    · exact List.prefix_rfl
    · exact (List.prefix_append _ _).trans hstep

theorem inits_concat : (position ++ [step]).inits = position.inits ++ [position ++ [step]] := by
  rw [List.inits_append]
  rfl

theorem inits_eq_concat (position : Position) :
    position.inits = position.inits.dropLast ++ [position] := by
  rcases List.eq_nil_or_concat position with rfl | ⟨outer, step, rfl⟩
  · rfl
  · rw [List.concat_eq_append, inits_concat, List.dropLast_concat]

end Position

/-! ## Pieces of code -/

namespace Code

/-- The pieces directly within a piece of code, from left to right. -/
def pieces : Code → List Code
  | expression (.literal _) | expression (.read _ _) => []
  | expression (.assign _ _ e) | expression (.unary _ e) | expression (.group e)
  | expression (.host _ e) => [expression e]
  | expression (.binary e _ f) | expression (.logical e _ f) => [expression e, expression f]
  | expression (.conditional condition whenTrue whenFalse) =>
    [expression condition, expression whenTrue, expression whenFalse]
  | expression (.call callee _ es) => [expression callee, arguments es]
  | arguments [] => []
  | arguments (e :: es) => [expression e, arguments es]
  | statement (.block ss) | statement (.function _ _ ss) => [body ss]
  | statement (.expression e) | statement (.print _ e) | statement (.return _ (some e))
  | statement (.var _ (some e)) => [expression e]
  | statement (.return _ none) | statement (.var _ none) => []
  | statement (.ifThen condition s) | statement (.while condition s) =>
    [expression condition, statement s]
  | statement (.ifElse condition s s') => [expression condition, statement s, statement s']
  | body [] => []
  | body (s :: ss) => [statement s, body ss]

/-- The piece at a position in some code. -/
def piece? (code : Code) : Position → Option Code
  | [] => some code
  | step :: rest => code.pieces[step]?.bind fun piece => piece.piece? rest

/-- Blocks and functions are scopes. -/
def isScope : Code → Bool
  | statement (.block _) | statement (.function _ _ _) => true
  | _ => false

variable {code piece : Code} {position rest : Position} {step : Nat}

theorem piece?_append : code.piece? (position ++ rest) =
    (code.piece? position).bind fun piece => piece.piece? rest := by
  induction position generalizing code with
  | nil => rfl
  | cons step position ih =>
    show (code.pieces[step]?.bind fun piece => piece.piece? (position ++ rest)) =
      (code.pieces[step]?.bind fun piece => piece.piece? position).bind fun piece =>
        piece.piece? rest
    rw [Option.bind_assoc]
    exact congrArg _ (funext fun piece => ih)

theorem piece?_concat (h : code.piece? position = some piece) :
    code.piece? (position ++ [step]) = piece.pieces[step]? := by
  rw [piece?_append, h]
  exact Option.bind_fun_some _

end Code

/-- Where a piece directly within some code stands. -/
def Place.into (place : Place) : Code → Nat → Place
  | .statement (.block ss), _ => place.enter ss
  | .statement (.function name parameters ss), _ => place.enterFunction name parameters ss
  | .statement (.var name _), _ => place.initializing name.lexeme
  | .body (s :: _), 1 => place.declaring s.declared
  | _, _ => place

/-- The pieces directly within some code are parts of it. -/
theorem Part.of_piece {place : Place} {code piece : Code} {step : Nat}
    (h : code.pieces[step]? = some piece) : Part place code (place.into code step) piece := by
  cases code with
  | expression e => cases e <;> rcases step with _ | _ | _ | step <;> cases h <;> constructor
  | arguments es => cases es <;> rcases step with _ | _ | step <;> cases h <;> constructor
  | statement s =>
    cases s with
    | «return» keyword value =>
      rcases value with _ | e <;> rcases step with _ | step <;> cases h
      exact .returned
    | var name initializer =>
      rcases initializer with _ | e <;> rcases step with _ | step <;> cases h
      exact .initializer
    | _ => rcases step with _ | _ | _ | step <;> cases h <;> constructor
  | body ss => cases ss <;> rcases step with _ | _ | step <;> cases h <;> constructor

/-! ## Scopes -/

namespace Program

variable {program : List Stmt} {position outer rest : Position} {step : Nat} {code piece : Code}

/-- The code at a position in a program. -/
def codeAt? (program : List Stmt) (position : Position) : Option Code :=
  (Code.body program).piece? position

/-- A block or a function is at a position. -/
def isScopeAt (program : List Stmt) (position : Position) : Bool :=
  (codeAt? program position).any Code.isScope

/-- The positions of the scopes around a position, the innermost first. -/
def scopesAround (program : List Stmt) (position : Position) : List Position :=
  (position.inits.dropLast.filter (isScopeAt program)).reverse

theorem codeAt?_append (h : codeAt? program position = some code) :
    codeAt? program (position ++ rest) = code.piece? rest := by
  unfold codeAt?
  rw [Code.piece?_append]
  exact (congrArg (Option.bind · _) h).trans (Option.bind_some _ _)

theorem codeAt?_concat (h : codeAt? program position = some code) :
    codeAt? program (position ++ [step]) = code.pieces[step]? :=
  Code.piece?_concat h

/-- Around code there is code. -/
theorem exists_codeAt?_of_init (h : codeAt? program position = some code)
    (hinit : outer <+: position) : ∃ around, codeAt? program outer = some around := by
  obtain ⟨rest, rfl⟩ := hinit
  obtain ⟨around, haround, -⟩ := Option.bind_eq_some_iff.1 (Code.piece?_append.symm.trans h)
  exact ⟨around, haround⟩

theorem exists_codeAt?_of_concat (h : codeAt? program (position ++ [step]) = some piece) :
    ∃ code, codeAt? program position = some code ∧ code.pieces[step]? = some piece := by
  obtain ⟨code, hcode⟩ := exists_codeAt?_of_init h (List.prefix_append _ _)
  exact ⟨code, hcode, (codeAt?_concat hcode).symm.trans h⟩

theorem isScopeAt_eq (h : codeAt? program position = some code) :
    isScopeAt program position = code.isScope :=
  congrArg (Option.any Code.isScope) h

theorem scopesAround_concat : scopesAround program (position ++ [step]) =
    (if isScopeAt program position then [position] else []) ++ scopesAround program position := by
  unfold scopesAround
  rw [Position.inits_concat, List.dropLast_concat, position.inits_eq_concat, List.filter_append,
    List.reverse_append, List.dropLast_concat, List.filter_singleton]
  cases isScopeAt program position <;> rfl

theorem scopesAround_concat_of_scope (h : isScopeAt program position = true) :
    scopesAround program (position ++ [step]) = position :: scopesAround program position := by
  rw [scopesAround_concat, if_pos h]
  rfl

theorem scopesAround_concat_of_not_scope (h : isScopeAt program position = false) :
    scopesAround program (position ++ [step]) = scopesAround program position := by
  rw [scopesAround_concat, h]
  rfl

/-- The scopes around a position are around it. -/
theorem around_of_mem_scopesAround (h : outer ∈ scopesAround program position) :
    Position.Around outer position := by
  have hinits := List.mem_of_mem_filter (List.mem_reverse.1 h)
  rcases List.eq_nil_or_concat position with rfl | ⟨inner, step, rfl⟩
  · cases hinits
  · rw [List.concat_eq_append, Position.inits_concat, List.dropLast_concat] at hinits
    rw [List.concat_eq_append, Position.around_concat_iff]
    by_cases heq : outer = inner
    · exact .inl heq
    · exact .inr ⟨(List.mem_inits _ _).1 hinits, heq⟩

/-- Of the scopes around a position those further out are nearer to the root. -/
theorem pairwise_scopesAround (program : List Stmt) (position : Position) :
    (scopesAround program position).Pairwise fun inner outer => outer.length < inner.length := by
  induction position using List.reverseRecOn with
  | nil => exact .nil
  | append_singleton position step ih =>
    cases hscope : isScopeAt program position with
    | true =>
      rw [scopesAround_concat_of_scope hscope]
      exact List.pairwise_cons.2 ⟨fun _ h => (around_of_mem_scopesAround h).length_lt, ih⟩
    | false => rwa [scopesAround_concat_of_not_scope hscope]

/-- Only the innermost scope around a position is at depth zero. -/
theorem head?_scopesAround_iff {depth : Nat}
    (h : (scopesAround program position)[depth]? = some outer) :
    (scopesAround program position).head? = some outer ↔ depth = 0 := by
  have hpairwise := pairwise_scopesAround program position
  revert h hpairwise
  generalize scopesAround program position = scopes
  intro h hpairwise
  cases scopes with
  | nil => cases h
  | cons first rest =>
    cases depth with
    | zero => exact iff_of_true h rfl
    | succ depth =>
      refine iff_of_false (fun hfirst => ?_) (Nat.succ_ne_zero depth)
      cases hfirst
      have hrest := (List.pairwise_cons.1 hpairwise).1 outer (List.mem_of_getElem? h)
      exact absurd hrest (Nat.lt_irrefl _)

/-- A scope around a position is the innermost one around a piece further in exactly if it is the
innermost one around the position and no scope is in between. -/
theorem head?_scopesAround_append (hlength : outer.length < position.length) :
    (scopesAround program (position ++ rest)).head? = some outer ↔
      (scopesAround program position).head? = some outer ∧
        ∀ between, Position.Around between rest →
          isScopeAt program (position ++ between) = false := by
  induction rest using List.reverseRecOn with
  | nil =>
    rw [List.append_nil]
    refine ⟨fun h => ⟨h, fun between haround => ?_⟩, And.left⟩
    exact absurd (List.prefix_nil.1 haround.1) haround.2
  | append_singleton rest step ih =>
    rw [← List.append_assoc]
    cases hscope : isScopeAt program (position ++ rest) with
    | true =>
      rw [scopesAround_concat_of_scope hscope]
      constructor
      · intro h
        cases h
        rw [List.length_append] at hlength
        exact absurd hlength (Nat.not_lt.2 (Nat.le_add_right _ _))
      · rintro ⟨-, hbetween⟩
        have hrest := hbetween rest (Position.around_concat_iff.2 (.inl rfl))
        rw [hscope] at hrest
        cases hrest
    | false =>
      rw [scopesAround_concat_of_not_scope hscope, ih]
      refine and_congr_right fun _ => forall_congr' fun between => ?_
      rw [Position.around_concat_iff]
      constructor
      · rintro h (rfl | haround)
        · exact hscope
        · exact h haround
      · exact fun h haround => h (.inr haround)

end Program

end Lox
