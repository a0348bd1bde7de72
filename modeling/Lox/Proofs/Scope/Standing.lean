/-
# Places and positions

A place says of a piece of code which scopes are around it and what they have declared before it,
and it is put together on the way to the piece. Here it is compared with what lexical scoping says
of the position of the piece, where nothing is put together: the scopes around a place are those
around the position, and they have declared the same names (`Program.At.agrees`).
-/

import Lox.Proofs.Scope.Lexical
import Lox.Proofs.Scope.Sites

namespace Lox

/-! ## Places at positions -/

namespace Program

/-- A position has a place and the code that stands there. -/
inductive At (program : List Stmt) : Position → Place → Code → Prop where
  | start : At program [] .top (.body program)
  | step {position : Position} {place : Place} {code piece : Code} {step : Nat}
      (h : At program position place code) (hpiece : code.pieces[step]? = some piece) :
      At program (position ++ [step]) (place.into code step) piece

variable {program : List Stmt} {position : Position} {step : Nat} {place : Place}
  {code piece : Code}

namespace At

theorem code_eq (h : At program position place code) : codeAt? program position = some code := by
  induction h with
  | start => rfl
  | step _ hpiece ih => exact (codeAt?_concat ih).trans hpiece

theorem lies (h : At program position place code) : Lies program place code := by
  induction h with
  | start => exact .refl
  | step _ hpiece ih => exact ih.tail (.of_piece hpiece)

end At

theorem exists_at_of_codeAt? (h : codeAt? program position = some code) :
    ∃ place, At program position place code := by
  induction position using List.reverseRecOn generalizing code with
  | nil =>
    cases h
    exact ⟨.top, .start⟩
  | append_singleton position step ih =>
    obtain ⟨around, haround, hpiece⟩ := exists_codeAt?_of_concat h
    obtain ⟨place, hplace⟩ := ih haround
    exact ⟨_, hplace.step hpiece⟩

end Program

/-! ## What is seen from a place -/

theorem Part.initializes_eq_none {p p' : Place} {c c' : Code} (h : Part p c p' c')
    (hp : c.isStatement = true → p.initializes = none) (hstatement : c'.isStatement = true) :
    p'.initializes = none := by
  cases h with
  | block | functionBody => rfl
  | ifThenTrue | ifElseTrue | ifElseFalse | whileBody | whileAgain | firstStatement => exact hp rfl
  | otherStatements => exact (p.initializes_declaring _).trans (hp rfl)
  | _ => cases hstatement

theorem Part.isStatement_eq_false {p p' : Place} {c c' : Code} (h : Part p c p' c')
    (hc : c.isStatement = false) : c'.isStatement = false := by
  cases c with
  | expression e => cases h <;> rfl
  | arguments es => cases h <;> rfl
  | _ => cases hc

namespace Place

variable {place : Place} {depth : Nat} {name : String}

/-- The scope at a depth around a place has declared a name before, or it is the name of the
variable that is initialized. -/
def Declared (place : Place) (depth : Nat) (name : String) : Prop :=
  ∃ scope, place.scopes[depth]? = some scope ∧
    (name ∈ scope.before ∨ depth = 0 ∧ place.initializes = some name)

private theorem findIdx?_eq_some_iff {scopes : List LocalScope} :
    (scopes.findIdx? fun scope => name ∈ scope.before) = some depth ↔
      (∃ scope, scopes[depth]? = some scope ∧ name ∈ scope.before) ∧
        ∀ nearer < depth, ¬ ∃ scope, scopes[nearer]? = some scope ∧ name ∈ scope.before := by
  rw [List.findIdx?_eq_some_iff_getElem]
  constructor
  · rintro ⟨hlt, hname, hnone⟩
    refine ⟨⟨_, List.getElem?_eq_getElem hlt, of_decide_eq_true hname⟩, ?_⟩
    rintro nearer hnearer ⟨scope, hscope, hbefore⟩
    obtain ⟨_, rfl⟩ := List.getElem?_eq_some_iff.1 hscope
    exact hnone nearer hnearer (decide_eq_true hbefore)
  · rintro ⟨⟨scope, hscope, hname⟩, hnone⟩
    obtain ⟨hlt, rfl⟩ := List.getElem?_eq_some_iff.1 hscope
    refine ⟨hlt, decide_eq_true hname, fun nearer hnearer hbefore => hnone nearer hnearer ?_⟩
    exact ⟨_, List.getElem?_eq_getElem (Nat.lt_trans hnearer hlt), of_decide_eq_true hbefore⟩

theorem depthOf?_eq_some_iff :
    place.depthOf? name = some depth ↔
      place.Declared depth name ∧ ∀ nearer < depth, ¬ place.Declared nearer name := by
  obtain ⟨_ | ⟨first, rest⟩, inFunction, initializes⟩ := place
  · refine iff_of_false (fun h => by cases h) ?_
    rintro ⟨⟨scope, hscope, -⟩, -⟩
    cases hscope
  · have hzero : Declared ⟨first :: rest, inFunction, initializes⟩ 0 name ↔
        initializes = some name ∨ name ∈ first.before := by
      constructor
      · rintro ⟨scope, hscope, h⟩
        cases hscope
        exact h.symm.imp_left And.right
      · exact fun h => ⟨first, rfl, h.symm.imp_right fun h => ⟨rfl, h⟩⟩
    have hsucc : ∀ depth, Declared ⟨first :: rest, inFunction, initializes⟩ (depth + 1) name ↔
        ∃ scope, rest[depth]? = some scope ∧ name ∈ scope.before := fun depth =>
      exists_congr fun scope => and_congr_right fun _ =>
        or_iff_left fun h => absurd h.1 (Nat.succ_ne_zero depth)
    unfold depthOf?
    dsimp only
    by_cases h : initializes = some name ∨ name ∈ first.before
    · rw [if_pos h]
      constructor
      · rintro ⟨⟩
        exact ⟨hzero.2 h, fun nearer hnearer => absurd hnearer (Nat.not_lt_zero nearer)⟩
      · rintro ⟨-, hnone⟩
        cases depth with
        | zero => rfl
        | succ depth => exact absurd (hzero.2 h) (hnone 0 (Nat.succ_pos depth))
    · rw [if_neg h]
      cases depth with
      | zero =>
        refine iff_of_false ?_ fun hdeclared => h (hzero.1 hdeclared.1)
        intro heq
        obtain ⟨depth, -, heq⟩ := Option.map_eq_some_iff.1 heq
        cases heq
      | succ depth =>
        have hzero' : ¬ Declared ⟨first :: rest, inFunction, initializes⟩ 0 name := fun hdeclared =>
          h (hzero.1 hdeclared)
        have hmap : ∀ found : Option Nat, found.map (· + 1) = some (depth + 1) ↔
            found = some depth := by
          intro found
          cases found <;> simp
        rw [hmap, findIdx?_eq_some_iff, Nat.forall_lt_succ_left, and_iff_right hzero', hsucc]
        exact and_congr_right fun _ => forall₂_congr fun nearer _ => not_congr (hsucc nearer).symm

theorem declared_declaring (place : Place) (names : List String) :
    (place.declaring names).Declared depth name ↔
      place.Declared depth name ∨ depth = 0 ∧ place.scopes ≠ [] ∧ name ∈ names := by
  obtain ⟨_ | ⟨first, rest⟩, inFunction, initializes⟩ := place
  · exact (or_iff_left fun h => h.2.1 rfl).symm
  · cases depth with
    | zero => simp [Declared, declaring, or_assoc, or_comm]
    | succ depth => simp [Declared, declaring]

theorem declared_initializing (h : place.initializes = none) (initialized : String) :
    (place.initializing initialized).Declared depth name ↔
      place.Declared depth name ∨ depth = 0 ∧ place.scopes ≠ [] ∧ name = initialized := by
  obtain ⟨scopes, inFunction, initializes⟩ := place
  obtain rfl := h
  cases depth with
  | zero => cases scopes <;> simp [Declared, initializing, eq_comm]
  | succ depth => simp [Declared, initializing]

/-- At a new scope nothing is seen but its parameters, and further out the same as before. -/
theorem declared_opened {outer : Place} {inner : LocalScope} {inFunction : Bool}
    (h : outer.initializes = none) :
    Declared ⟨inner :: outer.scopes, inFunction, none⟩ depth name ↔
      depth = 0 ∧ name ∈ inner.before ∨
        ∃ further, depth = further + 1 ∧ outer.Declared further name := by
  cases depth with
  | zero => simp [Declared]
  | succ depth => simp [Declared, h]

theorem scopes_length_declaring (place : Place) (names : List String) :
    (place.declaring names).scopes.length = place.scopes.length := by
  unfold declaring
  split
  · rfl
  · rename_i h
    rw [h]
    rfl

/-- In a body the scope has declared what the statements before declare. -/
theorem into_body (place : Place) (ss : List Stmt) (step : Nat) :
    place.into (.body ss) step = place.declaring (Code.declaredBefore (.body ss) step) := by
  rcases ss with _ | ⟨s, ss⟩ <;> rcases step with _ | _ | step
  all_goals first | rfl | exact place.declaring_nil.symm

variable {code : Code} {step : Nat}

/-- In a piece of code that is no scope, the innermost scope has also declared what the code has
declared when it comes to the piece. -/
theorem declared_into (hinitializes : code.isStatement = true → place.initializes = none)
    (hscope : code.isScope = false) :
    (place.into code step).Declared depth name ↔
      place.Declared depth name ∨
        depth = 0 ∧ place.scopes ≠ [] ∧ name ∈ code.declaredBefore step := by
  have hsame : ∀ names : List String, names = [] → (place.Declared depth name ↔
      place.Declared depth name ∨ depth = 0 ∧ place.scopes ≠ [] ∧ name ∈ names) := by
    rintro names rfl
    exact (or_iff_left fun h => List.not_mem_nil h.2.2).symm
  cases code with
  | expression e => exact hsame _ rfl
  | arguments es => exact hsame _ rfl
  | statement s =>
    cases s with
    | block ss => cases hscope
    | function name parameters ss => cases hscope
    | var initialized initializer =>
      have hname : name ∈ Code.declaredBefore (.statement (.var initialized initializer)) step ↔
        name = initialized.lexeme := List.mem_singleton
      rw [hname]
      exact declared_initializing (hinitializes rfl) _
    | _ => exact hsame _ rfl
  | body ss =>
    rw [into_body]
    exact declared_declaring place _

theorem scopes_length_into (hscope : code.isScope = false) :
    (place.into code step).scopes.length = place.scopes.length := by
  cases code with
  | statement s =>
    cases s with
    | block ss => cases hscope
    | function name parameters ss => cases hscope
    | _ => rfl
  | body ss =>
    rw [into_body]
    exact place.scopes_length_declaring _
  | _ => rfl

theorem initializes_into (hinitializes : code.isStatement = true → place.initializes = none) :
    (place.into code step).initializes = some name ↔
      (∃ declared initializer, code = .statement (.var declared initializer) ∧
        declared.lexeme = name) ∨ place.initializes = some name := by
  have hsame : (∀ declared initializer, code ≠ .statement (.var declared initializer)) →
      (place.initializes = some name ↔
        (∃ declared initializer, code = .statement (.var declared initializer) ∧
          declared.lexeme = name) ∨ place.initializes = some name) := by
    refine fun hnot => (or_iff_right ?_).symm
    rintro ⟨declared, initializer, hcode, -⟩
    exact hnot declared initializer hcode
  cases code with
  | statement s =>
    have hnone := hinitializes rfl
    cases s with
    | block ss | function function parameters ss =>
      rw [hnone] at hsame ⊢
      exact hsame fun _ _ h => by cases h
    | var declared initializer =>
      rw [hnone]
      constructor
      · rintro ⟨⟩
        exact .inl ⟨declared, initializer, rfl, rfl⟩
      · rintro (⟨_, _, ⟨⟩, rfl⟩ | h)
        · rfl
        · cases h
    | _ => exact hsame fun _ _ h => by cases h
  | body ss =>
    rw [into_body, initializes_declaring]
    exact hsame fun _ _ h => by cases h
  | _ => exact hsame fun _ _ h => by cases h

theorem inFunction_into : (place.into code step).inFunction = true ↔
    (∃ name parameters ss, code = .statement (.function name parameters ss)) ∨
      place.inFunction = true := by
  have hsame : (∀ name parameters ss, code ≠ .statement (.function name parameters ss)) →
      (place.inFunction = true ↔
        (∃ name parameters ss, code = .statement (.function name parameters ss)) ∨
          place.inFunction = true) := by
    refine fun hnot => (or_iff_right ?_).symm
    rintro ⟨name, parameters, ss, hcode⟩
    exact hnot name parameters ss hcode
  cases code with
  | statement s =>
    cases s with
    | function name parameters ss => exact iff_of_true rfl (.inl ⟨name, parameters, ss, rfl⟩)
    | _ => exact hsame fun _ _ _ h => by cases h
  | body ss =>
    rw [into_body, inFunction_declaring]
    exact hsame fun _ _ _ h => by cases h
  | _ => exact hsame fun _ _ _ h => by cases h

theorem scopes_length_into_scope (hscope : code.isScope = true) :
    (place.into code step).scopes.length = place.scopes.length + 1 := by
  cases code with
  | statement s =>
    cases s with
    | block ss => rfl
    | function function parameters ss =>
      exact congrArg (· + 1) (place.scopes_length_declaring [function.lexeme])
    | _ => cases hscope
  | _ => cases hscope

/-- At the start of a block or a function its parameters are declared, and further out the same
names as before, with the function itself. -/
theorem declared_into_scope (hinitializes : place.initializes = none)
    (hscope : code.isScope = true) :
    (place.into code step).Declared depth name ↔
      (depth = 0 ∧ ∃ function parameters ss, code = .statement (.function function parameters ss) ∧
        name ∈ parameters.map Token.lexeme) ∨
      ∃ further, depth = further + 1 ∧
        (place.Declared further name ∨
          further = 0 ∧ place.scopes ≠ [] ∧ name ∈ code.declaredBefore step) := by
  cases code with
  | statement s =>
    cases s with
    | block ss =>
      refine (declared_opened hinitializes).trans (or_congr ?_ (exists_congr fun further =>
        and_congr_right fun _ => (or_iff_left fun h => List.not_mem_nil h.2.2).symm))
      refine and_congr_right fun _ => iff_of_false List.not_mem_nil ?_
      rintro ⟨_, _, _, h, -⟩
      cases h
    | function function parameters ss =>
      have hdeclaring := (place.initializes_declaring [function.lexeme]).trans hinitializes
      refine (declared_opened hdeclaring).trans (or_congr ?_ (exists_congr fun further =>
        and_congr_right fun _ => place.declared_declaring _))
      refine and_congr_right fun _ => ⟨fun h => ⟨_, _, _, rfl, h⟩, ?_⟩
      rintro ⟨_, _, _, h, hname⟩
      cases h
      exact hname
    | _ => cases hscope
  | _ => cases hscope

end Place

namespace Program

variable {program : List Stmt} {position outer scope : Position} {step depth : Nat} {place : Place}
  {code piece : Code} {name : String}

theorem At.wellFormed (h : At program position place code) (hwf : Stmt.AllWellFormed program) :
    code.WellFormed :=
  (h.lies.wellFormed hwf).1

/-- Statements are not in an initializer. -/
theorem At.initializes_eq_none (h : At program position place code)
    (hstatement : code.isStatement = true) : place.initializes = none := by
  induction h with
  | start => rfl
  | step _ hpiece ih => exact (Part.of_piece hpiece).initializes_eq_none ih hstatement

/-- A place has as many scopes around as a position, and they have declared the same names. -/
structure Agrees (program : List Stmt) (place : Place) (position : Position) : Prop where
  length_eq : place.scopes.length = (scopesAround program position).length
  declared_iff (depth : Nat) (name : String) : place.Declared depth name ↔
    ∃ scope, (scopesAround program position)[depth]? = some scope ∧
      DeclaresBefore program scope name position

namespace Agrees

theorem top : Agrees program .top [] := by
  refine ⟨rfl, fun depth name => iff_of_false ?_ ?_⟩
  · rintro ⟨scope, hscope, -⟩
    cases hscope
  · rintro ⟨scope, hscope, -⟩
    cases hscope

variable (h : Agrees program place position) (hcode : codeAt? program position = some code)
  (hwf : code.WellFormed) (hpiece : code.pieces[step]? = some piece)

include h hcode hwf hpiece

/-- What the scopes around some code have declared at a piece of it, said of the place of the
code. -/
theorem declared_iff_piece (depth : Nat) (name : String) :
    (∃ scope, (scopesAround program position)[depth]? = some scope ∧
        DeclaresBefore program scope name (position ++ [step])) ↔
      place.Declared depth name ∨
        depth = 0 ∧ place.scopes ≠ [] ∧ name ∈ code.declaredBefore step := by
  have hconcat : ∀ scope, (scopesAround program position)[depth]? = some scope →
      (DeclaresBefore program scope name (position ++ [step]) ↔
        DeclaresBefore program scope name position ∨
          depth = 0 ∧ name ∈ code.declaredBefore step) := by
    intro scope hscope
    rw [← head?_scopesAround_iff hscope]
    exact DeclaresBefore.concat_iff hcode hwf hpiece (List.mem_of_getElem? hscope)
  constructor
  · rintro ⟨scope, hscope, hdeclares⟩
    rcases (hconcat scope hscope).1 hdeclares with hold | ⟨hzero, hname⟩
    · exact .inl ((h.declared_iff depth name).2 ⟨scope, hscope, hold⟩)
    · refine .inr ⟨hzero, fun hnil => ?_, hname⟩
      have hlength := h.length_eq
      rw [hnil] at hlength
      exact List.ne_nil_of_mem (List.mem_of_getElem? hscope)
        (List.length_eq_zero_iff.1 hlength.symm)
  · rintro (hold | ⟨rfl, hne, hname⟩)
    · obtain ⟨scope, hscope, hold⟩ := (h.declared_iff depth name).1 hold
      exact ⟨scope, hscope, (hconcat scope hscope).2 (.inl hold)⟩
    · have hlt := List.length_pos_of_ne_nil hne
      rw [h.length_eq] at hlt
      have hscope := List.getElem?_eq_getElem hlt
      exact ⟨_, hscope, (hconcat _ hscope).2 (.inr ⟨rfl, hname⟩)⟩

/-- A piece of code that is no scope stands in the same scopes. -/
theorem into (hinitializes : code.isStatement = true → place.initializes = none)
    (hscope : code.isScope = false) :
    Agrees program (place.into code step) (position ++ [step]) := by
  have hsame : scopesAround program (position ++ [step]) = scopesAround program position :=
    scopesAround_concat_of_not_scope ((isScopeAt_eq hcode).trans hscope)
  refine ⟨?_, fun depth name => ?_⟩
  · rw [hsame]
    exact (Place.scopes_length_into hscope).trans h.length_eq
  · rw [hsame, Place.declared_into hinitializes hscope]
    exact (h.declared_iff_piece hcode hwf hpiece depth name).symm

/-- A block or a function is one more scope around what is within it. -/
theorem into_scope (hinitializes : place.initializes = none) (hscope : code.isScope = true) :
    Agrees program (place.into code step) (position ++ [step]) := by
  have hopened : scopesAround program (position ++ [step]) =
      position :: scopesAround program position :=
    scopesAround_concat_of_scope ((isScopeAt_eq hcode).trans hscope)
  refine ⟨?_, fun depth name => ?_⟩
  · rw [hopened, Place.scopes_length_into_scope hscope, h.length_eq]
    rfl
  · rw [hopened, Place.declared_into_scope hinitializes hscope]
    cases depth with
    | zero =>
      have hstart : DeclaresBefore program position name (position ++ [step]) ↔ _ :=
        DeclaresBefore.start_iff hcode (Code.one_piece hscope hpiece)
      rw [← hstart]
      constructor
      · rintro (⟨-, hdeclares⟩ | ⟨further, hzero, -⟩)
        · exact ⟨position, rfl, hdeclares⟩
        · cases hzero
      · rintro ⟨scope, ⟨⟩, hdeclares⟩
        exact .inl ⟨rfl, hdeclares⟩
    | succ depth =>
      refine Iff.trans ?_ (h.declared_iff_piece hcode hwf hpiece depth name).symm
      constructor
      · rintro (⟨hzero, -⟩ | ⟨further, ⟨⟩, hdeclared⟩)
        · cases hzero
        · exact hdeclared
      · exact fun hdeclared => .inr ⟨depth, rfl, hdeclared⟩

end Agrees

/-- The place of some code agrees with its position. -/
theorem At.agrees (h : At program position place code) (hwf : Stmt.AllWellFormed program) :
    Agrees program place position := by
  induction h with
  | start => exact .top
  | @step position place code piece step h hpiece ih =>
    cases hscope : code.isScope with
    | false => exact ih.into h.code_eq (h.wellFormed hwf) hpiece h.initializes_eq_none hscope
    | true =>
      have hnone := h.initializes_eq_none (Code.isStatement_of_isScope hscope)
      exact ih.into_scope h.code_eq (h.wellFormed hwf) hpiece hnone hscope

/-- The depth of a name at a place is that of the scope that it refers to. -/
theorem At.depthOf?_eq_some_iff (h : At program position place code)
    (hwf : Stmt.AllWellFormed program) :
    place.depthOf? name = some depth ↔ RefersTo program position name depth := by
  have hdeclared := (h.agrees hwf).declared_iff
  rw [Place.depthOf?_eq_some_iff, hdeclared]
  refine and_congr_right fun _ => forall₂_congr fun nearer _ => ?_
  rw [hdeclared]
  exact not_exists.trans (forall_congr' fun scope => not_and)

/-- Whether there is code of some kind around a piece is known from the code directly around it. -/
theorem exists_around_concat_iff {kind : Code → Prop}
    (hcode : codeAt? program position = some code) :
    (∃ outer inner, Position.Around outer (position ++ [step]) ∧
        codeAt? program outer = some inner ∧ kind inner) ↔
      kind code ∨ ∃ outer inner, Position.Around outer position ∧
        codeAt? program outer = some inner ∧ kind inner := by
  constructor
  · rintro ⟨outer, inner, haround, hinner, hkind⟩
    rcases Position.around_concat_iff.1 haround with rfl | haround
    · obtain rfl := Option.some.inj (hcode.symm.trans hinner)
      exact .inl hkind
    · exact .inr ⟨outer, inner, haround, hinner, hkind⟩
  · rintro (hkind | ⟨outer, inner, haround, hinner, hkind⟩)
    · exact ⟨position, code, Position.around_concat_iff.2 (.inl rfl), hcode, hkind⟩
    · exact ⟨outer, inner, Position.around_concat_iff.2 (.inr haround), hinner, hkind⟩

theorem not_exists_around_nil {kind : Code → Prop} :
    ¬ ∃ outer inner,
      Position.Around outer [] ∧ codeAt? program outer = some inner ∧ kind inner := by
  rintro ⟨outer, inner, haround, -⟩
  exact haround.2 (List.prefix_nil.1 haround.1)

/-- What is in an initializer is within the declaration of the variable. -/
theorem At.initializes_iff (h : At program position place code) :
    place.initializes = some name ↔
      ∃ outer inner, Position.Around outer position ∧ codeAt? program outer = some inner ∧
        ∃ declared initializer, inner = .statement (.var declared initializer) ∧
          declared.lexeme = name := by
  induction h with
  | start => exact iff_of_false (fun h => by cases h) not_exists_around_nil
  | step h hpiece ih =>
    rw [exists_around_concat_iff h.code_eq, ← ih]
    exact Place.initializes_into h.initializes_eq_none

/-- What stands in a function is within its declaration. -/
theorem At.inFunction_iff (h : At program position place code) :
    place.inFunction = true ↔
      ∃ outer inner, Position.Around outer position ∧ codeAt? program outer = some inner ∧
        ∃ name parameters ss, inner = .statement (.function name parameters ss) := by
  induction h with
  | start => exact iff_of_false (fun h => by cases h) not_exists_around_nil
  | step h hpiece ih =>
    rw [exists_around_concat_iff h.code_eq, ← ih]
    exact Place.inFunction_into

end Program

end Lox
