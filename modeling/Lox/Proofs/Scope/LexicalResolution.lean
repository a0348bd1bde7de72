/-
# Resolution finds what lexical scoping says

What resolution makes of a program comes down to its sites, and each site is one position of the
program. What is wrong there, and the depth there, is what lexical scoping says of the position. So
resolution finds the breaches of its rules in the order of their positions, each of them once, and
if there are none, the depths that names refer to (`Program.bindingDepths_lexical`).
-/

import Lox.Proofs.Scope.Resolution
import Lox.Proofs.Scope.Standing
import Lox.Token.Scan
import Mathlib.Data.Nat.Find

namespace Lox

/-! ## Sites and pieces -/

namespace Code

/-- The site that some code is itself, if it counts before those within: a read or a return. -/
def opening (place : Place) : Code → Option Site
  | expression (.read id name) => some (.read place id name)
  | statement (.return keyword _) => some (.return place keyword)
  | _ => none

/-- The site that some code is itself, if it counts after those within: an assignment. -/
def closing (place : Place) : Code → Option Site
  | expression (.assign id name _) => some (.assign place id name)
  | _ => none

/-- The sites of some code are its own and those of the pieces directly within. -/
theorem sites_eq (place : Place) (code : Code) :
    code.sites place = (code.opening place).toList ++
      (code.pieces.zipIdx.flatMap fun piece => piece.1.sites (place.into code piece.2)) ++
        (code.closing place).toList := by
  cases code with
  | expression e =>
    cases e <;> simp [Code.sites, Expr.sites, opening, closing, pieces, Place.into]
  | arguments es =>
    cases es <;> simp [Code.sites, Expr.allSites, opening, closing, pieces, Place.into]
  | statement s =>
    cases s with
    | «return» keyword value =>
      cases value <;> simp [Code.sites, Stmt.sites, opening, closing, pieces, Place.into]
    | var name initializer =>
      cases initializer <;> simp [Code.sites, Stmt.sites, opening, closing, pieces, Place.into]
    | _ => simp [Code.sites, Stmt.sites, opening, closing, pieces, Place.into]
  | body ss => cases ss <;> simp [Code.sites, Stmt.allSites, opening, closing, pieces, Place.into]

theorem opening_mem_sites {place : Place} {code : Code} {site : Site}
    (h : code.opening place = some site) : site ∈ code.sites place := by
  rw [sites_eq, h, List.append_assoc]
  exact List.mem_cons_self

theorem closing_mem_sites {place : Place} {code : Code} {site : Site}
    (h : code.closing place = some site) : site ∈ code.sites place := by
  rw [sites_eq, h]
  exact List.mem_append_right _ List.mem_cons_self

/-- Nothing is wrong with an assignment, so what is wrong in some code is wrong with itself or in
the pieces directly within. -/
theorem errors_eq (place : Place) (code : Code) :
    (code.sites place).filterMap Site.error? =
      ((code.opening place).bind Site.error?).toList ++ code.pieces.zipIdx.flatMap fun piece =>
        (piece.1.sites (place.into code piece.2)).filterMap Site.error? := by
  have hclosing : (code.closing place).toList.filterMap Site.error? = [] := by
    cases code with
    | expression e => cases e <;> rfl
    | _ => rfl
  have hopening : (code.opening place).toList.filterMap Site.error? =
      ((code.opening place).bind Site.error?).toList := by
    cases code.opening place with
    | none => rfl
    | some site => cases herror : site.error? <;> simp [herror]
  rw [sites_eq, List.filterMap_append, List.filterMap_append, hclosing, hopening, List.append_nil,
    List.filterMap_flatMap]

theorem sizeOf_piece_lt {code piece : Code} {step : Nat} (h : code.pieces[step]? = some piece) :
    sizeOf piece < sizeOf code := by
  have hmem := List.mem_of_getElem? h
  unfold pieces at hmem
  split at hmem <;> simp at hmem <;> rcases hmem with rfl | rfl | rfl <;> simp <;> omega

/-- No block and no function is within an expression. -/
theorem any_isScope_piece? {rest : Position} {code : Code} (h : code.isStatement = false) :
    (code.piece? rest).any isScope = false := by
  induction rest generalizing code with
  | nil =>
    cases code with
    | expression e => rfl
    | arguments es => rfl
    | _ => cases h
  | cons step rest ih =>
    cases hpiece : code.pieces[step]? with
    | none =>
      have hnone : code.piece? (step :: rest) = none := congrArg (Option.bind · _) hpiece
      rw [hnone]
      rfl
    | some piece =>
      rw [piece?_cons hpiece]
      have hpart : Part .top code (Place.top.into code step) piece := .of_piece hpiece
      exact ih (hpart.isStatement_eq_false h)

end Code

namespace Program

variable {program : List Stmt} {position outer : Position} {place : Place} {code : Code}
  {error : ResolveError}

/-- An initializer is in the same scopes as the declaration. -/
theorem scopesAround_of_variable {declared : Token} {initializer : Option Expr}
    (h : codeAt? program outer = some (.statement (.var declared initializer)))
    (hinit : outer <+: position) : scopesAround program position = scopesAround program outer := by
  obtain ⟨rest, rfl⟩ := hinit
  have hscope : ∀ rest, isScopeAt program (outer ++ rest) = false := by
    intro rest
    rw [isScopeAt_append h]
    rcases rest with _ | ⟨step, rest⟩
    · rfl
    · rcases initializer with _ | e <;> rcases step with _ | step
      · rfl
      · rfl
      · have hpiece : (Code.statement (.var declared (some e))).pieces[0]? =
          some (.expression e) := rfl
        rw [Code.piece?_cons hpiece]
        exact Code.any_isScope_piece? rfl
      · rfl
  induction rest using List.reverseRecOn with
  | nil => rw [List.append_nil]
  | append_singleton rest step ih =>
    rw [← List.append_assoc, scopesAround_concat_of_not_scope (hscope rest), ih]

/-- What breaks a rule at a position is wrong with the code that opens there. -/
theorem At.offends_iff (h : At program position place code) (hwf : Stmt.AllWellFormed program) :
    Offends program position error ↔ (code.opening place).bind Site.error? = some error := by
  have hlocal : place.scopes ≠ [] ↔ scopesAround program position ≠ [] := by
    rw [← List.length_pos_iff, (h.agrees hwf).length_eq, List.length_pos_iff]
  rw [Option.bind_eq_some_iff]
  constructor
  · rintro (⟨hread, hvariable, hwithin, hname, hscopes⟩ | ⟨hreturn, houtside⟩)
    · obtain rfl := Option.some.inj (h.code_eq.symm.trans hread)
      have hinitializes := h.initializes_iff.2
        ⟨_, _, hwithin, hvariable, _, _, rfl, hname⟩
      have hscopes' : place.scopes ≠ [] := by
        rwa [hlocal, scopesAround_of_variable hvariable hwithin.1]
      exact ⟨_, rfl, if_pos ⟨hscopes', hinitializes⟩⟩
    · obtain rfl := Option.some.inj (h.code_eq.symm.trans hreturn)
      refine ⟨_, rfl, if_neg fun hinFunction => ?_⟩
      obtain ⟨outer, inner, haround, hinner, name, parameters, ss, rfl⟩ :=
        h.inFunction_iff.1 hinFunction
      exact houtside outer name parameters ss haround hinner
  · rintro ⟨site, hsite, herror⟩
    cases code with
    | expression e =>
      cases e with
      | read id name =>
        cases hsite
        obtain ⟨⟨hscopes, hinitializes⟩, herror⟩ := Option.ite_none_right_eq_some.1 herror
        cases herror
        obtain ⟨outer, inner, haround, hinner, declared, initializer, rfl, hname⟩ :=
          h.initializes_iff.1 hinitializes
        refine .read h.code_eq hinner haround hname ?_
        rwa [← scopesAround_of_variable hinner haround.1, ← hlocal]
      | _ => cases hsite
    | statement s =>
      cases s with
      | «return» keyword value =>
        cases hsite
        obtain ⟨hinFunction, herror⟩ := Option.ite_none_left_eq_some.1 herror
        cases herror
        refine .return h.code_eq fun outer name parameters ss haround hinner => hinFunction ?_
        exact h.inFunction_iff.2 ⟨outer, _, haround, hinner, name, parameters, ss, rfl⟩
      | _ => cases hsite
    | _ => cases hsite

/-- These are the breaches of rules in the code at a position, in the order of their positions. -/
def Finds (program : List Stmt) (position : Position) (errors : List ResolveError) : Prop :=
  ∃ offences : List (Position × ResolveError), offences.map Prod.snd = errors ∧
    (offences.Pairwise fun first second => first.1 < second.1) ∧
    ∀ other error, (other, error) ∈ offences ↔ position <+: other ∧ Offends program other error

theorem Offends.exists_codeAt? {position : Position} {error : ResolveError}
    (h : Offends program position error) : ∃ code, codeAt? program position = some code := by
  cases h with
  | read hread => exact ⟨_, hread⟩
  | «return» hreturn => exact ⟨_, hreturn⟩

/-- The breaches in the pieces from one on are those in each of them. -/
theorem At.findsFrom (h : At program position place code)
    (hpieces : ∀ piece step, code.pieces[step]? = some piece →
      Finds program (position ++ [step])
        ((piece.sites (place.into code step)).filterMap Site.error?))
    (rest : List Code) (step : Nat) (hrest : code.pieces.drop step = rest) :
    ∃ offences : List (Position × ResolveError),
      offences.map Prod.snd = ((rest.zipIdx step).flatMap fun piece =>
        (piece.1.sites (place.into code piece.2)).filterMap Site.error?) ∧
      (offences.Pairwise fun first second => first.1 < second.1) ∧
      ∀ other error, (other, error) ∈ offences ↔
        ∃ later ≥ step, position ++ [later] <+: other ∧ Offends program other error := by
  induction rest generalizing step with
  | nil =>
    refine ⟨[], rfl, .nil, fun other error => iff_of_false List.not_mem_nil ?_⟩
    rintro ⟨later, hlater, hinit, hoffends⟩
    obtain ⟨inner, hinner⟩ := hoffends.exists_codeAt?
    obtain ⟨piece, hpiece⟩ := exists_codeAt?_of_init hinner hinit
    rw [codeAt?_concat h.code_eq] at hpiece
    obtain ⟨hlt, -⟩ := List.getElem?_eq_some_iff.1 hpiece
    have hlength := List.drop_eq_nil_iff.1 hrest
    exact absurd hlt (Nat.not_lt.2 (Nat.le_trans hlength hlater))
  | cons piece rest ih =>
    have hpiece : code.pieces[step]? = some piece := by
      rw [← List.head?_drop, hrest]
      rfl
    have hrest' : code.pieces.drop (step + 1) = rest := by
      rw [← List.tail_drop, hrest]
      rfl
    obtain ⟨offences, hmap, hpairwise, hmem⟩ := hpieces piece step hpiece
    obtain ⟨offences', hmap', hpairwise', hmem'⟩ := ih (step + 1) hrest'
    refine ⟨offences ++ offences', ?_, ?_, fun other error => ?_⟩
    · rw [List.map_append, hmap, hmap', List.zipIdx_cons, List.flatMap_cons]
    · refine List.pairwise_append.2 ⟨hpairwise, hpairwise', ?_⟩
      rintro ⟨first, error⟩ hfirst ⟨second, error'⟩ hsecond
      obtain ⟨hinit, -⟩ := (hmem first error).1 hfirst
      obtain ⟨later, hlater, hinit', -⟩ := (hmem' second error').1 hsecond
      exact Position.lt_of_pieces hlater hinit hinit'
    · rw [List.mem_append, hmem, hmem']
      constructor
      · rintro (hoffends | ⟨later, hlater, hoffends⟩)
        · exact ⟨step, Nat.le_refl _, hoffends⟩
        · exact ⟨later, Nat.le_of_succ_le hlater, hoffends⟩
      · rintro ⟨later, hlater, hoffends⟩
        rcases Nat.eq_or_lt_of_le hlater with rfl | hlater
        · exact .inl hoffends
        · exact .inr ⟨later, hlater, hoffends⟩

/-- What is wrong at the sites of some code are the breaches of rules in it. -/
theorem At.finds (h : At program position place code) (hwf : Stmt.AllWellFormed program) :
    Finds program position ((code.sites place).filterMap Site.error?) := by
  induction hsize : sizeOf code using Nat.strongRecOn generalizing position place code with
  | ind size ih =>
    obtain ⟨offences, hmap, hpairwise, hmem⟩ := h.findsFrom (fun piece step hpiece =>
      ih _ (hsize ▸ Code.sizeOf_piece_lt hpiece) (h.step hpiece) rfl) code.pieces 0 rfl
    have hown : ∀ other error, (other, error) ∈
        ((code.opening place).bind Site.error?).toList.map (position, ·) ↔
          other = position ∧ Offends program position error := by
      intro other error
      rw [h.offends_iff hwf, List.mem_map]
      constructor
      · rintro ⟨error', herror, heq⟩
        cases heq
        exact ⟨rfl, Option.mem_toList.1 herror⟩
      · rintro ⟨rfl, herror⟩
        exact ⟨error, Option.mem_toList.2 herror, rfl⟩
    refine ⟨((code.opening place).bind Site.error?).toList.map (position, ·) ++ offences, ?_, ?_,
      fun other error => ?_⟩
    · rw [List.map_append, hmap, Code.errors_eq, List.map_map]
      exact congrArg (· ++ _) (List.map_id _)
    · refine List.pairwise_append.2 ⟨?_, hpairwise, ?_⟩
      · cases (code.opening place).bind Site.error? with
        | none => exact .nil
        | some error => exact List.pairwise_singleton _ _
      · rintro ⟨first, error⟩ hfirst ⟨second, error'⟩ hsecond
        obtain ⟨rfl, -⟩ := (hown first error).1 hfirst
        obtain ⟨step, -, hinit, -⟩ := (hmem second error').1 hsecond
        exact (Position.around_of_piece hinit).lt
    · rw [List.mem_append, hown, hmem, Position.init_iff]
      constructor
      · rintro (⟨rfl, hoffends⟩ | ⟨step, -, hinit, hoffends⟩)
        · exact ⟨.inl rfl, hoffends⟩
        · exact ⟨.inr ⟨step, hinit⟩, hoffends⟩
      · rintro ⟨rfl | ⟨step, hinit⟩, hoffends⟩
        · exact .inl ⟨rfl, hoffends⟩
        · exact .inr ⟨step, Nat.zero_le _, hinit, hoffends⟩

/-- Every site within some code is the code at a position itself. -/
theorem At.exists_of_mem_sites {site : Site} (h : At program position place code)
    (hsite : site ∈ code.sites place) :
    ∃ position' place' code', At program position' place' code' ∧
      (code'.opening place' = some site ∨ code'.closing place' = some site) := by
  induction hsize : sizeOf code using Nat.strongRecOn generalizing position place code with
  | ind size ih =>
    rw [Code.sites_eq, List.mem_append, List.mem_append] at hsite
    rcases hsite with (hopening | hpieces) | hclosing
    · exact ⟨position, place, code, h, .inl (Option.mem_toList.1 hopening)⟩
    · obtain ⟨⟨piece, step⟩, hmem, hsite⟩ := List.mem_flatMap.1 hpieces
      have hpiece := List.mk_mem_zipIdx_iff_getElem?.1 hmem
      exact ih _ (hsize ▸ Code.sizeOf_piece_lt hpiece) (h.step hpiece) hsite rfl
    · exact ⟨position, place, code, h, .inr (Option.mem_toList.1 hclosing)⟩

/-- At an access there is a site with its number and its depth. -/
theorem Accesses.exists_site {id : AccessId} {name : Token}
    (h : Accesses program position id name) :
    ∃ place code site, At program position place code ∧ site ∈ code.sites place ∧
      site.id? = some id ∧ site.depth? = place.depthOf? name.lexeme := by
  rcases h with hread | ⟨e, hassign⟩
  · obtain ⟨place, hat⟩ := exists_at_of_codeAt? hread
    exact ⟨place, _, .read place id name, hat, Code.opening_mem_sites rfl, rfl, rfl⟩
  · obtain ⟨place, hat⟩ := exists_at_of_codeAt? hassign
    exact ⟨place, _, .assign place id name, hat, Code.closing_mem_sites rfl, rfl, rfl⟩

/-- Where there is a site with a number, there is an access. -/
theorem At.exists_accesses {site : Site} {id : AccessId} (h : At program position place code)
    (hsite : code.opening place = some site ∨ code.closing place = some site)
    (hid : site.id? = some id) : ∃ name, Accesses program position id name := by
  cases code with
  | expression e =>
    cases e with
    | read id' name =>
      rcases hsite with hsite | hsite <;> cases hsite
      cases hid
      exact ⟨name, .inl h.code_eq⟩
    | assign id' name e =>
      rcases hsite with hsite | hsite <;> cases hsite
      cases hid
      exact ⟨name, .inr ⟨e, h.code_eq⟩⟩
    | _ => rcases hsite with hsite | hsite <;> cases hsite
  | statement s =>
    cases s with
    | «return» keyword value =>
      rcases hsite with hsite | hsite <;> cases hsite
      cases hid
    | _ => rcases hsite with hsite | hsite <;> cases hsite
  | _ => rcases hsite with hsite | hsite <;> cases hsite

/-- A name refers to some scope exactly if one around declares it before. -/
theorem exists_refersTo_iff {name : String} :
    (∃ depth, RefersTo program position name depth) ↔
      ∃ scope ∈ scopesAround program position, DeclaresBefore program scope name position := by
  constructor
  · rintro ⟨depth, ⟨scope, hscope, hdeclares⟩, -⟩
    exact ⟨scope, List.mem_of_getElem? hscope, hdeclares⟩
  · rintro ⟨scope, hmem, hdeclares⟩
    obtain ⟨depth, hscope⟩ := List.getElem?_of_mem hmem
    classical
    have hexists : ∃ depth scope, (scopesAround program position)[depth]? = some scope ∧
        DeclaresBefore program scope name position := ⟨depth, scope, hscope, hdeclares⟩
    refine ⟨Nat.find hexists, Nat.find_spec hexists, fun nearer hnearer other hother h => ?_⟩
    exact Nat.find_min hexists hnearer ⟨other, hother, h⟩

/-- Resolution finds what lexical scoping says. A program that has been read is rejected exactly if
a local variable is read in its own initializer or there is a return outside every function. Then
all these positions are listed, each of them once and in their order. Otherwise the depth noted down
for an access is that of the innermost scope around it that declares the name before it, if there is
one, and no depths are noted down but those of accesses. -/
theorem bindingDepths_lexical {tokens : List Token} {nextId next : AccessId} {program : List Stmt}
    (h : ofTokens tokens nextId = (.ok program, next)) :
    ∃ offences : List (Position × ResolveError),
      (offences.Pairwise fun first second => first.1 < second.1) ∧
      (∀ position error, (position, error) ∈ offences ↔ Offends program position error) ∧
      (offences ≠ [] → bindingDepths program = .error (offences.map Prod.snd)) ∧
      (offences = [] → ∃ depths, bindingDepths program = .ok depths ∧
        (∀ position id name, Accesses program position id name →
          ((∃ depth, depths[id]? = some depth) ↔ ∃ scope ∈ scopesAround program position,
            DeclaresBefore program scope name.lexeme position) ∧
          ∀ depth, depths[id]? = some depth ↔ RefersTo program position name.lexeme depth) ∧
        ∀ id depth, depths[id]? = some depth →
          ∃ position name, Accesses program position id name) := by
  have hwf := wellFormed_of_ofTokens h
  obtain ⟨offences, hmap, hpairwise, hmem⟩ := At.start.finds hwf
  have herrors : offences.map Prod.snd = (sites program).filterMap Site.error? := hmap
  have heq := bindingDepths_eq hwf
  rw [← herrors] at heq
  refine ⟨offences, hpairwise, fun position error => ?_, fun hne => ?_, fun hnil => ?_⟩
  · rw [hmem]
    exact and_iff_right List.nil_prefix
  · rw [heq, if_neg fun hnil => hne (List.map_eq_nil_iff.1 hnil)]
  · rw [if_pos (List.map_eq_nil_iff.2 hnil)] at heq
    obtain ⟨hsites, hothers⟩ := sites_of_bindingDepths hwf (fresh_of_ofTokens h) heq
    refine ⟨_, heq, fun position id name haccesses => ?_, fun id depth hdepth => ?_⟩
    · obtain ⟨place, code, site, hat, hsite, hid, hdepth⟩ := haccesses.exists_site
      have hrefers : ∀ depth, ((sites program).foldl Site.record ∅)[id]? = some depth ↔
          RefersTo program position name.lexeme depth := by
        intro depth
        rw [(hsites site (hat.lies.sites_subset hsite)).2 id hid, hdepth]
        exact hat.depthOf?_eq_some_iff hwf
      exact ⟨(exists_congr hrefers).trans exists_refersTo_iff, hrefers⟩
    · have hid : id ∈ Stmt.allIds program := by
        by_contra hnot
        rw [hothers id hnot] at hdepth
        cases hdepth
      rw [← ids_sites] at hid
      obtain ⟨site, hsite, hid⟩ := List.mem_filterMap.1 hid
      obtain ⟨position, place, code, hat, hsite⟩ := At.start.exists_of_mem_sites hsite
      exact ⟨position, hat.exists_accesses hsite hid⟩

set_option maxRecDepth 4096 in
/-- In a block within a block a variable of the outer one is at depth one. And where a variable is
read in its own initializer and there is a return outside every function, both are found, the one
further on in the text behind the other. -/
theorem bindingDepths_lexical_in_blocks :
    (∃ tokens program next, Token.scan "{ var a = 1; { print a; } }" = .ok tokens ∧
      ofTokens tokens 0 = (.ok program, next) ∧
      ∃ position name, Accesses program position 0 name ∧ RefersTo program position name.lexeme 1) ∧
    ∃ tokens program next, Token.scan "{ var a = a; } return;" = .ok tokens ∧
      ofTokens tokens 0 = (.ok program, next) ∧
      ∃ first second name keyword, first < second ∧
        Offends program first ⟨.readInOwnInitializer, name⟩ ∧
        Offends program second ⟨.topLevelReturn, keyword⟩ := by
  constructor
  · have hread : ∃ tokens program next, Token.scan "{ var a = 1; { print a; } }" = .ok tokens ∧
        ofTokens tokens 0 = (.ok program, next) ∧
        (bindingDepths program).map (·[(0 : AccessId)]?) = .ok (some 1) :=
      ⟨_, _, _, rfl, rfl, rfl⟩
    obtain ⟨tokens, program, next, hscan, hprogram, hcomputed⟩ := hread
    refine ⟨tokens, program, next, hscan, hprogram, ?_⟩
    obtain ⟨offences, -, -, hrejected, haccepted⟩ := bindingDepths_lexical hprogram
    by_cases hnil : offences = []
    · obtain ⟨depths, hdepths, haccesses, hothers⟩ := haccepted hnil
      rw [hdepths] at hcomputed
      have hdepth : depths[(0 : AccessId)]? = some 1 := Except.ok.inj hcomputed
      obtain ⟨position, name, haccess⟩ := hothers 0 1 hdepth
      exact ⟨position, name, haccess, ((haccesses position 0 name haccess).2 1).1 hdepth⟩
    · rw [hrejected hnil] at hcomputed
      cases hcomputed
  · have hread : ∃ tokens program next name keyword,
        Token.scan "{ var a = a; } return;" = .ok tokens ∧
        ofTokens tokens 0 = (.ok program, next) ∧ bindingDepths program =
          .error [⟨.readInOwnInitializer, name⟩, ⟨.topLevelReturn, keyword⟩] :=
      ⟨_, _, _, _, _, rfl, rfl, rfl⟩
    obtain ⟨tokens, program, next, name, keyword, hscan, hprogram, hcomputed⟩ := hread
    refine ⟨tokens, program, next, hscan, hprogram, ?_⟩
    obtain ⟨offences, hpairwise, hmem, hrejected, haccepted⟩ := bindingDepths_lexical hprogram
    by_cases hnil : offences = []
    · obtain ⟨depths, hdepths, -⟩ := haccepted hnil
      rw [hdepths] at hcomputed
      cases hcomputed
    · rw [hrejected hnil] at hcomputed
      have herrors := Except.error.inj hcomputed
      obtain ⟨⟨first, _⟩, rest, rfl, rfl, hrest⟩ := List.map_eq_cons_iff.1 herrors
      obtain ⟨⟨second, _⟩, rest', rfl, rfl, -⟩ := List.map_eq_cons_iff.1 hrest
      refine ⟨first, second, name, keyword, ?_, ?_, ?_⟩
      · exact (List.pairwise_cons.1 hpairwise).1 _ List.mem_cons_self
      · exact (hmem _ _).1 List.mem_cons_self
      · exact (hmem _ _).1 (List.mem_cons_of_mem _ List.mem_cons_self)

end Program

end Lox
