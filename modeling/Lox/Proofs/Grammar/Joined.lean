/-
# Programs joined by line breaks

No declaration goes on behind the end of a program: what follows an accepted program starts with a
new declaration, even where the program ends in an `if` that is open to an `else`, since no
declaration starts with `else`. So texts that are programs on their own are one program when they
are joined by line breaks, and its statements are those of the texts, one after another
(`Program.exists_ofTokens_intercalate`). The numbers that its accesses carry are others, and its
tokens are on other lines.
-/

import Lox.Proofs.Grammar.Alike
import Lox.Proofs.Grammar.Completeness
import Lox.Proofs.Token.Joined

namespace Lox

variable {lines : Nat → Nat → Prop}

theorem Grammar.derives_append {ts us : List Token} {ss ss' : List Stmt}
    (h : Derives .declarations ts ss) (h' : Derives .declarations us ss') :
    Derives .declarations (ts ++ us) (ss ++ ss') := by
  induction ss generalizing ts with
  | nil =>
    cases h
    exact h'
  | cons s ss ih =>
    cases h with
    | moreDeclarations h hothers =>
      rw [List.append_assoc]
      exact .moreDeclarations h (ih hothers)

theorem Grammar.derives_flatten {pieces : List (List Token)} {trees : List (List Stmt)}
    (h : List.Forall₂ (Derives .declarations) pieces trees) :
    Derives .declarations pieces.flatten trees.flatten := by
  induction h with
  | nil => exact .noDeclarations
  | cons h _ ih => exact derives_append h ih

theorem Stmt.allUnnumbered_eq_map (ss : List Stmt) :
    Stmt.allUnnumbered ss = ss.map Stmt.unnumbered := by
  induction ss with
  | nil => rfl
  | cons s ss ih => exact congrArg (s.unnumbered :: ·) ih

/-- Where a tree without numbers falls into parts, so does the tree with numbers. -/
theorem Stmt.exists_parts {ss : List Stmt} {trees : List (List Stmt)}
    (h : Stmt.allUnnumbered ss = trees.flatten) :
    ∃ parts : List (List Stmt), ss = parts.flatten ∧ trees = parts.map Stmt.allUnnumbered := by
  rw [Stmt.allUnnumbered_eq_map] at h
  induction trees generalizing ss with
  | nil =>
    obtain rfl := List.map_eq_nil_iff.1 h
    exact ⟨[], rfl, rfl⟩
  | cons tree trees ih =>
    obtain ⟨part, rest, rfl, rfl, hrest⟩ := List.map_eq_append_iff.1 h
    obtain ⟨parts, rfl, rfl⟩ := ih hrest
    exact ⟨part :: parts, rfl, by rw [List.map_cons, Stmt.allUnnumbered_eq_map]⟩

namespace Program

/-- However its accesses are numbered, the program of a text is alike to some statements. -/
def Says (lines : Nat → Nat → Prop) (source : String) (ss : List Stmt) : Prop :=
  ∀ tokens nextId program next, Token.scan source = .ok tokens →
    ofTokens tokens nextId = (.ok program, next) → Stmt.AllAlike AnyIds lines program ss

/-- A text is a program of the grammar. -/
def Readable (source : String) : Prop :=
  ∃ tokens, Token.scan source = .ok tokens ∧
    ∃ nextId program next, ofTokens tokens nextId = (.ok program, next)

theorem Readable.exists_scan {source : String} (h : Readable source) :
    ∃ tokens, Token.scan source = .ok tokens := by
  obtain ⟨tokens, htokens, -⟩ := h
  exact ⟨tokens, htokens⟩

variable {source : String} {sources : List String} {piece : List Token} {pieces : List (List Token)}

/-- The grammar derives the tokens of a readable text wherever they stand. -/
theorem exists_derives_of_readable (h : Readable source) (hspells : Token.Spells lines source piece)
    (hfirst : lines 1 1) (hpiece : ∀ token ∈ piece, token.kind ≠ .endOfInput) :
    ∃ tree, Grammar.Derives .declarations piece tree := by
  obtain ⟨tokens, hscan, nextId, program, next, hprogram⟩ := h
  obtain ⟨last, htokens⟩ := hspells tokens hscan
  have hreads := ofTokens_alike htokens hfirst nextId nextId
  rw [hprogram] at hreads
  generalize hread : ofTokens (piece ++ [Token.endOfInput last]) nextId = read at hreads
  obtain ⟨result, next'⟩ := read
  cases hreads with
  | ok _ =>
    have hderives := derives_of_ofTokens hread
    rw [takeWhile_endOfInput hpiece] at hderives
    exact ⟨_, hderives⟩

theorem exists_derives_pieces (hreadable : ∀ source ∈ sources, Readable source)
    (hspells : List.Forall₂ (Token.Spells lines) sources pieces) (hfirst : lines 1 1)
    (hpieces : ∀ token ∈ pieces.flatten, token.kind ≠ .endOfInput) :
    ∃ trees, List.Forall₂ (Grammar.Derives .declarations) pieces trees := by
  induction hspells with
  | nil => exact ⟨[], .nil⟩
  | cons hspells _ ih =>
    obtain ⟨hsource, hsources⟩ := List.forall_mem_cons.1 hreadable
    rw [List.flatten_cons, List.forall_mem_append] at hpieces
    obtain ⟨tree, hderives⟩ := exists_derives_of_readable hsource hspells hfirst hpieces.1
    obtain ⟨trees, hothers⟩ := ih hsources hpieces.2
    exact ⟨tree :: trees, .cons hderives hothers⟩

/-- A text whose tokens stand somewhere says what they are read as there. -/
theorem says_of_derives {part : List Stmt}
    (h : Grammar.Derives .declarations piece (Stmt.allUnnumbered part))
    (hspells : Token.Spells lines source piece) (hfirst : lines 1 1) : Says lines source part := by
  intro tokens nextId program next hscan hprogram
  obtain ⟨last, htokens⟩ := hspells tokens hscan
  obtain ⟨moved, next', hmoved, hunnumbered⟩ := exists_ofTokens_append h last nextId
  have hreads := ofTokens_alike htokens hfirst nextId nextId
  rw [hprogram, hmoved] at hreads
  cases hreads with
  | ok halike =>
    have hpart := halike.unnumbered
    rw [hunnumbered] at hpart
    exact hpart.of_unnumbered

theorem says_of_derives_pieces {parts : List (List Stmt)}
    (h : List.Forall₂ (Grammar.Derives .declarations) pieces (parts.map Stmt.allUnnumbered))
    (hspells : List.Forall₂ (Token.Spells lines) sources pieces) (hfirst : lines 1 1) :
    List.Forall₂ (Says lines) sources parts := by
  rw [List.forall₂_map_right_iff] at h
  induction hspells generalizing parts with
  | nil =>
    cases h
    exact .nil
  | cons hspells _ ih =>
    cases h with
    | cons h hothers => exact .cons (says_of_derives h hspells hfirst) (ih hothers)

/-- Texts that are programs on their own are one program when they are joined by line breaks. Its
statements are those of the texts, and of any others that have the same tokens but for lines. -/
theorem exists_ofTokens_intercalate (hreadable : ∀ source ∈ sources, Readable source)
    (nextId : AccessId) :
    ∃ tokens parts next, Token.scan ("\n".intercalate sources) = .ok tokens ∧
      ofTokens tokens nextId = (.ok parts.flatten, next) ∧
        ∀ {lines : Nat → Nat → Prop} {others : List String}, lines 1 1 →
          List.Forall₂ (Token.Spells lines) others (Token.pieces [] sources) →
            List.Forall₂ (Says lines) others parts := by
  have hscan := Token.scan_intercalate fun source hsource => (hreadable source hsource).exists_scan
  have hpieces : ∀ token ∈ (Token.pieces [] sources).flatten, token.kind ≠ .endOfInput :=
    fun token => Token.kind_ne_endOfInput_of_mem_pieces
  have hspells := @Token.spells_pieces (fun _ _ => True) sources [] fun _ _ _ => trivial
  obtain ⟨trees, htrees⟩ := exists_derives_pieces hreadable hspells trivial hpieces
  obtain ⟨program, next, hprogram, hunnumbered⟩ := exists_ofTokens_append
    (Grammar.derives_flatten htrees) (lineCount ("\n".intercalate sources)) nextId
  obtain ⟨parts, rfl, rfl⟩ := Stmt.exists_parts hunnumbered
  exact ⟨_, parts, next, hscan, hprogram,
    fun hfirst hothers => says_of_derives_pieces htrees hothers hfirst⟩

end Program

end Lox
