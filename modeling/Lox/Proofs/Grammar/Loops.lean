/-
# Programs without loops

The only construct that repeats itself is the loop. `for` loops are read as `while` loops, so a
program is without loops if no statement in its tree is one, wherever it stands. This can be seen
from the text: the keyword `while` or `for` stands in front of every loop
(`Program.loopFree_of_tokens`).
-/

import Lox.Proofs.Grammar.WellFormed
import Lox.Token.Scan

namespace Lox

mutual

/-- No statement within a statement is a loop, and neither is the statement itself. -/
def Stmt.LoopFree : Stmt → Prop
  | .block body | .function _ _ body => Stmt.AllLoopFree body
  | .ifThen _ whenTrue => whenTrue.LoopFree
  | .ifElse _ whenTrue whenFalse => whenTrue.LoopFree ∧ whenFalse.LoopFree
  | .expression _ | .print _ _ | .return _ _ | .var _ _ => True
  | .while _ _ => False

/-- None of some statements is a loop or has one within it. -/
def Stmt.AllLoopFree : List Stmt → Prop
  | [] => True
  | s :: ss => s.LoopFree ∧ Stmt.AllLoopFree ss

end

/-- No statement in some code is a loop. -/
def Code.LoopFree : Code → Prop
  | expression _ | arguments _ => True
  | statement s => s.LoopFree
  | body ss => Stmt.AllLoopFree ss

/-- A text has no loops: what it is read as, if it breaks no rule of the grammar, is free of
them. -/
def Program.LoopFree (source : String) : Prop :=
  ∀ tokens nextId program next, Token.scan source = .ok tokens →
    ofTokens tokens nextId = (.ok program, next) → Stmt.AllLoopFree program

/-! ## Parts -/

theorem Part.loopFree {place place' : Place} {code part : Code} (h : Part place code place' part)
    (hfree : code.LoopFree) : part.LoopFree := by
  cases h with
  | block | ifThenTrue | functionBody => exact hfree
  | ifElseTrue | firstStatement => exact hfree.1
  | ifElseFalse | otherStatements => exact hfree.2
  | whileBody | whileAgain => exact hfree.elim
  | _ => trivial

theorem Lies.loopFree {program : List Stmt} {place : Place} {code : Code}
    (h : Lies program place code) (hfree : Stmt.AllLoopFree program) : code.LoopFree := by
  have hall : ∀ at' : Place × Code, Relation.ReflTransGen
      (fun outer inner : Place × Code => Part outer.1 outer.2 inner.1 inner.2)
      (.top, .body program) at' → at'.2.LoopFree := by
    intro at' hreach
    induction hreach with
    | refl => exact hfree
    | tail _ hpart ih => exact hpart.loopFree ih
  exact hall (place, code) h

/-- A part is smaller than the code, unless a loop goes on as the loop it is. -/
theorem Part.sizeOf_lt {place place' : Place} {code part : Code} (h : Part place code place' part)
    (hfree : code.LoopFree) : sizeOf part < sizeOf code := by
  cases h with
  | whileAgain => exact hfree.elim
  | _ => simp <;> omega

/-! ## Texts -/

mutual

theorem Stmt.loopFree_of_unnumbered (s : Stmt) (h : s.unnumbered.LoopFree) : s.LoopFree := by
  cases s with
  | block body => exact Stmt.allLoopFree_of_unnumbered body h
  | function name parameters body => exact Stmt.allLoopFree_of_unnumbered body h
  | ifThen condition whenTrue => exact Stmt.loopFree_of_unnumbered whenTrue h
  | ifElse condition whenTrue whenFalse =>
    exact ⟨Stmt.loopFree_of_unnumbered whenTrue h.1, Stmt.loopFree_of_unnumbered whenFalse h.2⟩
  | «while» condition body => exact h
  | _ => trivial

theorem Stmt.allLoopFree_of_unnumbered (ss : List Stmt)
    (h : Stmt.AllLoopFree (Stmt.allUnnumbered ss)) : Stmt.AllLoopFree ss := by
  cases ss with
  | nil => trivial
  | cons s ss => exact ⟨Stmt.loopFree_of_unnumbered s h.1, Stmt.allLoopFree_of_unnumbered ss h.2⟩

end

/-- A token stands in front of a loop. -/
def Token.StartsLoop (token : Token) : Prop := token.kind = .while ∨ token.kind = .for

namespace Grammar

/-- What is derived from a symbol is free of loops. -/
def Symbol.LoopFree : (symbol : Symbol) → symbol.Tree → Prop
  | .expression _, _ | .optional, _ | .values, _ | .arguments, _ => True
  | .names, _ | .parameters, _ => True
  | .varDecl, s | .declaration, s | .statement _, s => s.LoopFree
  | .initializer, first => ∀ s ∈ first, s.LoopFree
  | .declarations, ss => Stmt.AllLoopFree ss

/-- What is derived from tokens of which none stands in front of a loop is free of loops. -/
theorem Derives.loopFree {symbol : Symbol} {ts : List Token} {tree : symbol.Tree}
    (h : Derives symbol ts tree) (hts : ∀ token ∈ ts, ¬ token.StartsLoop) :
    symbol.LoopFree tree := by
  induction h with
  | «while» hkeyword => exact absurd (.inl hkeyword) (hts _ List.mem_cons_self)
  | «for» hkeyword => exact absurd (.inr hkeyword) (hts _ List.mem_cons_self)
  | ifThen _ _ _ _ _ _ ihTrue =>
    simp only [List.forall_mem_cons, List.forall_mem_append] at hts
    exact ihTrue hts.2.2.2.2
  | ifElse _ _ _ _ _ _ _ _ ihTrue ihFalse =>
    simp only [List.forall_mem_cons, List.forall_mem_append] at hts
    exact ⟨ihTrue hts.2.2.2.2.1, ihFalse hts.2.2.2.2.2.2⟩
  | block _ _ _ ihBody =>
    simp only [List.forall_mem_cons, List.forall_mem_append] at hts
    exact ihBody hts.2.1
  | function _ _ _ _ _ _ _ _ _ ihBody =>
    simp only [List.forall_mem_cons, List.forall_mem_append] at hts
    exact ihBody hts.2.2.2.2.2.2.1
  | var _ _ ih => exact ih (List.forall_mem_cons.1 hts).2
  | statement _ ih => exact ih hts
  | moreDeclarations _ _ ih ihOthers =>
    obtain ⟨hts, hus⟩ := List.forall_mem_append.1 hts
    exact ⟨ih hts, ihOthers hus⟩
  | noInitializer =>
    intro s hs
    cases hs
  | variableInitializer _ _ ih =>
    rintro s ⟨⟩
    exact ih (List.forall_mem_cons.1 hts).2
  | expressionInitializer =>
    rintro s ⟨⟩
    trivial
  | _ => trivial

end Grammar

/-- A text in which no keyword stands for a loop has none. -/
theorem Program.loopFree_of_tokens {source : String}
    (h : ∀ tokens, Token.scan source = .ok tokens → ∀ token ∈ tokens, ¬ token.StartsLoop) :
    LoopFree source := by
  intro tokens nextId program next hscan hprogram
  apply Stmt.allLoopFree_of_unnumbered
  refine (derives_of_ofTokens hprogram).loopFree fun token htoken => h tokens hscan token ?_
  exact (List.takeWhile_sublist _).subset htoken

end Lox
