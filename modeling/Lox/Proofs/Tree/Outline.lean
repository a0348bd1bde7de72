/-
# Written trees read back

The written form of an expression consists of words and of constructs in parentheses, each behind a
head that names it. An outline is an expression seen in this way. Its text tells where it ends: a
word and a head end before the next space or closing parenthesis, except for a string in quotes,
which ends at its second quote. So a text is the written form of at most one outline, also when
more comes after it (`Outline.text_append_inj`).

The head of an assignment is the equals sign alone here; the variable is the first of its parts. It
is written the same.
-/

import Lox.Tree.Render
import Mathlib.Data.List.TakeWhile

namespace Lox

/-- An expression as it is written. -/
inductive Outline where
  /-- A word. -/
  | word (text : List Char)
  /-- A construct with its parts, in parentheses behind its head. -/
  | construct (head : List Char) (parts : List Outline)

namespace Outline

mutual

/-- The text of an outline. -/
def text : Outline → List Char
  | word text => text
  | construct head parts => '(' :: (head ++ (allText parts ++ [')']))

/-- The text of some outlines, each behind a space. -/
def allText : List Outline → List Char
  | [] => []
  | outline :: outlines => ' ' :: (outline.text ++ allText outlines)

end

/-- Characters among which there is no space and no closing parenthesis. -/
def Plain (text : List Char) : Prop := ∀ c ∈ text, c ≠ ' ' ∧ c ≠ ')'

instance (text : List Char) : Decidable (Plain text) :=
  decidable_of_iff (text.all fun c => c != ' ' && c != ')') (by simp [Plain])

/-- What can stand as a word: plain characters or a string in quotes. -/
inductive IsWord : List Char → Prop
  | plain {c : Char} {text : List Char} (hparen : c ≠ '(') (hquote : c ≠ '"')
      (h : Plain (c :: text)) : IsWord (c :: text)
  | quoted {text : List Char} (h : '"' ∉ text) : IsWord ('"' :: (text ++ ['"']))

mutual

/-- Each word of an outline is one, and each head consists of plain characters. -/
def Sound : Outline → Prop
  | word text => IsWord text
  | construct head parts => Plain head ∧ AllSound parts

/-- The same of some outlines. -/
def AllSound : List Outline → Prop
  | [] => True
  | outline :: outlines => outline.Sound ∧ AllSound outlines

end

/-! ## Where a text ends -/

/-- The text goes no further, or goes on with a space or a closing parenthesis. -/
def Stops (rest : List Char) : Prop := ∀ c ∈ rest.head?, c = ' ' ∨ c = ')'

theorem stops_allText (outlines : List Outline) (rest : List Char) :
    Stops (allText outlines ++ ')' :: rest) := by
  intro c hc
  cases outlines with
  | nil => exact .inr (Option.some.inj hc).symm
  | cons => exact .inl (Option.some.inj hc).symm

theorem plain_append_inj {first first' rest rest' : List Char} (h : Plain first)
    (h' : Plain first') (hrest : Stops rest) (hrest' : Stops rest')
    (heq : first ++ rest = first' ++ rest') : first = first' ∧ rest = rest' := by
  induction first generalizing first' with
  | nil =>
    cases first' with
    | nil => exact ⟨rfl, heq⟩
    | cons c first' =>
      obtain ⟨hspace, hparen⟩ := h' c List.mem_cons_self
      rw [List.nil_append] at heq
      rw [heq] at hrest
      exact (hrest c rfl).elim (absurd · hspace) (absurd · hparen)
  | cons c first ih =>
    obtain ⟨⟨hspace, hparen⟩, hfirst⟩ := List.forall_mem_cons.1 h
    cases first' with
    | nil =>
      rw [List.nil_append] at heq
      rw [← heq] at hrest'
      exact (hrest' c rfl).elim (absurd · hspace) (absurd · hparen)
    | cons c' first' =>
      rw [List.cons_append, List.cons_append, List.cons.injEq] at heq
      obtain ⟨rfl, heq⟩ := heq
      obtain ⟨rfl, rfl⟩ := ih hfirst (List.forall_mem_cons.1 h').2 heq
      exact ⟨rfl, rfl⟩

theorem quoted_append_inj {first first' rest rest' : List Char} (h : '"' ∉ first)
    (h' : '"' ∉ first') (heq : first ++ '"' :: rest = first' ++ '"' :: rest') :
    first = first' ∧ rest = rest' := by
  induction first generalizing first' with
  | nil =>
    cases first' with
    | nil => exact ⟨rfl, (List.cons.inj heq).2⟩
    | cons c first' => exact absurd (List.cons.inj heq).1 (List.ne_of_not_mem_cons h')
  | cons c first ih =>
    cases first' with
    | nil => exact absurd (List.cons.inj heq).1.symm (List.ne_of_not_mem_cons h)
    | cons c' first' =>
      rw [List.cons_append, List.cons_append, List.cons.injEq] at heq
      obtain ⟨rfl, heq⟩ := heq
      obtain ⟨rfl, rfl⟩ := ih (List.not_mem_of_not_mem_cons h)
        (List.not_mem_of_not_mem_cons h') heq
      exact ⟨rfl, rfl⟩

theorem IsWord.append_inj {first first' rest rest' : List Char} (h : IsWord first)
    (h' : IsWord first') (hrest : Stops rest) (hrest' : Stops rest')
    (heq : first ++ rest = first' ++ rest') : first = first' ∧ rest = rest' := by
  cases h with
  | plain _ hquote h =>
    cases h' with
    | plain _ _ h' => exact plain_append_inj h h' hrest hrest' heq
    | quoted _ => exact absurd (List.cons.inj heq).1 hquote
  | quoted h =>
    cases h' with
    | plain _ hquote _ => exact absurd (List.cons.inj heq).1.symm hquote
    | quoted h' =>
      rw [List.cons_append, List.cons_append, List.cons.injEq, List.append_assoc,
        List.append_assoc] at heq
      obtain ⟨rfl, hrest⟩ := quoted_append_inj h h' heq.2
      exact ⟨rfl, hrest⟩

/-- No word starts with a parenthesis, as a construct does. -/
theorem IsWord.append_ne {first rest construct : List Char} (h : IsWord first) :
    first ++ rest ≠ '(' :: construct := by
  intro heq
  cases h with
  | plain hparen => exact hparen (List.cons.inj heq).1
  | quoted => exact absurd (List.cons.inj heq).1 (by decide)

mutual

/-- The text of an outline tells the outline and where its text ends. -/
theorem text_append_inj {outline outline' : Outline} {rest rest' : List Char}
    (h : outline.Sound) (h' : outline'.Sound) (hrest : Stops rest) (hrest' : Stops rest')
    (heq : outline.text ++ rest = outline'.text ++ rest') :
    outline = outline' ∧ rest = rest' := by
  cases outline with
  | word first =>
    cases outline' with
    | word first' =>
      obtain ⟨rfl, hrest⟩ := IsWord.append_inj h h' hrest hrest' heq
      exact ⟨rfl, hrest⟩
    | construct head' parts' => exact absurd heq (IsWord.append_ne h)
  | construct head parts =>
    cases outline' with
    | word first' => exact absurd heq.symm (IsWord.append_ne h')
    | construct head' parts' =>
      simp only [text, List.cons_append, List.cons.injEq, List.append_assoc, true_and,
        List.nil_append] at heq
      obtain ⟨rfl, hparts⟩ := plain_append_inj h.1 h'.1 (stops_allText parts rest)
        (stops_allText parts' rest') heq
      obtain ⟨rfl, hrest⟩ := allText_append_inj h.2 h'.2 hparts
      exact ⟨rfl, hrest⟩

/-- The same of some outlines up to a closing parenthesis. -/
theorem allText_append_inj {outlines outlines' : List Outline} {rest rest' : List Char}
    (h : AllSound outlines) (h' : AllSound outlines')
    (heq : allText outlines ++ ')' :: rest = allText outlines' ++ ')' :: rest') :
    outlines = outlines' ∧ rest = rest' := by
  cases outlines with
  | nil =>
    cases outlines' with
    | nil => exact ⟨rfl, (List.cons.inj heq).2⟩
    | cons => exact absurd (List.cons.inj heq).1 (by decide)
  | cons outline outlines =>
    cases outlines' with
    | nil => exact absurd (List.cons.inj heq).1 (by decide)
    | cons outline' outlines' =>
      simp only [allText, List.cons_append, List.cons.injEq, List.append_assoc, true_and] at heq
      obtain ⟨rfl, hothers⟩ := text_append_inj h.1 h'.1 (stops_allText outlines rest)
        (stops_allText outlines' rest') heq
      obtain ⟨rfl, hrest⟩ := allText_append_inj h.2 h'.2 hothers
      exact ⟨rfl, hrest⟩

end

/-- An outline can be told from its text. -/
theorem text_inj {outline outline' : Outline} (h : outline.Sound) (h' : outline'.Sound)
    (heq : outline.text = outline'.text) : outline = outline' := by
  have hstops : Stops [] := fun c hc => by cases hc
  exact (text_append_inj h h' hstops hstops (congrArg (· ++ []) heq)).1

end Outline

/-! ## The outline of an expression -/

mutual

/-- An expression as it is written. -/
def Expr.outline : Expr → Outline
  | .literal value => .word value.render.toList
  | .read _ name => .word name.lexeme.toList
  | .assign _ name value => .construct "=".toList [.word name.lexeme.toList, value.outline]
  | .unary operator operand => .construct operator.lexeme.toList [operand.outline]
  | .binary left operator right | .logical left operator right =>
    .construct operator.lexeme.toList [left.outline, right.outline]
  | .conditional condition whenTrue whenFalse =>
    .construct "?:".toList [condition.outline, whenTrue.outline, whenFalse.outline]
  | .call callee _ arguments =>
    .construct "call".toList (callee.outline :: Expr.allOutlines arguments)
  | .group inner => .construct "group".toList [inner.outline]
  | .host _ code => .construct "host".toList [code.outline]

/-- The outlines of some expressions. -/
def Expr.allOutlines : List Expr → List Outline
  | [] => []
  | e :: es => e.outline :: Expr.allOutlines es

end

mutual

theorem Expr.toList_renderOnto (out : String) (e : Expr) :
    (e.renderOnto out).toList = out.toList ++ e.outline.text := by
  cases e <;>
    simp [Expr.renderOnto, Expr.outline, Outline.text, Outline.allText, Expr.toList_renderOnto,
      Expr.toList_renderAllOnto]

theorem Expr.toList_renderAllOnto (out : String) (es : List Expr) :
    (Expr.renderAllOnto out es).toList = out.toList ++ Outline.allText (Expr.allOutlines es) := by
  cases es <;>
    simp [Expr.renderAllOnto, Expr.allOutlines, Outline.allText, Expr.toList_renderOnto,
      Expr.toList_renderAllOnto]

end

/-- The written form of an expression is the text of its outline. -/
theorem Expr.toList_render (e : Expr) : e.render.toList = e.outline.text := by
  rw [Expr.render, Expr.toList_renderOnto]
  rfl

end Lox
