/-
# Different expressions are written differently

Two expressions of programs have the same written form exactly if they differ at most in the numbers
of their accesses and in the lines of their tokens (`Expr.render_eq_iff`). A construct is told by
its head and by how many parts there are behind it, and so one operator can stand before one operand
and between two. The text of a name, an operator or a constant tells which token it is, for it has
the form of that token alone.

Strings are written without the backslashes that a program has to put before quotes. So a quote
within a string would look like its end, and the programs are supposed to have no such strings.
-/

import Lox.Proofs.Grammar.Legible
import Lox.Proofs.Tree.Alike
import Lox.Proofs.Tree.Outline

namespace Lox

/-- All lines stand for each other. -/
def AnyLines (_ _ : Nat) : Prop := True

/-! ## Tokens told from their text -/

/-- The reserved words. -/
def Token.Kind.reserved : List (String × Token.Kind) :=
  [("and", .and), ("class", .class), ("else", .else), ("false", .false), ("for", .for),
    ("fun", .fun), ("host", .host), ("if", .if), ("nil", .nil), ("or", .or), ("print", .print),
    ("return", .return), ("super", .super), ("this", .this), ("true", .true), ("var", .var),
    ("while", .while)]

/-- Every word is a name or reserved. -/
theorem Token.Kind.mem_reserved (word : String) :
    ofWord word = .identifier ∨ (word, ofWord word) ∈ reserved := by
  unfold ofWord
  split
  case h_18 => exact .inl rfl
  all_goals exact .inr (by decide)

namespace Segment

/-- The texts that stand for one token each, without a value. -/
def fixed : List (List Char × Token.Kind) :=
  operators ++ Token.Kind.reserved.map fun (word, kind) => (word.toList, kind)

/-- A token that is no name and has no value is written in one of the ways that are fixed. -/
theorem Form.mem_fixed {text : List Char} {kind : Token.Kind} {literal : Option Token.Literal}
    (h : Form text (.token kind literal)) (hkind : kind ∉ [.identifier, .string, .number]) :
    (text, kind) ∈ fixed := by
  generalize hreading : Reading.token kind literal = reading at h
  cases h with
  | string =>
    cases hreading
    exact absurd (by decide) hkind
  | number =>
    unfold numeral at hreading
    split at hreading <;> cases hreading
    exact absurd (by decide) hkind
  | @word c part =>
    cases hreading
    have hreserved := (Token.Kind.mem_reserved (String.ofList (c :: part))).resolve_left
      fun hname => hkind (List.mem_cons.2 (.inl hname))
    exact List.mem_append_right _ (List.mem_map.2
      ⟨_, hreserved, congrArg (·, _) String.toList_ofList⟩)
  | operator hmem =>
    cases hreading
    exact List.mem_append_left _ hmem
  | _ => cases hreading

theorem isNamePart_of_mem {c : Char} {part : List Char} (hstart : Character.isNameStart c = true)
    (hpart : ∀ d ∈ part, Character.isNamePart d = true) :
    ∀ d ∈ c :: part, Character.isNamePart d = true := by
  refine List.forall_mem_cons.2 ⟨?_, hpart⟩
  rw [Character.isNamePart, hstart, Bool.true_or]

/-- A word has the form of one, and consists of characters of a name. -/
theorem form_word (c : Char) (part : List Char) (hstart : Character.isNameStart c = true)
    (hpart : part.all Character.isNamePart = true) :
    Form (c :: part) (.token (.ofWord (String.ofList (c :: part))) none) ∧
      ∀ d ∈ c :: part, Character.isNamePart d = true :=
  have hpart := List.all_eq_true.1 hpart
  ⟨.word hstart hpart, isNamePart_of_mem hstart hpart⟩

/-- A name is written with the characters of a name. -/
theorem Form.name {text : List Char} {literal : Option Token.Literal}
    (h : Form text (.token .identifier literal)) :
    text ≠ [] ∧ ∀ c ∈ text, Character.isNamePart c = true := by
  generalize hreading : Reading.token .identifier literal = reading at h
  cases h with
  | number =>
    unfold numeral at hreading
    split at hreading <;> cases hreading
  | word hstart hpart => exact ⟨List.cons_ne_nil _ _, isNamePart_of_mem hstart hpart⟩
  | operator hmem =>
    cases hreading
    exact absurd rfl ((by decide : ∀ operator ∈ operators, operator.2 ≠ .identifier) _ hmem)
  | _ => cases hreading

end Segment

theorem Token.Legible.alike {token token' : Token} (h : token.Legible) (h' : token'.Legible)
    (htext : token.lexeme.toList = token'.lexeme.toList) : token.Alike AnyLines token' := by
  have hform := h.form
  rw [htext] at hform
  obtain ⟨hkind, hliteral⟩ := Segment.Reading.token.inj (hform.unique h'.form)
  exact ⟨hkind, String.toList_inj.1 htext, hliteral, trivial⟩

/-- Two tokens of a kind that is written in one way only. -/
theorem Token.LegibleAs.alike {kind : Token.Kind} (text : List Char) {token token' : Token}
    (h : token.LegibleAs [kind]) (h' : token'.LegibleAs [kind])
    (hkind : kind ∉ [.identifier, .string, .number])
    (hfixed : ∀ entry ∈ Segment.fixed, entry.2 = kind → entry.1 = text) :
    token.Alike AnyLines token' := by
  have htext {token : Token} (h : token.LegibleAs [kind]) : token.lexeme.toList = text := by
    have heq := List.mem_singleton.1 h.1
    have hform := h.2.form
    rw [heq] at hform
    exact hfixed _ (hform.mem_fixed hkind) rfl
  exact h.2.alike h'.2 ((htext h).trans (htext h').symm)

/-! ## Constants told from their text -/

/-- What a constant is read as where it is written. -/
def Constant.reading : Constant → Segment.Reading
  | .nil => .token .nil none
  | .bool value => .token (if value then .true else .false) none
  | .number n => .token .number (some (.number n))
  | .string text => .token .string (some (.string text))

theorem Constant.reading_inj {constant constant' : Constant}
    (h : constant.reading = constant'.reading) : constant = constant' := by
  cases constant with
  | bool value => cases value <;> cases constant' <;> grind [reading]
  | _ => cases constant' <;> grind [reading]

/-- A constant that is no string is written as what it is, and with the characters of a name. -/
theorem Constant.form_render {constant : Constant} (h : constant.Legible)
    (hstring : ∀ text, constant ≠ .string text) :
    Segment.Form constant.render.toList constant.reading ∧
      ∀ c ∈ constant.render.toList, Character.isNamePart c = true := by
  cases constant with
  | nil => exact Segment.form_word 'n' ['i', 'l'] rfl rfl
  | bool value =>
    cases value with
    | false => exact Segment.form_word 'f' ['a', 'l', 's', 'e'] rfl rfl
    | true => exact Segment.form_word 't' ['r', 'u', 'e'] rfl rfl
  | number n =>
    obtain ⟨value, hle, rfl⟩ := h
    have htext : (Constant.number (Int64.ofNat value)).render.toList = Nat.toDigits 10 value := by
      have hrender : (Constant.number (Int64.ofNat value)).render =
          toString (Int64.ofNat value).toInt := rfl
      rw [hrender, Segment.toInt_ofNat hle]
      exact Nat.toList_repr
    rw [htext]
    refine ⟨Segment.form_toDigits hle, fun c hc => ?_⟩
    rw [Character.isNamePart, Segment.isDigit_of_mem_toDigits hc, Bool.or_true]
  | string text => exact absurd rfl (hstring text)

theorem Constant.toList_render_string (text : String) :
    (Constant.string text).render.toList = '"' :: (text.toList ++ ['"']) := by
  rw [render, String.toList_append, String.toList_append]
  rfl

/-- A constant that is written with the characters of a name is no string. -/
theorem Constant.not_string {constant : Constant}
    (h : ∀ c ∈ constant.render.toList, Character.isNamePart c = true) (text : String) :
    constant ≠ .string text := by
  rintro rfl
  rw [toList_render_string] at h
  exact absurd (h '"' List.mem_cons_self) (by decide)

theorem Constant.eq_of_render {constant constant' : Constant} (h : constant.Legible)
    (h' : constant'.Legible) (htext : constant.render.toList = constant'.render.toList) :
    constant = constant' := by
  by_cases hstring : ∃ text, constant = .string text
  · obtain ⟨text, rfl⟩ := hstring
    by_cases hstring' : ∃ text, constant' = .string text
    · obtain ⟨text', rfl⟩ := hstring'
      rw [toList_render_string, toList_render_string, List.cons.injEq] at htext
      exact congrArg _ (String.toList_inj.1 (List.append_cancel_right htext.2))
    · have hname := (form_render h' (not_exists.1 hstring')).2
      rw [← htext] at hname
      exact absurd rfl (not_string hname text)
  · obtain ⟨hform, hname⟩ := form_render h (not_exists.1 hstring)
    rw [htext] at hform hname
    exact reading_inj (hform.unique (form_render h' (not_string hname)).1)

/-- No constant is written as a name is. -/
theorem Constant.render_ne_name {constant : Constant} {name : Token} (h : constant.Legible)
    (hname : name.LegibleAs [.identifier]) : constant.render.toList ≠ name.lexeme.toList := by
  intro htext
  have hkind := List.mem_singleton.1 hname.1
  have hform := hname.2.form
  rw [hkind] at hform
  have hpart := hform.name.2
  rw [← htext] at hform hpart
  have hreading := hform.unique (form_render h (not_string hpart)).1
  cases constant with
  | bool value => cases value <;> cases hreading
  | _ => cases hreading

/-! ## Words and heads -/

namespace Outline

theorem isWord_of_name {text : List Char} (hne : text ≠ [])
    (h : ∀ c ∈ text, Character.isNamePart c = true) : IsWord text := by
  have hother {c d : Char} (hc : Character.isNamePart c = true)
      (hd : Character.isNamePart d = false) : c ≠ d := fun heq => by
    rw [heq, hd] at hc
    cases hc
  cases text with
  | nil => exact absurd rfl hne
  | cons c text =>
    have hc := h c List.mem_cons_self
    exact .plain (hother hc (by decide)) (hother hc (by decide)) fun d hd =>
      ⟨hother (h d hd) (by decide), hother (h d hd) (by decide)⟩

end Outline

theorem Token.LegibleAs.isWord {name : Token} (h : name.LegibleAs [.identifier]) :
    Outline.IsWord name.lexeme.toList := by
  have hform := h.2.form
  rw [List.mem_singleton.1 h.1] at hform
  exact Outline.isWord_of_name hform.name.1 hform.name.2

theorem Constant.isWord {constant : Constant} (h : constant.Legible) :
    Outline.IsWord constant.render.toList := by
  by_cases hstring : ∃ text, constant = .string text
  · obtain ⟨text, rfl⟩ := hstring
    rw [toList_render_string]
    exact .quoted h
  · obtain ⟨hform, hname⟩ := form_render h (not_exists.1 hstring)
    exact Outline.isWord_of_name hform.ne_nil hname

/-- The constructs of expressions, where names and constants are words. -/
inductive Construct where
  | word | assign | unary | binary | logical | conditional | call | group | host
  deriving DecidableEq

/-- What an expression is. -/
def Expr.sort : Expr → Construct
  | .literal _ | .read _ _ => .word
  | .assign _ _ _ => .assign
  | .unary _ _ => .unary
  | .binary _ _ _ => .binary
  | .logical _ _ _ => .logical
  | .conditional _ _ _ => .conditional
  | .call _ _ _ => .call
  | .group _ => .group
  | .host _ _ => .host

/-- Which construct a head with some parts behind it stands for. -/
def Construct.ofHead (head : List Char) (parts : Nat) : Construct :=
  if head = "=".toList then .assign
  else if head = "?:".toList then .conditional
  else if head = "call".toList then .call
  else if head = "group".toList then .group
  else if head = "host".toList then .host
  else if parts = 1 then .unary
  else if head ∈ ["and".toList, "or".toList, "&&".toList, "||".toList] then .logical
  else .binary

/-- Which construct an outline is one of. -/
def Outline.sort : Outline → Construct
  | word _ => .word
  | construct head parts => .ofHead head parts.length

/-- The operators that stand at the head of a construct. -/
def Construct.operators : Construct → List Token.Kind
  | unary => [.bang, .minus]
  | binary => binaryOperators
  | logical => [.and, .or]
  | _ => []

/-- How many operands such an operator has behind it. -/
def Construct.operands : Construct → Nat
  | unary => 1
  | _ => 2

/-- An operator tells the construct, by the number of its operands, and it is written in plain
characters. -/
theorem Token.LegibleAs.head (sort : Construct) {operator : Token}
    (h : operator.LegibleAs sort.operators) :
    Construct.ofHead operator.lexeme.toList sort.operands = sort ∧
      Outline.Plain operator.lexeme.toList := by
  have hkinds : ∀ kind ∈ sort.operators, kind ∉ [.identifier, .string, .number] := by
    cases sort <;> decide
  have hfixed : ∀ entry ∈ Segment.fixed, entry.2 ∈ sort.operators →
      Construct.ofHead entry.1 sort.operands = sort ∧ Outline.Plain entry.1 := by
    cases sort <;> decide
  exact hfixed _ (h.2.form.mem_fixed (hkinds _ h.1)) h.1

/-- What an expression is shows in its outline. -/
theorem Expr.sort_outline {e : Expr} (h : e.Legible) : e.outline.sort = e.sort := by
  cases e with
  | literal | read | assign | conditional | call | group | host => rfl
  | unary operator operand => exact (Token.LegibleAs.head .unary h.1).1
  | binary left operator right => exact (Token.LegibleAs.head .binary h.2.1).1
  | logical left operator right => exact (Token.LegibleAs.head .logical h.2.1).1

mutual

theorem Expr.sound_outline {e : Expr} (h : e.Legible) : e.outline.Sound := by
  cases e with
  | literal value => exact value.isWord h
  | read id name => exact Token.LegibleAs.isWord h
  | assign id name value =>
    exact ⟨by decide, h.1.isWord, Expr.sound_outline h.2, trivial⟩
  | unary operator operand =>
    exact ⟨(Token.LegibleAs.head .unary h.1).2, Expr.sound_outline h.2, trivial⟩
  | binary left operator right =>
    exact ⟨(Token.LegibleAs.head .binary h.2.1).2, Expr.sound_outline h.1,
      Expr.sound_outline h.2.2, trivial⟩
  | logical left operator right =>
    exact ⟨(Token.LegibleAs.head .logical h.2.1).2, Expr.sound_outline h.1,
      Expr.sound_outline h.2.2, trivial⟩
  | conditional condition whenTrue whenFalse =>
    exact ⟨by decide, Expr.sound_outline h.1, Expr.sound_outline h.2.1,
      Expr.sound_outline h.2.2, trivial⟩
  | call callee paren arguments =>
    exact ⟨by decide, Expr.sound_outline h.1, Expr.allSound_outlines h.2.2⟩
  | group inner => exact ⟨by decide, Expr.sound_outline h, trivial⟩
  | host keyword code => exact ⟨by decide, Expr.sound_outline h.2, trivial⟩

theorem Expr.allSound_outlines {es : List Expr} (h : Expr.AllLegible es) :
    Outline.AllSound (Expr.allOutlines es) := by
  cases es with
  | nil => trivial
  | cons e es => exact ⟨Expr.sound_outline h.1, Expr.allSound_outlines h.2⟩

end

/-! ## Expressions told from their outlines -/

theorem Outline.construct_cons_inj {head head' : List Char} {part part' : Outline}
    {parts parts' : List Outline}
    (heq : construct head (part :: parts) = construct head' (part' :: parts')) :
    head = head' ∧ part = part' ∧ parts = parts' := by
  obtain ⟨hhead, hparts⟩ := construct.inj heq
  exact ⟨hhead, List.cons.inj hparts⟩

mutual

theorem Expr.alike_of_outline {e e' : Expr} (h : e.Legible) (h' : e'.Legible)
    (heq : e.outline = e'.outline) : e.Alike AnyIds AnyLines e' := by
  have hsort : e.sort = e'.sort := by
    rw [← Expr.sort_outline h, heq, Expr.sort_outline h']
  cases e with
  | literal value =>
    cases e' with
    | literal value' =>
      obtain rfl := Constant.eq_of_render h h' (Outline.word.inj heq)
      exact .literal
    | read id' name' => exact absurd (Outline.word.inj heq) (Constant.render_ne_name h h')
    | _ => cases hsort
  | read id name =>
    cases e' with
    | literal value' =>
      exact absurd (Outline.word.inj heq).symm (Constant.render_ne_name h' h)
    | read id' name' => exact .read trivial (h.2.alike h'.2 (Outline.word.inj heq))
    | _ => cases hsort
  | assign id name value =>
    cases e' with
    | assign id' name' value' =>
      obtain ⟨-, hname, hparts⟩ := Outline.construct_cons_inj heq
      exact .assign trivial (h.1.2.alike h'.1.2 (Outline.word.inj hname))
        (Expr.alike_of_outline h.2 h'.2 (List.cons.inj hparts).1)
    | _ => cases hsort
  | unary operator operand =>
    cases e' with
    | unary operator' operand' =>
      obtain ⟨hhead, hoperand, -⟩ := Outline.construct_cons_inj heq
      exact .unary (h.1.2.alike h'.1.2 hhead) (Expr.alike_of_outline h.2 h'.2 hoperand)
    | _ => cases hsort
  | binary left operator right =>
    cases e' with
    | binary left' operator' right' =>
      obtain ⟨hhead, hleft, hparts⟩ := Outline.construct_cons_inj heq
      exact .binary (Expr.alike_of_outline h.1 h'.1 hleft) (h.2.1.2.alike h'.2.1.2 hhead)
        (Expr.alike_of_outline h.2.2 h'.2.2 (List.cons.inj hparts).1)
    | _ => cases hsort
  | logical left operator right =>
    cases e' with
    | logical left' operator' right' =>
      obtain ⟨hhead, hleft, hparts⟩ := Outline.construct_cons_inj heq
      exact .logical (Expr.alike_of_outline h.1 h'.1 hleft) (h.2.1.2.alike h'.2.1.2 hhead)
        (Expr.alike_of_outline h.2.2 h'.2.2 (List.cons.inj hparts).1)
    | _ => cases hsort
  | conditional condition whenTrue whenFalse =>
    cases e' with
    | conditional condition' whenTrue' whenFalse' =>
      obtain ⟨-, hcondition, hparts⟩ := Outline.construct_cons_inj heq
      obtain ⟨htrue, hparts⟩ := List.cons.inj hparts
      exact .conditional (Expr.alike_of_outline h.1 h'.1 hcondition)
        (Expr.alike_of_outline h.2.1 h'.2.1 htrue)
        (Expr.alike_of_outline h.2.2 h'.2.2 (List.cons.inj hparts).1)
    | _ => cases hsort
  | call callee paren arguments =>
    cases e' with
    | call callee' paren' arguments' =>
      obtain ⟨-, hcallee, harguments⟩ := Outline.construct_cons_inj heq
      have hparen := Token.LegibleAs.alike [')'] h.2.1 h'.2.1 (by decide) (by decide)
      exact .call (Expr.alike_of_outline h.1 h'.1 hcallee) hparen
        (Expr.allAlike_of_outlines h.2.2 h'.2.2 harguments)
    | _ => cases hsort
  | group inner =>
    cases e' with
    | group inner' =>
      obtain ⟨-, hinner, -⟩ := Outline.construct_cons_inj heq
      exact .group (Expr.alike_of_outline h h' hinner)
    | _ => cases hsort
  | host keyword code =>
    cases e' with
    | host keyword' code' =>
      obtain ⟨-, hcode, -⟩ := Outline.construct_cons_inj heq
      have hkeyword := Token.LegibleAs.alike "host".toList h.1 h'.1 (by decide) (by decide)
      exact .host hkeyword (Expr.alike_of_outline h.2 h'.2 hcode)
    | _ => cases hsort

theorem Expr.allAlike_of_outlines {es es' : List Expr} (h : Expr.AllLegible es)
    (h' : Expr.AllLegible es') (heq : Expr.allOutlines es = Expr.allOutlines es') :
    Expr.AllAlike AnyIds AnyLines es es' := by
  cases es with
  | nil =>
    cases es' with
    | nil => exact .nil
    | cons => cases heq
  | cons e es =>
    cases es' with
    | nil => cases heq
    | cons e' es' =>
      obtain ⟨hfirst, hothers⟩ := List.cons.inj heq
      exact .cons (Expr.alike_of_outline h.1 h'.1 hfirst)
        (Expr.allAlike_of_outlines h.2 h'.2 hothers)

end

mutual

/-- Numbers of accesses and lines of tokens do not show in an outline. -/
theorem Expr.Alike.outline_eq {ids : AccessId → AccessId → Prop} {lines : Nat → Nat → Prop}
    {e e' : Expr} (h : e.Alike ids lines e') : e.outline = e'.outline := by
  have hparts {operator operator' : Token} {parts parts' : List Outline}
      (hoperator : operator.Alike lines operator') (heq : parts = parts') :
      Outline.construct operator.lexeme.toList parts =
        .construct operator'.lexeme.toList parts' := by
    rw [hoperator.lexeme, heq]
  cases e with
  | literal value =>
    cases h
    rfl
  | read id name =>
    cases h with
    | read _ hname => exact congrArg (fun text : String => Outline.word text.toList) hname.lexeme
  | assign id name value =>
    cases h with
    | assign _ hname hvalue =>
      rw [Expr.outline, Expr.outline, hname.lexeme, hvalue.outline_eq]
  | unary operator operand =>
    cases h with
    | unary hoperator hoperand => exact hparts hoperator (by rw [hoperand.outline_eq])
  | binary left operator right =>
    cases h with
    | binary hleft hoperator hright =>
      exact hparts hoperator (by rw [hleft.outline_eq, hright.outline_eq])
  | logical left operator right =>
    cases h with
    | logical hleft hoperator hright =>
      exact hparts hoperator (by rw [hleft.outline_eq, hright.outline_eq])
  | conditional condition whenTrue whenFalse =>
    cases h with
    | conditional hcondition htrue hfalse =>
      rw [Expr.outline, Expr.outline, hcondition.outline_eq, htrue.outline_eq, hfalse.outline_eq]
  | call callee paren arguments =>
    cases h with
    | call hcallee _ harguments =>
      rw [Expr.outline, Expr.outline, hcallee.outline_eq, harguments.outlines_eq]
  | group inner =>
    cases h with
    | group hinner => rw [Expr.outline, Expr.outline, hinner.outline_eq]
  | host keyword code =>
    cases h with
    | host _ hcode => rw [Expr.outline, Expr.outline, hcode.outline_eq]

theorem Expr.AllAlike.outlines_eq {ids : AccessId → AccessId → Prop} {lines : Nat → Nat → Prop}
    {es es' : List Expr} (h : Expr.AllAlike ids lines es es') :
    Expr.allOutlines es = Expr.allOutlines es' := by
  cases es with
  | nil =>
    cases h
    rfl
  | cons e es =>
    cases h with
    | cons h hs => rw [Expr.allOutlines, Expr.allOutlines, h.outline_eq, hs.outlines_eq]

end

/-! ## Main result -/

namespace Expr

/-- An expression is part of the program that a text is read as. -/
def StandsIn (source : String) (e : Expr) : Prop :=
  ∃ tokens nextId program next place, Token.scan source = .ok tokens ∧
    Program.ofTokens tokens nextId = (.ok program, next) ∧ Lies program place (.expression e)

theorem StandsIn.legible {source : String} {e : Expr} (h : e.StandsIn source)
    (hquotes : Program.QuoteFree source) : e.Legible := by
  obtain ⟨tokens, nextId, program, next, place, hscan, hprogram, hlies⟩ := h
  exact hlies.legible (Program.legible hquotes hscan hprogram)

/-- Expressions of programs without quotes in their strings are written alike exactly if they are
the same, apart from the numbers of their accesses and the lines of their tokens. -/
theorem render_eq_iff {source source' : String} {e e' : Expr} (h : e.StandsIn source)
    (hquotes : Program.QuoteFree source) (h' : e'.StandsIn source')
    (hquotes' : Program.QuoteFree source') :
    e.render = e'.render ↔ e.Alike AnyIds AnyLines e' := by
  have hlegible := h.legible hquotes
  have hlegible' := h'.legible hquotes'
  rw [← String.toList_inj, toList_render, toList_render]
  constructor
  · intro htext
    exact alike_of_outline hlegible hlegible'
      (Outline.text_inj (sound_outline hlegible) (sound_outline hlegible') htext)
  · intro halike
    rw [halike.outline_eq]

/-- One call in two programs. In the second one it stands further down, and behind an access. -/
theorem render_eq_iff_call :
    let first : Expr := .call (.read 0 ⟨.identifier, "call", none, 1⟩)
      ⟨.rightParen, ")", none, 1⟩ [.unary ⟨.minus, "-", none, 1⟩ (.literal (.number 1)),
        .literal (.string ") (- ")]
    let second : Expr := .call (.read 1 ⟨.identifier, "call", none, 3⟩)
      ⟨.rightParen, ")", none, 3⟩ [.unary ⟨.minus, "-", none, 3⟩ (.literal (.number 1)),
        .literal (.string ") (- ")]
    first.StandsIn "print call(-1, \") (- \");" ∧
      second.StandsIn "group;\n\nprint call(- 01, \") (\\- \");" ∧
      (first.render = second.render ↔ first.Alike AnyIds AnyLines second) := by
  intro first second
  have h : first.StandsIn "print call(-1, \") (- \");" :=
    ⟨_, 0, _, _, _, rfl, rfl, .tail (lies_of_mem (List.mem_singleton.2 rfl)) .printed⟩
  have h' : second.StandsIn "group;\n\nprint call(- 01, \") (\\- \");" :=
    ⟨_, 0, _, _, _, rfl, rfl, .tail (lies_of_mem (.tail _ (List.mem_singleton.2 rfl))) .printed⟩
  exact ⟨h, h', render_eq_iff h (by decide) h' (by decide)⟩

end Expr

end Lox
