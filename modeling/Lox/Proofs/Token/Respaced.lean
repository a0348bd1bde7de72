/-
# Tokens written anew with other white space

Each token of a text has a form that reads the same wherever white space comes next
(`Segment.Form.longest_before`), and white space is read as nothing. So what a text comes to apart
from lines can be put together from its tokens alone, whatever came between them
(`Segment.Yields.token`), and tokens that are written out with other white space in between are
scanned to what they were (`Token.scan_respaced`).
-/

import Lox.Proofs.Token.Joined

namespace Lox

/-- What a token is apart from its line: its kind, its text and its value. -/
def Token.content (token : Token) : Token.Kind × String × Option Token.Literal :=
  (token.kind, token.lexeme, token.literal)

/-- Nothing but spaces, tabs, carriage returns and line breaks. -/
def WhiteSpace (text : List Char) : Prop := ∀ c ∈ text, c ∈ [' ', '\t', '\r', '\n']

/-- A text in which some words are written one after the other, any two of them apart by white
space, which is at least one character. -/
inductive Spaced : List String → List Char → Prop
  | none : Spaced [] []
  | last {word : String} : Spaced [word] word.toList
  | next {word following : String} {words : List String} {gap text : List Char}
      (hgap : WhiteSpace gap) (hne : gap ≠ []) (hrest : Spaced (following :: words) text) :
      Spaced (word :: following :: words) (word.toList ++ gap ++ text)

namespace Segment

/-- What a segment is read as apart from its line, if it is read as a token. -/
def content? (segment : Segment) : Option (Token.Kind × String × Option Token.Literal) :=
  match segment.reading with
  | .token kind literal => some (kind, String.ofList segment.text, literal)
  | _ => none

/-- Nothing in a text is malformed, and apart from lines its tokens are some given ones. -/
structure Yields (text : List Char)
    (contents : List (Token.Kind × String × Option Token.Literal)) : Prop where
  problem : ∀ segment ∈ split text, segment.problem? = none
  contents : (split text).filterMap content? = contents

namespace Yields

variable {text : List Char} {contents : List (Token.Kind × String × Option Token.Literal)}

theorem nil : Yields [] [] := ⟨fun _ hmem => absurd hmem List.not_mem_nil, rfl⟩

/-- A segment in front adds what it is read as. -/
theorem segment {segment : Segment} (hlongest : Longest (segment.text ++ text) segment)
    (hproblem : segment.problem? = none) (h : Yields text contents) :
    Yields (segment.text ++ text) (segment.content?.toList ++ contents) := by
  rw [← h.contents]
  constructor
  · rw [split_text_append hlongest]
    exact List.forall_mem_cons.2 ⟨hproblem, h.problem⟩
  · rw [split_text_append hlongest, List.filterMap_cons]
    cases segment.content? <;> rfl

/-- White space in front adds nothing. -/
theorem whiteSpace {gap : List Char} (hgap : WhiteSpace gap) (h : Yields text contents) :
    Yields (gap ++ text) contents := by
  induction gap with
  | nil => exact h
  | cons c gap ih =>
    obtain ⟨hc, hgap⟩ := List.forall_mem_cons.1 hgap
    have hlongest : Longest ([c] ++ (gap ++ text)) ⟨[c], .skipped⟩ :=
      (Form.blank hc).longest (by rw [extent_of_mem_blank hc]; exact Nat.le_refl 0)
    exact @segment _ _ ⟨[c], .skipped⟩ hlongest rfl (ih hgap)

/-- A token in front of white space, or of nothing at all, adds what it has the form of. -/
theorem token {word : List Char} {kind : Token.Kind} {literal : Option Token.Literal}
    (hform : Form word (.token kind literal))
    (hbehind : ∀ c ∈ text.head?, c ∈ [' ', '\t', '\r', '\n']) (h : Yields text contents) :
    Yields (word ++ text) ((kind, String.ofList word, literal) :: contents) :=
  @segment _ _ ⟨word, .token kind literal⟩ (hform.longest_before hbehind) rfl h

/-- Tokens that are written out with white space in between are read as they are. -/
theorem spaced {tokens : List Token} {after : List Char}
    (hforms : ∀ token ∈ tokens, Form token.lexeme.toList (.token token.kind token.literal))
    (hspaced : Spaced (tokens.map Token.lexeme) text) (hafter : WhiteSpace after) :
    Yields (text ++ after) (tokens.map Token.content) := by
  have hend : Yields after [] := by
    have h := whiteSpace hafter nil
    rwa [List.append_nil] at h
  generalize hwords : tokens.map Token.lexeme = words at hspaced
  induction hspaced generalizing tokens with
  | none =>
    obtain rfl := List.map_eq_nil_iff.1 hwords
    exact hend
  | @last word =>
    obtain ⟨first, others, rfl, rfl, hothers⟩ := List.map_eq_cons_iff.1 hwords
    obtain rfl := List.map_eq_nil_iff.1 hothers
    have h := token (hforms first List.mem_cons_self)
      (fun c hc => hafter c (List.mem_of_mem_head? hc)) hend
    rwa [String.ofList_toList] at h
  | @next word following words gap text hgap hne _ ih =>
    obtain ⟨first, others, rfl, rfl, hothers⟩ := List.map_eq_cons_iff.1 hwords
    obtain ⟨hfirst, hforms⟩ := List.forall_mem_cons.1 hforms
    have hrest := whiteSpace hgap (ih hforms hothers)
    have hbehind : ∀ c ∈ (gap ++ (text ++ after)).head?, c ∈ [' ', '\t', '\r', '\n'] := by
      rw [List.head?_append_of_ne_nil _ hne]
      exact fun c hc => hgap c (List.mem_of_mem_head? hc)
    have h := token hfirst hbehind hrest
    rw [String.ofList_toList] at h
    rw [List.append_assoc, List.append_assoc]
    exact h

theorem content_token? (before : List Char) (segment : Segment) :
    (segment.token? before).map Token.content = segment.content? := by
  unfold token? content?
  cases segment.reading <;> rfl

theorem map_content_collect (before : List Char) (segments : List Segment) :
    (collect token? before segments).map Token.content = segments.filterMap content? := by
  induction segments generalizing before with
  | nil => rfl
  | cons segment segments ih =>
    rw [collect, List.map_append, ih, List.filterMap_cons, ← content_token? before segment]
    cases token? before segment <;> rfl

/-- Such a text is scanned to these tokens and an end token. -/
theorem exists_scan (h : Yields text contents) :
    ∃ tokens, Token.scan (String.ofList text) = .ok tokens ∧
      tokens.map Token.content = contents ++ [(.endOfInput, "", none)] := by
  obtain ⟨hproblem, rfl⟩ := h
  refine ⟨_, Token.scan_eq_ok_iff.2 ⟨?_, rfl⟩, ?_⟩
  · rwa [String.toList_ofList]
  · rw [String.toList_ofList, List.map_append, map_content_collect]
    rfl

end Yields

end Segment

namespace Token

/-- Tokens survive being written out. Write the texts of the tokens of a text in order, any two of
them apart by white space, with more of it before and after all of them if one likes, as when the
empty text of the end token counts as well. What comes out can be scanned, and apart from lines its
tokens are the same. -/
theorem scan_respaced {source : String} {tokens : List Token} (hscan : scan source = .ok tokens)
    {text before after : List Char}
    (hspaced : Spaced ((tokens.filter fun token => token.kind ≠ .endOfInput).map lexeme) text)
    (hbefore : WhiteSpace before) (hafter : WhiteSpace after) :
    ∃ tokens', scan (String.ofList (before ++ text ++ after)) = .ok tokens' ∧
      tokens'.map content = tokens.map content := by
  obtain ⟨-, htokens⟩ := scan_eq_ok_iff.1 hscan
  have hwords := filter_scan_eq hscan
  rw [hwords] at hspaced
  have hyields := (Segment.Yields.spaced (fun token => Segment.form_of_mem_collect) hspaced
    hafter).whiteSpace hbefore
  obtain ⟨tokens', hscan', hcontents⟩ := hyields.exists_scan
  rw [← List.append_assoc] at hscan'
  refine ⟨tokens', hscan', hcontents.trans ?_⟩
  rw [htokens, List.map_append]
  rfl

/-- Two operators that stand side by side as the longest that could be taken are read as the same
two when a line break is put between them. -/
theorem scan_respaced_operators :
    scan "===" = .ok [⟨.equalEqual, "==", none, 1⟩, ⟨.equal, "=", none, 1⟩, endOfInput 1] ∧
    ∃ tokens, scan (String.ofList ([' '] ++ ("==".toList ++ ['\n', '\t'] ++ "=".toList) ++ [])) =
        .ok tokens ∧
      tokens.map content =
        [(.equalEqual, "==", none), (.equal, "=", none), (.endOfInput, "", none)] :=
  ⟨rfl, @scan_respaced "===" _ rfl _ _ _
    (.next (by simp [WhiteSpace]) (List.cons_ne_nil _ _) .last) (by simp [WhiteSpace])
    (by simp [WhiteSpace])⟩

end Token

end Lox
