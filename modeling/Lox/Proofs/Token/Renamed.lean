/-
# Writing a name anew

A name can be written anew wherever it stands in a text, in some places or in all of them, with
another name in its place. The segments of the text stay apart as they were: how far a segment
extends depends on what follows only by the character that comes next, or the one behind a point,
and there all characters that a name can start with are the same (`Ahead`). So the new text falls
into the same segments with the new name in those places (`Segment.Tiles.rewritten`), and its tokens
are those of the old text written anew, on the same lines (`Token.exists_scan_of_rewritten`).
-/

import Lox.Proofs.Token.Joined

namespace Lox

/-! ## Names -/

/-- A name that is to be written in place of another. -/
structure Respelling where
  /-- The name that is replaced. -/
  old : String
  /-- The name that is written instead. -/
  new : String
  deriving DecidableEq, Repr

/-- A name that a program can use: characters that are read as an identifier. -/
def IsName (name : String) : Prop := Segment.Form name.toList (.token .identifier none)

/-- A token and what is written for it where a name may be written anew. -/
inductive Token.Rewritten (ρ : Respelling) : Token → Token → Prop
  | same {token : Token} : Token.Rewritten ρ token token
  | renamed {token : Token} (hkind : token.kind = .identifier) (hold : token.lexeme = ρ.old) :
      Token.Rewritten ρ token { token with lexeme := ρ.new }

/-- A segment and what is written for it where a name may be written anew. -/
inductive Segment.Rewritten (ρ : Respelling) : Segment → Segment → Prop
  | same {segment : Segment} : Segment.Rewritten ρ segment segment
  | renamed {segment : Segment} (hreading : segment.reading = .token .identifier none)
      (hold : segment.text = ρ.old.toList) :
      Segment.Rewritten ρ segment ⟨ρ.new.toList, segment.reading⟩

/-- One text is another in which a name is written anew in some places. -/
def Respells (ρ : Respelling) (source source' : String) : Prop :=
  List.Forall₂ (Segment.Rewritten ρ) (Segment.split source.toList) (Segment.split source'.toList)

namespace Segment

variable {ρ : Respelling} {c : Char} {text rest rest' : List Char}

/-- An identifier is made of the characters of names, and it has no value. -/
theorem Form.exists_word {literal : Option Token.Literal}
    (h : Form text (.token .identifier literal)) :
    literal = none ∧ ∃ c part, text = c :: part ∧ Character.isNameStart c = true ∧
      ∀ d ∈ part, Character.isNamePart d = true := by
  generalize hreading : Reading.token .identifier literal = reading at h
  cases h with
  | word hstart hpart =>
    injection hreading with _ hliteral
    exact ⟨hliteral, _, _, rfl, hstart, hpart⟩
  | number _ _ _ =>
    unfold numeral at hreading
    split at hreading <;> cases hreading
  | operator h =>
    cases hreading
    exact absurd rfl ((by decide : ∀ operator ∈ operators, operator.2 ≠ .identifier) _ h)
  | _ => cases hreading

theorem Form.newline_not_mem {literal : Option Token.Literal}
    (h : Form text (.token .identifier literal)) : '\n' ∉ text := by
  obtain ⟨-, c, part, rfl, hstart, hpart⟩ := h.exists_word
  intro hmem
  rcases List.mem_cons.1 hmem with rfl | hmem
  · exact absurd hstart (by decide)
  · exact absurd (hpart _ hmem) (by decide)

/-! ## Looking ahead -/

/-- What holds of all characters that a name can start with, or of none of them. -/
def Indifferent (p : Char → Bool) : Prop :=
  ∀ c c', Character.isNameStart c = true → Character.isNameStart c' = true → p c = p c'

/-- Two texts look the same from a segment in front of them. -/
structure Ahead (rest rest' : List Char) : Prop where
  /-- They start alike, but that it does not matter with which character a name starts. -/
  head : ∀ p, Indifferent p → rest.head?.any p = rest'.head?.any p
  /-- The second starts with the fraction of a number only if the first does. -/
  fraction : fractionExtent rest = 0 → fractionExtent rest' = 0

theorem indifferent_of_not {p : Char → Bool}
    (h : ∀ c, Character.isNameStart c = true → p c = false) :
    Indifferent p := fun c c' hc hc' => (h c hc).trans (h c' hc').symm

theorem indifferent_beq (h : Character.isNameStart c = false) : Indifferent (· == c) := by
  apply indifferent_of_not
  intro d hd
  rw [beq_eq_false_iff_ne]
  rintro rfl
  rw [h] at hd
  cases hd

theorem indifferent_isDigit : Indifferent Character.isDigit :=
  indifferent_of_not fun _ h => Bool.eq_false_iff.2 (not_isDigit_of_isNameStart h)

theorem indifferent_isNamePart : Indifferent Character.isNamePart := by
  intro c c' hc hc'
  unfold Character.isNamePart
  rw [hc, hc']
  rfl

theorem indifferent_not {p : Char → Bool} (h : Indifferent p) : Indifferent (fun c => !p c) :=
  fun c c' hc hc' => congrArg _ (h c c' hc hc')

namespace Ahead

theorem nil : Ahead [] [] := ⟨fun _ _ => rfl, fun _ => rfl⟩

/-- Both texts start with names. -/
theorem names {c c' : Char} (h : Character.isNameStart c = true)
    (h' : Character.isNameStart c' = true) : Ahead (c :: rest) (c' :: rest') := by
  have hpoint : ∀ {d : Char}, Character.isNameStart d = true → d ≠ '.' := by
    rintro _ hd rfl
    exact absurd hd (by decide)
  exact ⟨fun p hp => hp c c' h h', fun _ => fractionExtent_eq_zero (hpoint h') rest'⟩

/-- Both texts start with the same character, and a point does not come before something else. -/
theorem cons (h : c = '.' → Ahead rest rest') : Ahead (c :: rest) (c :: rest') := by
  refine ⟨fun _ _ => rfl, fun hfraction => ?_⟩
  by_cases hpoint : c = '.'
  · subst hpoint
    have hdigit := (h rfl).head Character.isDigit indifferent_isDigit
    cases rest' with
    | nil => rfl
    | cons d' rest' =>
      cases rest with
      | nil =>
        have hd' : Character.isDigit d' = false := hdigit.symm
        simp [fractionExtent, hd']
      | cons d rest =>
        have hdigit : Character.isDigit d = Character.isDigit d' := hdigit
        have hd : Character.isDigit d = false := by
          by_contra hd
          rw [Bool.not_eq_false] at hd
          simp [fractionExtent, hd] at hfraction
        rw [hd] at hdigit
        simp [fractionExtent, ← hdigit]
  · exact fractionExtent_eq_zero hpoint rest'

variable (h : Ahead rest rest')
include h

theorem append (text : List Char) : Ahead (text ++ rest) (text ++ rest') := by
  induction text with
  | nil => exact h
  | cons c text ih => exact .cons fun _ => ih

theorem takeWhile_eq_nil {p : Char → Bool} (hp : Indifferent p) (hrest : rest.takeWhile p = []) :
    rest'.takeWhile p = [] := by
  have hnil : ∀ text : List Char, text.takeWhile p = [] ↔ text.head?.any p = false := by
    intro text
    cases text with
    | nil => exact ⟨fun _ => rfl, fun _ => rfl⟩
    | cons c text => simp [List.takeWhile_cons]
  rw [hnil] at hrest ⊢
  rw [← h.head p hp, hrest]

theorem head?_ne {d : Char} (hd : Character.isNameStart d = false) (hrest : rest.head? ≠ some d) :
    rest'.head? ≠ some d := by
  intro hrest'
  have hany := h.head (· == d) (indifferent_beq hd)
  rw [hrest'] at hany
  cases hhead : rest.head? with
  | none =>
    rw [hhead] at hany
    simp at hany
  | some c =>
    rw [hhead] at hany hrest
    simp at hany
    exact hrest (congrArg some hany)

end Ahead

/-! ## How far segments extend -/

theorem takeWhile_eq_nil_of_length_eq {p : Char → Bool} {part : List Char}
    (hpart : ∀ d ∈ part, p d = true)
    (hends : ((part ++ rest).takeWhile p).length = part.length) : rest.takeWhile p = [] := by
  rw [takeWhile_eq_of_forall hpart, List.length_append, Nat.add_eq_left] at hends
  exact List.length_eq_zero_iff.1 hends

/-- What goes on as far as the segment does goes no further when another text follows that looks the
same. -/
theorem length_takeWhile_le {p : Char → Bool} (hp : Indifferent p) (hahead : Ahead rest rest')
    {part : List Char} (hpart : ∀ d ∈ part, p d = true)
    (hends : ((part ++ rest).takeWhile p).length = part.length) :
    ((part ++ rest').takeWhile p).length ≤ part.length := by
  rw [takeWhile_eq_of_forall hpart,
    hahead.takeWhile_eq_nil hp (takeWhile_eq_nil_of_length_eq hpart hends), List.append_nil]

theorem numberExtent_append {digits : List Char}
    (hdigits : ∀ d ∈ digits, Character.isDigit d = true) (rest : List Char) :
    numberExtent (digits ++ rest) = digits.length + numberExtent rest := by
  unfold numberExtent
  rw [takeWhile_eq_of_forall hdigits, List.dropWhile_append_of_pos hdigits, List.length_append,
    Nat.add_assoc]

theorem numberExtent_le_of_ahead (hahead : Ahead rest rest') {digits fraction : List Char}
    (hdigits : ∀ d ∈ digits, Character.isDigit d = true) (hfraction : Fraction fraction)
    (hends : numberExtent (digits ++ fraction ++ rest) = (digits ++ fraction).length) :
    numberExtent (digits ++ fraction ++ rest') ≤ (digits ++ fraction).length := by
  rw [List.append_assoc, numberExtent_append hdigits, List.length_append, Nat.add_left_cancel_iff]
    at hends
  rw [List.append_assoc, numberExtent_append hdigits, List.length_append]
  refine Nat.add_le_add_left ?_ _
  cases hfraction with
  | none =>
    rw [List.nil_append] at hends ⊢
    obtain ⟨htake, hextent⟩ := Nat.add_eq_zero_iff.1 hends
    have htake := List.length_eq_zero_iff.1 htake
    have hdrop : ∀ {text : List Char}, text.takeWhile Character.isDigit = [] →
        text.dropWhile Character.isDigit = text := by
      intro text h
      have htext := @List.takeWhile_append_dropWhile _ Character.isDigit text
      rwa [h] at htext
    have htake' := hahead.takeWhile_eq_nil indifferent_isDigit htake
    rw [hdrop htake] at hextent
    unfold numberExtent
    rw [htake', hdrop htake', hahead.fraction hextent]
    exact Nat.le_refl _
  | @some decimals hne hdecimals =>
    cases decimals with
    | nil => exact absurd rfl hne
    | cons d decimals =>
      obtain ⟨hdigit, hdecimals⟩ := List.forall_mem_cons.1 hdecimals
      have hextent : ∀ text, numberExtent ('.' :: d :: decimals ++ text) =
          2 + ((decimals ++ text).takeWhile Character.isDigit).length := by
        intro text
        show 0 + fractionExtent ('.' :: d :: (decimals ++ text)) = _
        rw [Nat.zero_add, fractionExtent, if_pos hdigit]
      have hlength : ('.' :: d :: decimals).length = 2 + decimals.length := Nat.add_comm _ 2
      rw [hextent, hlength, Nat.add_left_cancel_iff] at hends
      rw [hextent, hlength]
      exact Nat.add_le_add_left (length_takeWhile_le indifferent_isDigit hahead hdecimals hends) 2

/-- A bare operator is not extended. -/
theorem further_le_bare (hahead : Ahead rest rest') {bare extended : Token.Kind}
    (hends :
      (if rest.head? = some '=' then Extent.token extended 1 else .token bare 0).further = 0) :
    (if rest'.head? = some '=' then Extent.token extended 1 else .token bare 0).further ≤ 0 := by
  split at hends
  · cases hends
  · rename_i hhead
    rw [if_neg (hahead.head?_ne (by decide) hhead)]
    exact Nat.le_refl _

/-- A division sign opens no comment. -/
theorem further_le_slash (hahead : Ahead rest rest') (hends : (slash rest).further = 0) :
    (slash rest').further ≤ 0 := by
  have hslash : rest.head? ≠ some '/' := by
    intro hhead
    obtain ⟨after, rfl⟩ := List.head?_eq_some_iff.1 hhead
    cases hends
  have hstar : rest.head? ≠ some '*' := by
    intro hhead
    obtain ⟨after, rfl⟩ := List.head?_eq_some_iff.1 hhead
    change (blockComment ('*' :: after)).further = 0 at hends
    unfold blockComment at hends
    rcases commentExtent?_cases after 1 with ⟨body, behind, -, -, heq⟩ | ⟨-, heq⟩ <;>
      rw [List.drop_one, List.tail_cons, heq] at hends <;> cases hends
  have hslash' := hahead.head?_ne (by decide) hslash
  have hstar' := hahead.head?_ne (by decide) hstar
  unfold slash
  split
  · exact absurd rfl hslash'
  · exact absurd rfl hstar'
  · exact Nat.le_refl _

/-- A segment that ends where a text follows goes no further when another text follows that looks
the same. -/
theorem further_le_of_ahead (hahead : Ahead rest rest') {reading : Reading} {taken : List Char}
    (hform : Form (c :: taken) reading)
    (hends : (extent c (taken ++ rest)).further = taken.length) :
    (extent c (taken ++ rest')).further ≤ taken.length := by
  generalize hstart : c :: taken = start at hform
  cases hform with
  | blank h =>
    cases hstart
    rw [extent_of_mem_blank h]
    exact Nat.zero_le _
  | lineComment h =>
    cases hstart
    have hpart : ∀ d ∈ '/' :: _, (d != '\n') = true :=
      List.forall_mem_cons.2 ⟨rfl, fun d hd => bne_iff_ne.2 (ne_of_mem_of_not_mem hd h)⟩
    exact length_takeWhile_le (indifferent_not (indifferent_beq (by decide))) hahead hpart hends
  | @blockComment body h =>
    cases hstart
    rw [List.cons_append, List.append_assoc]
    show (blockComment _).further ≤ _
    unfold blockComment
    rw [List.drop_one, List.tail_cons, List.cons_append, List.cons_append,
      commentExtent?_of_closed h]
    simp
    omega
  | @string inside value h =>
    cases hstart
    rw [List.append_assoc]
    show (Segment.string _).further ≤ _
    unfold Segment.string
    rw [List.cons_append, h.stringExtent?_closed]
    simp
  | @number digits fraction hne hdigits hfraction =>
    cases digits with
    | nil => exact absurd rfl hne
    | cons d digits =>
      cases hstart
      obtain ⟨hdigit, hdigits⟩ := List.forall_mem_cons.1 hdigits
      rw [extent_of_isDigit hdigit, number_eq] at hends ⊢
      exact numberExtent_le_of_ahead hahead hdigits hfraction hends
  | word hname hpart =>
    cases hstart
    rw [extent_of_isNameStart hname] at hends ⊢
    exact length_takeWhile_le indifferent_isNamePart hahead hpart hends
  | operator h =>
    subst hstart
    simp only [operators, List.mem_cons, Prod.mk.injEq, List.cons.injEq, List.not_mem_nil, or_false]
      at h
    rcases h with ⟨⟨rfl, rfl⟩, -⟩ | ⟨⟨rfl, rfl⟩, -⟩ | ⟨⟨rfl, rfl⟩, -⟩ | ⟨⟨rfl, rfl⟩, -⟩ |
      ⟨⟨rfl, rfl⟩, -⟩ | ⟨⟨rfl, rfl⟩, -⟩ | ⟨⟨rfl, rfl⟩, -⟩ | ⟨⟨rfl, rfl⟩, -⟩ | ⟨⟨rfl, rfl⟩, -⟩ |
      ⟨⟨rfl, rfl⟩, -⟩ | ⟨⟨rfl, rfl⟩, -⟩ | ⟨⟨rfl, rfl⟩, -⟩ | ⟨⟨rfl, rfl⟩, -⟩ | ⟨⟨rfl, rfl⟩, -⟩ |
      ⟨⟨rfl, rfl⟩, -⟩ | ⟨⟨rfl, rfl⟩, -⟩ | ⟨⟨rfl, rfl⟩, -⟩ | ⟨⟨rfl, rfl⟩, -⟩ | ⟨⟨rfl, rfl⟩, -⟩ |
      ⟨⟨rfl, rfl⟩, -⟩ | ⟨⟨rfl, rfl⟩, -⟩ | ⟨⟨rfl, rfl⟩, -⟩ | ⟨⟨rfl, rfl⟩, -⟩ | ⟨⟨rfl, rfl⟩, -⟩ |
      ⟨⟨rfl, rfl⟩, -⟩
    all_goals first
      | exact Nat.le_refl _
      | exact further_le_bare hahead hends
      | exact further_le_slash hahead hends

/-! ## Segments written anew -/

/-- Behind the longest segment of its form, the characters that follow begin something else. -/
theorem Longest.further_eq {taken : List Char} {reading : Reading}
    (h : Longest (c :: taken ++ rest) ⟨c :: taken, reading⟩) :
    (extent c (taken ++ rest)).further = taken.length := by
  have hfirst : ⟨c :: taken, reading⟩ = first c (taken ++ rest) := longest_iff.1 h
  have hle := further_le c (taken ++ rest)
  have hlength := congrArg (·.text.length) hfirst
  simp only [first, List.length_cons, List.length_take] at hlength
  omega

namespace Rewritten

variable {segment segment' : Segment}

theorem problem?_eq (h : segment.Rewritten ρ segment') : segment'.problem? = segment.problem? := by
  cases h <;> rfl

/-- A segment stays the longest one when it is written anew and another text follows that looks the
same. -/
theorem longest (h : segment.Rewritten ρ segment') (hnew : IsName ρ.new)
    (hahead : Ahead rest rest') (hproblem : segment.problem? = none)
    (hlongest : Longest (segment.text ++ rest) segment) :
    Longest (segment'.text ++ rest') segment' := by
  have hform := hlongest.form hproblem
  cases h with
  | same =>
    obtain ⟨text, reading⟩ := segment
    cases text with
    | nil => exact absurd rfl hform.ne_nil
    | cons c taken => exact hform.longest (further_le_of_ahead hahead hform hlongest.further_eq)
  | renamed hreading _ =>
    obtain ⟨text, reading⟩ := segment
    cases hreading
    obtain ⟨-, c, part, rfl, hstart, hpart⟩ := hform.exists_word
    obtain ⟨-, c', part', hword, hstart', hpart'⟩ := hnew.exists_word
    have hends := hlongest.further_eq
    rw [extent_of_isNameStart hstart] at hends
    have htake := hahead.takeWhile_eq_nil indifferent_isNamePart
      (takeWhile_eq_nil_of_length_eq hpart hends)
    unfold IsName at hnew
    rw [hword] at hnew ⊢
    apply hnew.longest
    rw [extent_of_isNameStart hstart']
    show ((part' ++ rest').takeWhile Character.isNamePart).length ≤ part'.length
    rw [takeWhile_eq_of_forall hpart', htake, List.append_nil]

/-- From in front of it, a segment that is written anew looks the same. -/
theorem ahead (h : segment.Rewritten ρ segment') (hnew : IsName ρ.new) (hahead : Ahead rest rest')
    (hproblem : segment.problem? = none) (hlongest : Longest (segment.text ++ rest) segment) :
    Ahead (segment.text ++ rest) (segment'.text ++ rest') := by
  cases h with
  | same => exact hahead.append segment.text
  | renamed hreading _ =>
    have hform := hlongest.form hproblem
    rw [hreading] at hform
    obtain ⟨-, c, part, hword, hstart, -⟩ := hform.exists_word
    obtain ⟨-, c', part', hword', hstart', -⟩ := hnew.exists_word
    rw [hword, hword']
    exact .names hstart hstart'

end Rewritten

theorem forall_problem?_eq_none {segments segments' : List Segment}
    (h : List.Forall₂ (Rewritten ρ) segments segments')
    (hnone : ∀ segment ∈ segments, segment.problem? = none) :
    ∀ segment' ∈ segments', segment'.problem? = none := by
  induction h with
  | nil => exact List.forall_mem_nil _
  | cons hsegment _ ih =>
    obtain ⟨hproblem, hnone⟩ := List.forall_mem_cons.1 hnone
    exact List.forall_mem_cons.2 ⟨hsegment.problem?_eq.trans hproblem, ih hnone⟩

/-- Segments in which a name is written anew are the segments of the text that they make up. -/
theorem Tiles.rewritten (hnew : IsName ρ.new) {segments segments' : List Segment}
    (h : Tiles text segments) (hnone : ∀ segment ∈ segments, segment.problem? = none)
    (hsegments : List.Forall₂ (Rewritten ρ) segments segments') :
    Tiles (segments'.flatMap Segment.text) segments' ∧
      Ahead text (segments'.flatMap Segment.text) := by
  -- From the end of the text, since how far a segment extends depends on what comes behind it.
  induction h generalizing segments' with
  | nil =>
    cases hsegments
    exact ⟨.nil, .nil⟩
  | cons hlongest _ ih =>
    cases hsegments with
    | cons hsegment hsegments =>
      obtain ⟨hproblem, hnone⟩ := List.forall_mem_cons.1 hnone
      obtain ⟨htiles, hahead⟩ := ih hnone hsegments
      rw [List.flatMap_cons]
      exact ⟨.cons (hsegment.longest hnew hahead hproblem hlongest) htiles,
        hsegment.ahead hnew hahead hproblem hlongest⟩

/-- Where the token of a segment is written anew, so can the segment be. -/
theorem exists_rewritten (hnew : IsName ρ.new) {segment : Segment}
    (hform : Form segment.text segment.reading) {before : List Char} {tokens : List Token}
    (htokens : List.Forall₂ (Token.Rewritten ρ) (segment.token? before).toList tokens) :
    ∃ segment', segment.Rewritten ρ segment' ∧ (segment'.token? before).toList = tokens ∧
      segment'.text.count '\n' = segment.text.count '\n' := by
  cases htoken : segment.token? before with
  | none =>
    rw [htoken] at htokens
    cases htokens
    exact ⟨segment, .same, by rw [htoken]; rfl, rfl⟩
  | some token =>
    rw [htoken] at htokens
    cases htokens with
    | cons h hnil =>
    cases hnil
    cases h with
    | same => exact ⟨segment, .same, by rw [htoken]; rfl, rfl⟩
    | renamed hkind hold =>
      unfold token? at htoken
      split at htoken
      · rename_i kind literal hreading
        cases htoken
        obtain rfl : kind = .identifier := hkind
        rw [hreading] at hform
        obtain rfl := hform.exists_word.1
        have hcount : ρ.new.toList.count '\n' = segment.text.count '\n' := by
          rw [List.count_eq_zero.2 hform.newline_not_mem, List.count_eq_zero]
          exact Form.newline_not_mem hnew
        refine ⟨⟨ρ.new.toList, segment.reading⟩, .renamed hreading ?_, ?_, hcount⟩
        · rw [← hold, String.toList_ofList]
        · unfold token?
          rw [hreading]
          dsimp only
          rw [List.count_append, hcount, ← List.count_append, String.ofList_toList]
          rfl
      · cases htoken

/-- Where the tokens of segments are written anew, so can the segments be. -/
theorem Tiles.exists_rewritten (hnew : IsName ρ.new) {segments : List Segment}
    (h : Tiles text segments) (hnone : ∀ segment ∈ segments, segment.problem? = none)
    {before : List Char} {tokens : List Token}
    (htokens : List.Forall₂ (Token.Rewritten ρ) (collect token? before segments) tokens) :
    ∃ segments', List.Forall₂ (Rewritten ρ) segments segments' ∧
      collect token? before segments' = tokens ∧
        (segments'.flatMap Segment.text).count '\n' = text.count '\n' := by
  induction h generalizing before tokens with
  | nil =>
    cases htokens
    exact ⟨[], .nil, rfl, rfl⟩
  | @cons segment rest segments hlongest _ ih =>
    obtain ⟨hproblem, hnone⟩ := List.forall_mem_cons.1 hnone
    rw [collect] at htokens
    have hfirst := (List.forall₂_take_append _ _ _ htokens.flip).flip
    have hothers := (List.forall₂_drop_append _ _ _ htokens.flip).flip
    obtain ⟨segment', hsegment, hfirst, hcount⟩ :=
      Segment.exists_rewritten hnew (hlongest.form hproblem) hfirst
    obtain ⟨segments', hsegments, hothers, hcounts⟩ := ih hnone hothers
    refine ⟨segment' :: segments', .cons hsegment hsegments, ?_, ?_⟩
    · have hbefore : (before ++ segment'.text).count '\n' =
          (before ++ segment.text).count '\n' := by
        rw [List.count_append, hcount, List.count_append]
      rw [collect, hfirst, collect_token?_congr hbefore, hothers, List.take_append_drop]
    · rw [List.flatMap_cons, List.count_append, hcount, hcounts, List.count_append]

end Segment

/-- Where the tokens of a text are written anew, they are the tokens of the text written anew. -/
theorem Token.exists_scan_of_rewritten {ρ : Respelling} (hnew : IsName ρ.new) {source : String}
    {tokens : List Token}
    (hnone : ∀ segment ∈ Segment.split source.toList, segment.problem? = none)
    (htokens : List.Forall₂ (Rewritten ρ)
      (Segment.collect Segment.token? [] (Segment.split source.toList)) tokens) :
    ∃ source', Respells ρ source source' ∧
      scan source' = .ok (tokens ++ [endOfInput (lineCount source)]) := by
  have htiles := Segment.tiles_split source.toList
  obtain ⟨segments', hsegments, rfl, hcount⟩ := htiles.exists_rewritten hnew hnone htokens
  obtain ⟨htiles', -⟩ := htiles.rewritten hnew hnone hsegments
  have hsplit :
      segments' = Segment.split (String.ofList (segments'.flatMap Segment.text)).toList := by
    rw [String.toList_ofList]
    exact Segment.tiles_iff.1 htiles'
  refine ⟨String.ofList (segments'.flatMap Segment.text), ?_, scan_eq_ok_iff.2 ⟨?_, ?_⟩⟩
  · unfold Respells
    rwa [← hsplit]
  · rw [← hsplit]
    exact Segment.forall_problem?_eq_none hsegments hnone
  · rw [← hsplit]
    unfold lineCount
    rw [String.toList_ofList, hcount]

end Lox
