/-
# The forms of segments

What each segment of a text can look like is said here without saying how it is found. A form is a
shape of characters together with what they are read as; a string or a comment that is never closed
has no form and takes the rest of the text. `Longest` is the segment that a text starts with: the
longest of all that match there or, where nothing matches, a single character that nothing starts
with. `longest_iff` shows that scanning finds exactly this segment.
-/

import Lox.Token.Segment
import Mathlib.Data.List.Infix
import Mathlib.Data.List.TakeWhile
import Mathlib.Tactic.Tauto

namespace Lox.Segment

/-! ## What can stand in a text -/

/-- The operators and the punctuation, as they are written. -/
def operators : List (List Char × Token.Kind) :=
  [(['('], .leftParen), ([')'], .rightParen), (['{'], .leftBrace), (['}'], .rightBrace),
    ([','], .comma), (['.'], .dot), ([';'], .semicolon), ([':'], .colon), (['?'], .question),
    (['*'], .star), (['/'], .slash), (['!'], .bang), (['!', '='], .bangEqual), (['='], .equal),
    (['=', '='], .equalEqual), (['<'], .less), (['<', '='], .lessEqual), (['>'], .greater),
    (['>', '='], .greaterEqual), (['-'], .minus), (['-', '='], .minusEqual), (['+'], .plus),
    (['+', '='], .plusEqual), (['&', '&'], .and), (['|', '|'], .or)]

/-- What stands between the quotes of a string, and the text that it stands for. A backslash takes
the character after it along, whichever that is, and is dropped. -/
inductive Quoted : List Char → List Char → Prop
  | nil : Quoted [] []
  | plain {c : Char} {inside value : List Char} (hquote : c ≠ '"') (hescape : c ≠ '\\')
      (h : Quoted inside value) : Quoted (c :: inside) (c :: value)
  | escaped {c : Char} {inside value : List Char} (h : Quoted inside value) :
      Quoted ('\\' :: c :: inside) (c :: value)

/-- The fraction of a number: a point with digits behind it, or nothing. -/
inductive Fraction : List Char → Prop
  | none : Fraction []
  | some {digits : List Char} (hne : digits ≠ [])
      (hdigits : ∀ d ∈ digits, Character.isDigit d = true) : Fraction ('.' :: digits)

/-- What digits are read as when they stand in a number that is written as `text`. -/
def numeral (digits text : List Char) : Reading :=
  if Nat.ofDigitChars 10 digits 0 ≤ maxNumber then
    .token .number (some (.number (Int64.ofNat (Nat.ofDigitChars 10 digits 0))))
  else
    .malformed (.numberTooLarge (String.ofList text))

/-- Characters that make up a segment wherever they stand, and what they are read as. -/
inductive Form : List Char → Reading → Prop
  /-- White space. -/
  | blank {c : Char} (h : c ∈ [' ', '\t', '\r', '\n']) : Form [c] .skipped
  /-- A comment that does not go on behind its line. -/
  | lineComment {body : List Char} (h : '\n' ∉ body) : Form ('/' :: '/' :: body) .skipped
  /-- A comment through the first mark that closes it. The star that opens it closes nothing. -/
  | blockComment {body : List Char} (h : ¬ ['*', '/'] <:+: body ++ ['*']) :
      Form ('/' :: '*' :: (body ++ ['*', '/'])) .skipped
  /-- A string through its first quote without a backslash. -/
  | string {inside value : List Char} (h : Quoted inside value) :
      Form ('"' :: (inside ++ ['"'])) (.token .string (some (.string (String.ofList value))))
  /-- A number. -/
  | number {digits fraction : List Char} (hne : digits ≠ [])
      (hdigits : ∀ d ∈ digits, Character.isDigit d = true) (hfraction : Fraction fraction) :
      Form (digits ++ fraction) (numeral digits (digits ++ fraction))
  /-- A name or a reserved word. -/
  | word {c : Char} {part : List Char} (hstart : Character.isNameStart c = true)
      (hpart : ∀ d ∈ part, Character.isNamePart d = true) :
      Form (c :: part) (.token (.ofWord (String.ofList (c :: part))) none)
  /-- An operator or punctuation. -/
  | operator {text : List Char} {kind : Token.Kind} (h : (text, kind) ∈ operators) :
      Form text (.token kind none)

/-- A text that starts with what is never closed. -/
inductive Unclosed : List Char → Problem → Prop
  /-- A string without a quote that closes it. -/
  | string {inside value : List Char} (h : Quoted inside value) :
      Unclosed ('"' :: inside) .unterminatedString
  /-- Such a string with a backslash at its end that has nothing to take along. -/
  | escape {inside value : List Char} (h : Quoted inside value) :
      Unclosed ('"' :: (inside ++ ['\\'])) .unterminatedString
  /-- A comment without a mark that closes it. -/
  | comment {body : List Char} (h : ¬ ['*', '/'] <:+: body) :
      Unclosed ('/' :: '*' :: body) .unterminatedComment

/-- A text starts with a segment. -/
inductive Matches (text : List Char) : Segment → Prop
  | form {start : List Char} {reading : Reading} (hform : Form start reading)
      (hbegins : start <+: text) : Matches text ⟨start, reading⟩
  | unclosed {problem : Problem} (h : Unclosed text problem) :
      Matches text ⟨text, .malformed problem⟩

/-- The longest segment that a text starts with. Where nothing else matches, that is its first
character alone. -/
def Longest (text : List Char) (segment : Segment) : Prop :=
  (Matches text segment ∧ ∀ other, Matches text other → other.text.length ≤ segment.text.length) ∨
    (∀ other, ¬ Matches text other) ∧
      ∃ c rest, text = c :: rest ∧ segment = ⟨[c], .malformed (.unexpectedCharacter c)⟩

/-! ## How far each form extends -/

theorem takeWhile_eq_of_forall {p : Char → Bool} {part after : List Char}
    (hpart : ∀ d ∈ part, p d = true) :
    (part ++ after).takeWhile p = part ++ after.takeWhile p := by
  rw [List.takeWhile_append, if_pos (by rw [List.takeWhile_eq_self_iff.2 hpart])]

theorem take_length_takeWhile_add (p : Char → Bool) (text : List Char) (further : Nat) :
    text.take ((text.takeWhile p).length + further) =
      text.takeWhile p ++ (text.dropWhile p).take further := by
  conv_lhs => rw [← @List.takeWhile_append_dropWhile _ p text, List.takeWhile_append_dropWhile]
  conv_lhs => arg 2; rw [← @List.takeWhile_append_dropWhile _ p text]
  rw [List.take_length_add_append]

theorem commentExtent?_of_closed {body : List Char} (h : ¬ ['*', '/'] <:+: body ++ ['*'])
    (after : List Char) (seen : Nat) :
    commentExtent? (body ++ '*' :: '/' :: after) seen = some (seen + body.length + 2) := by
  induction body generalizing seen with
  | nil => rfl
  | cons b body ih =>
    have hrest : ¬ ['*', '/'] <:+: body ++ ['*'] := fun hinfix =>
      h (List.infix_cons_iff.2 (.inr hinfix))
    have hclosed : ∀ rest', b = '*' → body ++ '*' :: '/' :: after ≠ '/' :: rest' := by
      rintro rest' rfl heq
      cases body with
      | nil => cases heq
      | cons b' body =>
        cases heq
        exact h ⟨[], body ++ ['*'], by simp⟩
    rw [List.cons_append, commentExtent?.eq_3 _ _ _ (by
      intro rest' hb heq
      exact hclosed rest' hb heq), ih hrest, List.length_cons]
    congr 1
    omega

/-- A comment has a first mark that closes it, or none. -/
theorem commentExtent?_cases (text : List Char) (seen : Nat) :
    (∃ body after, text = body ++ '*' :: '/' :: after ∧ ¬ ['*', '/'] <:+: body ++ ['*'] ∧
        commentExtent? text seen = some (seen + body.length + 2)) ∨
      ¬ ['*', '/'] <:+: text ∧ commentExtent? text seen = none := by
  fun_induction commentExtent? text seen with
  | case1 => exact .inr ⟨by simp, rfl⟩
  | case2 rest seen => exact .inl ⟨[], rest, rfl, by decide, rfl⟩
  | case3 c rest seen hopen ih =>
    rcases ih with ⟨body, after, rfl, hbody, heq⟩ | ⟨hbody, heq⟩
    · refine .inl ⟨c :: body, after, rfl, ?_, ?_⟩
      · rw [List.cons_append, List.infix_cons_iff]
        rintro (hbegins | hinfix)
        · cases body with
          | nil => simp at hbegins
          | cons b body =>
            simp only [List.cons_append, List.cons_prefix_cons, List.nil_prefix, and_true]
              at hbegins
            exact hopen _ hbegins.1.symm (by rw [← hbegins.2]; rfl)
        · exact hbody hinfix
      · rw [heq, List.length_cons]
        congr 1
        omega
    · refine .inr ⟨?_, heq⟩
      rw [List.infix_cons_iff]
      rintro (hbegins | hinfix)
      · cases rest with
        | nil => simp at hbegins
        | cons b rest =>
          simp only [List.cons_prefix_cons, List.nil_prefix, and_true] at hbegins
          exact hopen _ hbegins.1.symm (by rw [← hbegins.2])
      · exact hbody hinfix

namespace Quoted

variable {inside value : List Char}

theorem stringExtent?_closed (h : Quoted inside value) (after : List Char) (seen : Nat) :
    stringExtent? (inside ++ '"' :: after) seen = some (seen + inside.length + 1) := by
  induction h generalizing seen with
  | nil => rfl
  | plain hquote hescape _ ih =>
    rw [List.cons_append, stringExtent?.eq_4 _ _ _ (fun hc => hquote hc)
      (fun _ _ hc _ => hescape hc), ih, List.length_cons]
    congr 1
    omega
  | escaped _ ih =>
    rw [List.cons_append, List.cons_append, stringExtent?, ih, List.length_cons, List.length_cons]
    congr 1
    omega

theorem stringExtent?_open (h : Quoted inside value) {after : List Char}
    (hafter : after = [] ∨ after = ['\\']) (seen : Nat) :
    stringExtent? (inside ++ after) seen = none := by
  induction h generalizing seen with
  | nil => rcases hafter with rfl | rfl <;> rfl
  | plain hquote hescape _ ih =>
    rw [List.cons_append, stringExtent?.eq_4 _ _ _ (fun hc => hquote hc)
      (fun _ _ hc _ => hescape hc), ih]
  | escaped _ ih => rw [List.cons_append, List.cons_append, stringExtent?, ih]

theorem unescape_eq (h : Quoted inside value) (done : List Char) :
    unescape inside done = done.reverse ++ value := by
  induction h generalizing done with
  | nil => exact (List.append_nil _).symm
  | plain hquote hescape _ ih =>
    rw [unescape.eq_4 _ _ _ (fun _ _ hc _ => hescape hc) (fun hc _ => hescape hc), ih]
    simp
  | escaped _ ih => simp [unescape, ih]

end Quoted

/-- A string has a first quote that closes it, or none. -/
theorem stringExtent?_cases (text : List Char) (seen : Nat) :
    (∃ inside value after, text = inside ++ '"' :: after ∧ Quoted inside value ∧
        stringExtent? text seen = some (seen + inside.length + 1)) ∨
      ∃ inside value after, text = inside ++ after ∧ Quoted inside value ∧
        (after = [] ∨ after = ['\\']) ∧ stringExtent? text seen = none := by
  fun_induction stringExtent? text seen with
  | case1 => exact .inr ⟨[], [], [], rfl, .nil, .inl rfl, rfl⟩
  | case2 rest seen => exact .inl ⟨[], [], rest, rfl, .nil, rfl⟩
  | case3 c rest seen ih =>
    rcases ih with ⟨inside, value, after, rfl, hquoted, heq⟩ | ⟨inside, value, after, rfl, h⟩
    · refine .inl ⟨'\\' :: c :: inside, c :: value, after, rfl, hquoted.escaped, ?_⟩
      rw [heq, List.length_cons, List.length_cons]
      congr 1
      omega
    · exact .inr ⟨'\\' :: c :: inside, c :: value, after, rfl, h.1.escaped, h.2⟩
  | case4 c rest seen hquote hescape ih =>
    by_cases hc : c = '\\'
    · subst hc
      cases rest with
      | nil => exact .inr ⟨[], [], ['\\'], rfl, .nil, .inr rfl, rfl⟩
      | cons d rest => exact absurd rfl (hescape d rest rfl)
    · rcases ih with ⟨inside, value, after, rfl, hquoted, heq⟩ | ⟨inside, value, after, rfl, h⟩
      · refine .inl ⟨c :: inside, c :: value, after, rfl, hquoted.plain hquote hc, ?_⟩
        rw [heq, List.length_cons]
        congr 1
        omega
      · exact .inr ⟨c :: inside, c :: value, after, rfl, h.1.plain hquote hc, h.2⟩

theorem fraction_take (text : List Char) : Fraction (text.take (fractionExtent text)) := by
  unfold fractionExtent
  split
  · rename_i d rest
    split
    · rename_i hd
      have htake : ('.' :: d :: rest).take (2 + (rest.takeWhile Character.isDigit).length) =
          '.' :: d :: rest.takeWhile Character.isDigit := by
        have h := take_length_takeWhile_add Character.isDigit rest 0
        rw [Nat.add_comm, List.take_succ_cons, List.take_succ_cons]
        simpa using h
      rw [htake]
      refine .some (List.cons_ne_nil _ _) fun e he => ?_
      rcases List.mem_cons.1 he with rfl | he
      · exact hd
      · exact List.mem_takeWhile_imp he
    · exact .none
  · exact .none

theorem Fraction.length_le {fraction text : List Char} (h : Fraction fraction)
    (hbegins : fraction <+: text) : fraction.length ≤ fractionExtent text := by
  cases h with
  | none => exact Nat.zero_le _
  | @some digits hne hdigits =>
    obtain ⟨after, rfl⟩ := hbegins
    cases digits with
    | nil => exact absurd rfl hne
    | cons d digits =>
      have hd : Character.isDigit d = true := hdigits d List.mem_cons_self
      have hlength : digits.length ≤ ((digits ++ after).takeWhile Character.isDigit).length := by
        rw [takeWhile_eq_of_forall fun e he => hdigits e (List.mem_cons_of_mem d he),
          List.length_append]
        exact Nat.le_add_right _ _
      simp only [List.cons_append, fractionExtent, if_pos hd, List.length_cons]
      omega

/-! ## What the first character decides -/

/-- The characters that operators, punctuation, comments and strings start with. -/
def marks : List Char :=
  ['(', ')', '{', '}', ',', '.', ';', ':', '?', '*', '/', '!', '=', '<', '>', '-', '+', '&', '|',
    '"']

theorem punctuation?_eq_none {c : Char} (h : c ∉ marks) : punctuation? c = none := by
  unfold punctuation?
  split <;> first | rfl | exact absurd (by decide) h

theorem operator?_eq_none {c : Char} (h : c ∉ marks) : operator? c = none := by
  unfold operator?
  split <;> first | rfl | exact absurd (by decide) h

theorem doubled?_eq_none {c : Char} (h : c ∉ marks) : doubled? c = none := by
  unfold doubled?
  split <;> first | rfl | exact absurd (by decide) h

/-- A segment that starts with no mark is a blank, a number or a word. -/
theorem extent_of_not_mem_marks {c : Char} (h : c ∉ marks) (rest : List Char) :
    extent c rest =
      if c = '\n' || Character.isBlank c then ⟨.skipped, 0⟩
      else if Character.isDigit c then number c rest
      else if Character.isNameStart c then word c rest
      else ⟨.malformed (.unexpectedCharacter c), 0⟩ := by
  have hslash : c ≠ '/' := fun hc => h (hc ▸ by decide)
  have hquote : c ≠ '"' := fun hc => h (hc ▸ by decide)
  unfold extent
  rw [punctuation?_eq_none h, operator?_eq_none h, doubled?_eq_none h, if_neg hslash,
    if_neg hquote]

/-- A character of one class is none of the characters that are not in it. -/
private theorem not_mem_of_class {p : Char → Bool} {others : List Char}
    (h : others.all (fun d => !p d) = true) {c : Char} (hc : p c = true) : c ∉ others := by
  intro hmem
  have hnot := List.all_eq_true.1 h c hmem
  rw [hc] at hnot
  cases hnot

private theorem isBlank_or_iff {c : Char} :
    (decide (c = '\n') || Character.isBlank c) = true ↔ c ∈ [' ', '\t', '\r', '\n'] := by
  simp only [Character.isBlank, Bool.or_eq_true, decide_eq_true_eq, beq_iff_eq, List.mem_cons,
    List.not_mem_nil, or_false]
  tauto

theorem extent_of_isDigit {c : Char} (h : Character.isDigit c = true) (rest : List Char) :
    extent c rest = number c rest := by
  have hmarks : c ∉ marks := not_mem_of_class (by decide) h
  have hblank : c ∉ [' ', '\t', '\r', '\n'] := not_mem_of_class (by decide) h
  rw [extent_of_not_mem_marks hmarks, if_neg (mt isBlank_or_iff.1 hblank), if_pos h]

theorem not_isDigit_of_isNameStart {c : Char} (h : Character.isNameStart c = true) :
    Character.isDigit c ≠ true := by
  intro hdigit
  simp only [Character.isNameStart, Character.isDigit, Bool.or_eq_true, Bool.and_eq_true,
    decide_eq_true_eq, beq_iff_eq, Char.le_def, UInt32.le_iff_toNat_le] at h hdigit
  have hnine : '9'.val.toNat = 57 := rfl
  have ha : 'a'.val.toNat = 97 := rfl
  have hA : 'A'.val.toNat = 65 := rfl
  rcases h with (h | h) | rfl
  · omega
  · omega
  · exact absurd hdigit.2 (by decide)

theorem extent_of_isNameStart {c : Char} (h : Character.isNameStart c = true) (rest : List Char) :
    extent c rest = word c rest := by
  have hmarks : c ∉ marks := not_mem_of_class (by decide) h
  have hblank : c ∉ [' ', '\t', '\r', '\n'] := not_mem_of_class (by decide) h
  rw [extent_of_not_mem_marks hmarks, if_neg (mt isBlank_or_iff.1 hblank),
    if_neg (not_isDigit_of_isNameStart h), if_pos h]

theorem not_mem_marks_of_blank {c : Char} (h : c ∈ [' ', '\t', '\r', '\n']) : c ∉ marks := by
  have hnone : [' ', '\t', '\r', '\n'].all (fun d => decide (d ∉ marks)) = true := by decide
  exact of_decide_eq_true (List.all_eq_true.1 hnone c h)

theorem extent_of_mem_blank {c : Char} (h : c ∈ [' ', '\t', '\r', '\n']) (rest : List Char) :
    extent c rest = ⟨.skipped, 0⟩ := by
  rw [extent_of_not_mem_marks (not_mem_marks_of_blank h), if_pos (isBlank_or_iff.2 h)]

/-! ## Nothing longer matches -/

/-- A segment is no longer than what is found at the start of a text, and if it is as long, it is
read alike. And something is found there. -/
structure Within (segment : Segment) (extent : Extent) : Prop where
  expected : ∀ c, extent.reading ≠ .malformed (.unexpectedCharacter c)
  length_le : segment.text.length ≤ extent.further + 1
  reading_eq : segment.text.length = extent.further + 1 → segment.reading = extent.reading

variable {c : Char} {rest : List Char}

private theorem within_of_lt {segment : Segment} {extent : Extent}
    (hexpected : ∀ c, extent.reading ≠ .malformed (.unexpectedCharacter c))
    (hlt : segment.text.length ≤ extent.further) : segment.Within extent where
  expected := hexpected
  length_le := Nat.le_succ_of_le hlt
  reading_eq h := by omega

private theorem within_of_eq {start : List Char} {reading : Reading} {further : Nat}
    (hexpected : ∀ c, reading ≠ .malformed (.unexpectedCharacter c))
    (hlength : start.length = further + 1) :
    Within ⟨start, reading⟩ ⟨reading, further⟩ where
  expected := hexpected
  length_le := Nat.le_of_eq hlength
  reading_eq _ := rfl

private theorem within_token {start : List Char} {kind : Token.Kind} {further : Nat}
    (hlength : start.length = further + 1) :
    Within ⟨start, .token kind none⟩ (.token kind further) :=
  within_of_eq (by rintro _ ⟨⟩) hlength

/-- A bare operator is not read as such where an equals sign extends it. -/
private theorem within_bare (c : Char) (bare extended : Token.Kind) (extends' : Prop)
    [Decidable extends'] :
    Within ⟨[c], .token bare none⟩ (if extends' then .token extended 1 else .token bare 0) := by
  split
  · exact within_of_lt (by rintro _ ⟨⟩) (Nat.le_refl _)
  · exact within_token rfl

theorem length_le_takeWhile {p : Char → Bool} {part text : List Char}
    (hpart : ∀ d ∈ part, p d = true) (hbegins : part <+: text) :
    part.length ≤ (text.takeWhile p).length := by
  obtain ⟨after, rfl⟩ := hbegins
  rw [takeWhile_eq_of_forall hpart, List.length_append]
  exact Nat.le_add_right _ _

private theorem within_slash : Within ⟨['/'], .token .slash none⟩ (slash rest) := by
  unfold slash
  split
  · refine within_of_lt (by rintro _ ⟨⟩) ?_
    rw [List.takeWhile_cons_of_pos (by decide), List.length_cons]
    exact Nat.succ_le_succ (Nat.zero_le _)
  · rename_i after
    unfold blockComment
    rcases commentExtent?_cases after 1 with ⟨body, _, _, _, heq⟩ | ⟨_, heq⟩
    · rw [List.drop_one, List.tail_cons, heq]
      refine within_of_lt (by rintro _ ⟨⟩) ?_
      show 1 ≤ 1 + body.length + 2
      omega
    · rw [List.drop_one, List.tail_cons, heq]
      exact within_of_lt (by rintro _ ⟨⟩) (Nat.succ_le_succ (Nat.zero_le _))
  · exact within_token rfl

private theorem within_operator {start : List Char} {kind : Token.Kind}
    (h : (start, kind) ∈ operators) (hbegins : start <+: c :: rest) :
    Within ⟨start, .token kind none⟩ (extent c rest) := by
  obtain ⟨after, hafter⟩ := hbegins
  simp only [operators, List.mem_cons, Prod.mk.injEq, List.not_mem_nil, or_false] at h
  rcases h with ⟨rfl, rfl⟩ | ⟨rfl, rfl⟩ | ⟨rfl, rfl⟩ | ⟨rfl, rfl⟩ | ⟨rfl, rfl⟩ | ⟨rfl, rfl⟩ |
    ⟨rfl, rfl⟩ | ⟨rfl, rfl⟩ | ⟨rfl, rfl⟩ | ⟨rfl, rfl⟩ | ⟨rfl, rfl⟩ | ⟨rfl, rfl⟩ | ⟨rfl, rfl⟩ |
    ⟨rfl, rfl⟩ | ⟨rfl, rfl⟩ | ⟨rfl, rfl⟩ | ⟨rfl, rfl⟩ | ⟨rfl, rfl⟩ | ⟨rfl, rfl⟩ | ⟨rfl, rfl⟩ |
    ⟨rfl, rfl⟩ | ⟨rfl, rfl⟩ | ⟨rfl, rfl⟩ | ⟨rfl, rfl⟩ | ⟨rfl, rfl⟩
  all_goals cases hafter
  all_goals first
    | exact within_slash
    | exact within_token rfl
    | exact within_bare _ _ _ _

private theorem within_string {inside value : List Char} (h : Quoted inside value)
    (hbegins : '"' :: (inside ++ ['"']) <+: c :: rest) :
    Within ⟨'"' :: (inside ++ ['"']), .token .string (some (.string (String.ofList value)))⟩
      (extent c rest) := by
  obtain ⟨after, hafter⟩ := hbegins
  rw [List.cons_append, List.append_assoc, List.singleton_append] at hafter
  cases hafter
  have hextent : extent '"' (inside ++ '"' :: after) =
      ⟨.token .string (some (.string (String.ofList value))), inside.length + 1⟩ := by
    show string _ = _
    unfold string
    rw [h.stringExtent?_closed, Nat.zero_add]
    dsimp only
    rw [Nat.add_sub_cancel, List.take_left, h.unescape_eq, List.reverse_nil, List.nil_append]
  rw [hextent]
  exact within_of_eq (by rintro _ ⟨⟩) (by simp)

private theorem within_lineComment {body : List Char} (h : '\n' ∉ body)
    (hbegins : '/' :: '/' :: body <+: c :: rest) :
    Within ⟨'/' :: '/' :: body, .skipped⟩ (extent c rest) := by
  obtain ⟨rfl, after, rfl⟩ := List.cons_prefix_cons.1 hbegins
  clear hbegins
  have hextent : extent '/' ('/' :: body ++ after) =
      ⟨.skipped, (('/' :: body ++ after).takeWhile (· != '\n')).length⟩ := rfl
  have hbody : ∀ d ∈ '/' :: body, (d != '\n') = true := by
    intro d hd
    rcases List.mem_cons.1 hd with rfl | hd
    · rfl
    · exact bne_iff_ne.2 (ne_of_mem_of_not_mem hd h)
  have hlength := length_le_takeWhile hbody ⟨after, rfl⟩
  rw [hextent]
  exact ⟨by rintro _ ⟨⟩, Nat.succ_le_succ hlength, fun _ => rfl⟩

private theorem within_blockComment {body : List Char} (h : ¬ ['*', '/'] <:+: body ++ ['*'])
    (hbegins : '/' :: '*' :: (body ++ ['*', '/']) <+: c :: rest) :
    Within ⟨'/' :: '*' :: (body ++ ['*', '/']), .skipped⟩ (extent c rest) := by
  obtain ⟨after, hafter⟩ := hbegins
  rw [List.cons_append, List.cons_append, List.append_assoc] at hafter
  cases hafter
  have hclosed : commentExtent? (body ++ (['*', '/'] ++ after)) 1 = some (1 + body.length + 2) :=
    commentExtent?_of_closed h after 1
  have hextent : extent '/' ('*' :: (body ++ (['*', '/'] ++ after))) =
      ⟨.skipped, 1 + body.length + 2⟩ := by
    show blockComment _ = _
    unfold blockComment
    rw [List.drop_one, List.tail_cons, hclosed]
  rw [hextent]
  exact within_of_eq (by rintro _ ⟨⟩) (by simp; omega)

private theorem within_word {d : Char} {part : List Char} (hstart : Character.isNameStart d = true)
    (hpart : ∀ e ∈ part, Character.isNamePart e = true) (hbegins : d :: part <+: c :: rest) :
    Within ⟨d :: part, .token (.ofWord (String.ofList (d :: part))) none⟩ (extent c rest) := by
  obtain ⟨rfl, hrest⟩ := List.cons_prefix_cons.1 hbegins
  rw [extent_of_isNameStart hstart]
  have hlength := length_le_takeWhile hpart hrest
  refine ⟨by rintro _ ⟨⟩, Nat.succ_le_succ hlength, fun heq => ?_⟩
  have hword : rest.takeWhile Character.isNamePart = part := by
    refine (List.prefix_of_prefix_length_le (List.takeWhile_prefix _) hrest ?_).eq_of_length ?_
    · exact Nat.le_of_eq (Nat.succ_inj.1 heq).symm
    · exact (Nat.succ_inj.1 heq).symm
  unfold word
  rw [hword]
  rfl

theorem numeral_ne_unexpected (digits text : List Char) (c : Char) :
    numeral digits text ≠ .malformed (.unexpectedCharacter c) := by
  unfold numeral
  split <;> rintro ⟨⟩

/-- How many characters of a number come after its first. -/
def numberExtent (rest : List Char) : Nat :=
  (rest.takeWhile Character.isDigit).length + fractionExtent (rest.dropWhile Character.isDigit)

theorem number_eq (c : Char) (rest : List Char) :
    number c rest =
      ⟨numeral (c :: rest.takeWhile Character.isDigit) (c :: rest.take (numberExtent rest)),
        numberExtent rest⟩ := by
  unfold number numeral numberExtent
  dsimp only
  split <;> rfl

/-- Digits and a fraction do not go beyond the number that is found, and if they go as far, the
digits are all that are found. -/
private theorem length_le_numberExtent {digits fraction : List Char}
    (hdigits : ∀ d ∈ digits, Character.isDigit d = true) (hfraction : Fraction fraction)
    (hbegins : digits ++ fraction <+: rest) :
    (digits ++ fraction).length ≤ numberExtent rest ∧
      ((digits ++ fraction).length = numberExtent rest →
        rest.takeWhile Character.isDigit = digits) := by
  unfold numberExtent
  cases hfraction with
  | none =>
    rw [List.append_nil] at hbegins ⊢
    have hlength := length_le_takeWhile hdigits hbegins
    refine ⟨Nat.le_trans hlength (Nat.le_add_right _ _), fun heq => ?_⟩
    have heq' : (rest.takeWhile Character.isDigit).length = digits.length := by omega
    exact (List.prefix_of_prefix_length_le (List.takeWhile_prefix _) hbegins
      (Nat.le_of_eq heq')).eq_of_length heq'
  | @some decimals hne hdecimals =>
    obtain ⟨after, rfl⟩ := hbegins
    have htake : (digits ++ '.' :: decimals ++ after).takeWhile Character.isDigit = digits := by
      rw [List.append_assoc, takeWhile_eq_of_forall hdigits, List.cons_append,
        List.takeWhile_cons_of_neg (by decide), List.append_nil]
    have hdrop : (digits ++ '.' :: decimals ++ after).dropWhile Character.isDigit =
        '.' :: decimals ++ after := by
      have h := @List.takeWhile_append_dropWhile _ Character.isDigit
        (digits ++ '.' :: decimals ++ after)
      rw [htake] at h
      exact List.append_cancel_left (h.trans (List.append_assoc _ _ _))
    rw [htake, hdrop, List.length_append]
    have hlength := (Fraction.some hne hdecimals).length_le ⟨after, rfl⟩
    exact ⟨Nat.add_le_add_left hlength _, fun _ => rfl⟩

private theorem within_number {digits fraction : List Char} (hne : digits ≠ [])
    (hdigits : ∀ d ∈ digits, Character.isDigit d = true) (hfraction : Fraction fraction)
    (hbegins : digits ++ fraction <+: c :: rest) :
    Within ⟨digits ++ fraction, numeral digits (digits ++ fraction)⟩ (extent c rest) := by
  cases digits with
  | nil => exact absurd rfl hne
  | cons d digits =>
    obtain ⟨rfl, hrest⟩ := List.cons_prefix_cons.1 hbegins
    rw [List.append_eq] at hrest
    have hdigits' : ∀ e ∈ digits, Character.isDigit e = true :=
      fun e he => hdigits e (List.mem_cons_of_mem d he)
    obtain ⟨hlength, htake⟩ := length_le_numberExtent hdigits' hfraction hrest
    rw [extent_of_isDigit (hdigits d List.mem_cons_self), number_eq]
    refine ⟨numeral_ne_unexpected _ _, Nat.succ_le_succ hlength, fun heq => ?_⟩
    have heq' : (digits ++ fraction).length = numberExtent rest := Nat.succ_inj.1 heq
    rw [htake heq', ← heq', ← List.prefix_iff_eq_take.1 hrest]
    rfl

theorem Form.within {start : List Char} {reading : Reading} (h : Form start reading)
    (hbegins : start <+: c :: rest) : Within ⟨start, reading⟩ (extent c rest) := by
  cases h with
  | blank h =>
    obtain ⟨rfl, -⟩ := List.cons_prefix_cons.1 hbegins
    rw [extent_of_mem_blank h]
    exact within_of_eq (by rintro _ ⟨⟩) rfl
  | lineComment h => exact within_lineComment h hbegins
  | blockComment h => exact within_blockComment h hbegins
  | string h => exact within_string h hbegins
  | number hne hdigits hfraction => exact within_number hne hdigits hfraction hbegins
  | word hstart hpart => exact within_word hstart hpart hbegins
  | operator h => exact within_operator h hbegins

theorem Unclosed.extent_eq {problem : Problem} (h : Unclosed (c :: rest) problem) :
    extent c rest = ⟨.malformed problem, rest.length⟩ := by
  have hstring : ∀ {inside value after : List Char}, Quoted inside value →
      after = [] ∨ after = ['\\'] → Segment.string (inside ++ after) =
        ⟨.malformed .unterminatedString, (inside ++ after).length⟩ := by
    intro inside value after hquoted hafter
    unfold Segment.string
    rw [hquoted.stringExtent?_open hafter]
  cases h with
  | string hquoted =>
    have h := hstring hquoted (.inl rfl)
    rw [List.append_nil] at h
    exact h
  | escape hquoted => exact hstring hquoted (.inr rfl)
  | @comment body hbody =>
    show blockComment ('*' :: body) = _
    unfold blockComment
    rw [List.drop_one, List.tail_cons]
    rcases commentExtent?_cases body 1 with ⟨body, after, rfl, -⟩ | ⟨-, heq⟩
    · exact absurd ⟨body, after, by simp⟩ hbody
    · rw [heq]

theorem Unclosed.ne_unexpected {text : List Char} {problem : Problem} (h : Unclosed text problem)
    (c : Char) : problem ≠ .unexpectedCharacter c := by
  cases h <;> rintro ⟨⟩

namespace Matches

variable {segment : Segment}

theorem isPrefix {text : List Char} (h : Matches text segment) : segment.text <+: text := by
  cases h with
  | form _ hbegins => exact hbegins
  | unclosed _ => exact List.prefix_refl _

theorem within (h : Matches (c :: rest) segment) : segment.Within (extent c rest) := by
  cases h with
  | form hform hbegins => exact hform.within hbegins
  | @unclosed problem h =>
    rw [h.extent_eq]
    exact within_of_eq (fun d heq => h.ne_unexpected d (Reading.malformed.inj heq)) rfl

/-- A segment that goes as far as the one that is found is that one. -/
theorem eq_first (h : Matches (c :: rest) segment)
    (hlength : segment.text.length = (extent c rest).further + 1) : segment = first c rest := by
  have hreading : segment.reading = (extent c rest).reading := h.within.reading_eq hlength
  have htext : segment.text = (c :: rest).take ((extent c rest).further + 1) := by
    rw [← hlength]
    exact List.prefix_iff_eq_take.1 h.isPrefix
  cases segment
  cases hreading
  cases htext
  rfl

end Matches

/-! ## What is found matches -/

theorem mem_operators_of_punctuation? {kind : Token.Kind} (h : punctuation? c = some kind) :
    ([c], kind) ∈ operators := by
  unfold punctuation? at h
  split at h <;> cases h <;> decide

theorem mem_operators_of_operator? {bare extended : Token.Kind}
    (h : operator? c = some (bare, extended)) :
    ([c], bare) ∈ operators ∧ ([c, '='], extended) ∈ operators := by
  unfold operator? at h
  split at h <;> cases h <;> decide

theorem mem_operators_of_doubled? {kind : Token.Kind} (h : doubled? c = some kind) :
    ([c, c], kind) ∈ operators := by
  unfold doubled? at h
  split at h <;> cases h <;> decide

/-- A segment that starts a text and goes as far as `extent` says. -/
def Found (text : List Char) (extent : Extent) : Prop :=
  ∃ segment, Matches text segment ∧ segment.text.length = extent.further + 1

private theorem found_of_form {text start : List Char} {reading : Reading} {extent : Extent}
    (hform : Form start reading) (hbegins : start <+: text)
    (hlength : start.length = extent.further + 1) : Found text extent :=
  ⟨⟨start, reading⟩, .form hform hbegins, hlength⟩

private theorem found_operator {text start : List Char} {kind : Token.Kind} {further : Nat}
    (h : (start, kind) ∈ operators) (hbegins : start <+: text)
    (hlength : start.length = further + 1) : Found text (.token kind further) :=
  found_of_form (.operator h) hbegins hlength

private theorem singleton_begins (c : Char) (rest : List Char) : [c] <+: c :: rest := ⟨rest, rfl⟩

private theorem found_slash : Found ('/' :: rest) (slash rest) := by
  unfold slash
  split
  · rename_i after
    refine found_of_form (@Form.lineComment (after.takeWhile (· != '\n')) ?_) ?_ ?_
    · intro hmem
      exact absurd (List.mem_takeWhile_imp hmem) (by decide)
    · rw [List.cons_prefix_cons, List.cons_prefix_cons]
      exact ⟨rfl, rfl, List.takeWhile_prefix _⟩
    · rw [List.takeWhile_cons_of_pos (by decide)]
      rfl
  · rename_i after
    unfold blockComment
    rw [List.drop_one, List.tail_cons]
    rcases commentExtent?_cases after 1 with ⟨body, after, rfl, hbody, heq⟩ | ⟨hbody, heq⟩
    · rw [heq]
      refine found_of_form (.blockComment hbody) ⟨after, by simp⟩ ?_
      simp only [List.length_cons, List.length_append, List.length_nil]
      omega
    · rw [heq]
      exact ⟨_, .unclosed (.comment hbody), rfl⟩
  · exact found_operator (by decide) (singleton_begins _ _) rfl

private theorem found_string : Found ('"' :: rest) (string rest) := by
  unfold string
  rcases stringExtent?_cases rest 0 with
    ⟨inside, value, after, rfl, hquoted, heq⟩ | ⟨inside, value, after, rfl, hquoted, hafter, heq⟩
  · rw [heq]
    refine found_of_form (.string hquoted) ⟨after, by simp⟩ ?_
    simp only [List.length_cons, List.length_append, List.length_nil]
    omega
  · rw [heq]
    rcases hafter with rfl | rfl
    · rw [List.append_nil]
      exact ⟨_, .unclosed (.string hquoted), rfl⟩
    · exact ⟨_, .unclosed (.escape hquoted), rfl⟩

theorem fractionExtent_le (text : List Char) : fractionExtent text ≤ text.length := by
  unfold fractionExtent
  split
  · rename_i d rest
    have hlength := (List.takeWhile_prefix Character.isDigit (l := rest)).length_le
    rw [List.length_cons, List.length_cons]
    split <;> omega
  · exact Nat.zero_le _

private theorem found_number (h : Character.isDigit c = true) :
    Found (c :: rest) (number c rest) := by
  rw [number_eq]
  have hdigits : ∀ d ∈ c :: rest.takeWhile Character.isDigit, Character.isDigit d = true := by
    intro d hd
    rcases List.mem_cons.1 hd with rfl | hd
    · exact h
    · exact List.mem_takeWhile_imp hd
  refine found_of_form (.number (List.cons_ne_nil _ _) hdigits
    (fraction_take (rest.dropWhile Character.isDigit))) ?_ ?_
  · rw [List.cons_append, ← take_length_takeWhile_add, List.cons_prefix_cons]
    exact ⟨rfl, List.take_prefix _ _⟩
  · rw [List.length_append, List.length_cons, List.length_take,
      Nat.min_eq_left (fractionExtent_le _), Nat.add_right_comm]
    rfl

private theorem found_word (h : Character.isNameStart c = true) :
    Found (c :: rest) (word c rest) := by
  refine found_of_form (.word h fun d hd => List.mem_takeWhile_imp hd) ?_ rfl
  rw [List.cons_prefix_cons]
  exact ⟨rfl, List.takeWhile_prefix _⟩

/-- What is found at the start of a text matches there, unless it is a character that nothing starts
with. -/
theorem found_or (c : Char) (rest : List Char) :
    Found (c :: rest) (extent c rest) ∨
      extent c rest = ⟨.malformed (.unexpectedCharacter c), 0⟩ := by
  unfold extent
  split
  · rename_i kind hkind
    exact .inl (found_operator (mem_operators_of_punctuation? hkind) (singleton_begins _ _) rfl)
  split
  · rename_i bare extended hkinds
    have hkinds' := mem_operators_of_operator? hkinds
    split
    · rename_i hhead
      obtain ⟨after, rfl⟩ := List.head?_eq_some_iff.1 hhead
      exact .inl (found_operator hkinds'.2 ⟨after, rfl⟩ rfl)
    · exact .inl (found_operator hkinds'.1 (singleton_begins _ _) rfl)
  split
  · rename_i kind hkind
    split
    · rename_i hhead
      obtain ⟨after, rfl⟩ := List.head?_eq_some_iff.1 hhead
      exact .inl (found_operator (mem_operators_of_doubled? hkind) ⟨after, rfl⟩ rfl)
    · exact .inr rfl
  split
  · rename_i hslash
    subst hslash
    exact .inl found_slash
  split
  · rename_i hquote
    subst hquote
    exact .inl found_string
  split
  · rename_i hblank
    exact .inl (found_of_form (.blank (isBlank_or_iff.1 hblank)) (singleton_begins _ _) rfl)
  split
  · rename_i hdigit
    exact .inl (found_number hdigit)
  split
  · rename_i hstart
    exact .inl (found_word hstart)
  · exact .inr rfl

/-- Scanning finds the longest segment that a text starts with. -/
theorem longest_iff {segment : Segment} :
    Longest (c :: rest) segment ↔ segment = first c rest := by
  rcases found_or c rest with ⟨found, hfound, hlength⟩ | hextent
  · have hfirst := hfound.eq_first hlength
    constructor
    · rintro (⟨hmatches, hmax⟩ | ⟨hnone, -⟩)
      · refine hmatches.eq_first (Nat.le_antisymm hmatches.within.length_le ?_)
        rw [← hlength]
        exact hmax found hfound
      · exact absurd hfound (hnone found)
    · rintro rfl
      rw [hfirst] at hfound hlength
      exact .inl ⟨hfound, fun other hother =>
        Nat.le_trans hother.within.length_le (Nat.le_of_eq hlength.symm)⟩
  · have hfirst : first c rest = ⟨[c], .malformed (.unexpectedCharacter c)⟩ := by
      unfold first
      rw [hextent]
      rfl
    have hnone : ∀ other, ¬ Matches (c :: rest) other := fun other hother =>
      hother.within.expected c (congrArg Extent.reading hextent)
    constructor
    · rintro (⟨hmatches, -⟩ | ⟨-, c', rest', heq, rfl⟩)
      · exact absurd hmatches (hnone segment)
      · cases heq
        exact hfirst.symm
    · rintro rfl
      exact .inr ⟨hnone, c, rest, rfl, hfirst⟩

end Lox.Segment
