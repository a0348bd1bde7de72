/-
# Texts that are one literal

What has the form of a literal is a single segment when nothing comes after it
(`Segment.Form.split_eq`), so scanning it comes to one token or one error (`Token.scan_literal`).

A string literal can be written for every text: a backslash before each quote and each backslash is
enough, and more of them change nothing (`Segment.Quoted`). A number literal stands for the number
that its digits before the point are in decimal notation (`Segment.decimal`), however many of them
are leading zeros, as long as that number fits 64 bits. The decimal notation of a number is such a
literal, and it stands for the number again (`Segment.form_toDigits`).
-/

import Lox.Proofs.Token.Joined
import Lox.Proofs.Value.Arithmetic
import Mathlib.Data.Nat.Digits.Defs

namespace Lox

namespace Segment

/-- What has the form of a segment is a single one when nothing comes after it. -/
theorem Form.split_eq {text : List Char} {reading : Reading} (h : Form text reading) :
    split text = [⟨text, reading⟩] := by
  cases text with
  | nil => exact absurd rfl h.ne_nil
  | cons c taken =>
    have hlongest : Longest (c :: taken ++ []) ⟨c :: taken, reading⟩ :=
      h.longest (by rw [List.append_nil]; exact further_le c taken)
    have hsplit := @split_text_append ⟨c :: taken, reading⟩ [] hlongest
    rwa [List.append_nil] at hsplit

/-- The same characters are read as one thing only. -/
theorem Form.unique {text : List Char} {reading reading' : Reading} (h : Form text reading)
    (h' : Form text reading') : reading = reading' := by
  have hsplit := h.split_eq.symm.trans h'.split_eq
  cases hsplit
  rfl

end Segment

namespace Token

/-- A text that has the form of a token is scanned to that token alone, on the line it ends on. -/
theorem scan_form {text : List Char} {kind : Kind} {literal : Option Literal}
    (h : Segment.Form text (.token kind literal)) :
    scan (String.ofList text) =
      .ok [⟨kind, String.ofList text, literal, 1 + text.count '\n'⟩,
        endOfInput (1 + text.count '\n')] := by
  have hsplit := h.split_eq
  rw [scan_eq_ok_iff, lineCount, String.toList_ofList, hsplit]
  exact ⟨List.forall_mem_singleton.2 rfl, rfl⟩

/-- A text that has the form of something malformed is scanned to the report of it. -/
theorem scan_malformed {text : List Char} {problem : Segment.Problem}
    (h : Segment.Form text (.malformed problem)) (hcomment : problem ≠ .unterminatedComment) :
    scan (String.ofList text) = .error [⟨problem, 1 + text.count '\n'⟩] := by
  have hproblem : ¬ ∀ segment ∈ [(⟨text, .malformed problem⟩ : Segment)],
      segment.problem? = none := fun hnone => by
    cases hnone _ List.mem_cons_self
  rw [scan_eq, String.toList_ofList, h.split_eq, if_neg hproblem]
  cases problem with
  | unterminatedComment => exact absurd rfl hcomment
  | _ => rfl

end Token

/-! ## Strings -/

namespace Segment

namespace Quoted

variable {inside value value' : List Char}

/-- What stands between the quotes stands for one text only. -/
theorem unique (h : Quoted inside value) (h' : Quoted inside value') : value = value' := by
  have hvalue := h.unescape_eq []
  rw [h'.unescape_eq []] at hvalue
  exact hvalue.symm

/-- Every text can be written between quotes. -/
theorem exists_inside (value : List Char) : ∃ inside, Quoted inside value := by
  induction value with
  | nil => exact ⟨[], .nil⟩
  | cons c value ih =>
    obtain ⟨inside, h⟩ := ih
    exact ⟨'\\' :: c :: inside, h.escaped⟩

/-- Backslashes end no line, so a text has as many line breaks as what it is written as. -/
theorem count_newline (h : Quoted inside value) : inside.count '\n' = value.count '\n' := by
  induction h with
  | nil => rfl
  | plain _ _ _ ih => rw [List.count_cons, List.count_cons, ih]
  | escaped _ ih =>
    rw [List.count_cons_of_ne (by decide), List.count_cons, List.count_cons, ih]

end Quoted

/-- Only a string is read as a token of that kind. -/
theorem Form.exists_quoted {text : List Char} {literal : Option Token.Literal}
    (h : Form text (.token .string literal)) :
    ∃ inside value, Quoted inside value ∧ text = '"' :: (inside ++ ['"']) ∧
      literal = some (.string (String.ofList value)) := by
  generalize hreading : Reading.token .string literal = reading at h
  cases h with
  | string hquoted =>
    cases hreading
    exact ⟨_, _, hquoted, rfl, rfl⟩
  | number _ _ _ =>
    unfold numeral at hreading
    split at hreading <;> cases hreading
  | word _ _ =>
    have hkind := (Reading.token.inj hreading).1
    unfold Token.Kind.ofWord at hkind
    split at hkind <;> cases hkind
  | operator hmem =>
    cases hreading
    exact absurd rfl ((by decide : ∀ operator ∈ operators, operator.2 ≠ .string) _ hmem)
  | _ => cases hreading

end Segment

open Segment in
/-- String literals can denote every text. Put a backslash before each quote and each backslash of a
text, and before any other characters: between quotes this is scanned to one string token, whose
text is the whole input, whose value is the text that was written, and which is on the line that the
text ends on. There is such a literal for every text. Conversely, every string token of any input
has been written like this: its value is what stands between its quotes without the backslashes
that take the character behind them along, and it is no other text. -/
theorem Token.strings_denote_every_text :
    (∀ value, ∃ inside, Quoted inside value) ∧
    (∀ inside value, Quoted inside value →
      scan (String.ofList ('"' :: (inside ++ ['"']))) =
        .ok [⟨.string, String.ofList ('"' :: (inside ++ ['"'])),
            some (.string (String.ofList value)), 1 + value.count '\n'⟩,
          endOfInput (1 + value.count '\n')]) ∧
    ∀ source tokens, scan source = .ok tokens → ∀ token ∈ tokens, token.kind = .string →
      ∃ inside value, Quoted inside value ∧
        token.lexeme = String.ofList ('"' :: (inside ++ ['"'])) ∧
        token.literal = some (.string (String.ofList value)) ∧
        ∀ value', Quoted inside value' → value' = value := by
  refine ⟨Quoted.exists_inside, fun inside value hquoted => ?_,
    fun source tokens hscan token htoken hkind => ?_⟩
  · have hlines : ('"' :: (inside ++ ['"'])).count '\n' = value.count '\n' := by
      rw [List.count_cons_of_ne (by decide), List.count_append, hquoted.count_newline]
      rfl
    rw [← hlines]
    exact scan_form (.string hquoted)
  · obtain ⟨-, rfl⟩ := scan_eq_ok_iff.1 hscan
    rcases List.mem_append.1 htoken with htoken | htoken
    · have hform := form_of_mem_collect htoken
      rw [hkind] at hform
      obtain ⟨inside, value, hquoted, hlexeme, hliteral⟩ := hform.exists_quoted
      refine ⟨inside, value, hquoted, ?_, hliteral, fun value' h => h.unique hquoted⟩
      rw [← hlexeme, String.ofList_toList]
    · rw [List.mem_singleton.1 htoken] at hkind
      cases hkind

open Segment in
/-- A backslash does not hide the line break behind it, and behind another backslash it does not
take a quote along. -/
theorem Token.strings_denote_every_text_over_lines :
    scan "\"\\\n\\\"\\\\\"" =
      .ok [⟨.string, "\"\\\n\\\"\\\\\"", some (.string "\n\"\\"), 2⟩, endOfInput 2] ∧
    ∃ inside value, Quoted inside value ∧
      "\"\\\n\\\"\\\\\"" = String.ofList ('"' :: (inside ++ ['"'])) ∧
      some (Literal.string "\n\"\\") = some (.string (String.ofList value)) ∧
      ∀ value', Quoted inside value' → value' = value := by
  have hscan : scan "\"\\\n\\\"\\\\\"" =
      .ok [⟨.string, "\"\\\n\\\"\\\\\"", some (.string "\n\"\\"), 2⟩, endOfInput 2] :=
    strings_denote_every_text.2.1 ['\\', '\n', '\\', '"', '\\', '\\'] ['\n', '"', '\\']
      (.escaped (.escaped (.escaped .nil)))
  exact ⟨hscan, strings_denote_every_text.2.2 _ _ hscan _ List.mem_cons_self rfl⟩

/-! ## Numbers -/

namespace Segment

/-- The number that digits stand for in decimal notation: the last digit counts ones, the one before
it tens, and so on. -/
def decimal (digits : List Char) : Nat :=
  Nat.ofDigits 10 (digits.reverse.map fun d => d.toNat - '0'.toNat)

theorem decimal_append_singleton (digits : List Char) (d : Char) :
    decimal (digits ++ [d]) = 10 * decimal digits + (d.toNat - '0'.toNat) := by
  unfold decimal
  rw [List.reverse_append, List.reverse_singleton, List.singleton_append, List.map_cons,
    Nat.ofDigits_cons, Nat.add_comm]

/-- Reading digits from the left comes to what they stand for. -/
theorem ofDigitChars_eq_decimal (digits : List Char) :
    Nat.ofDigitChars 10 digits 0 = decimal digits := by
  induction digits using List.reverseRecOn with
  | nil => rfl
  | append_singleton digits d ih =>
    rw [Nat.ofDigitChars_append, ih, decimal_append_singleton]
    rfl

theorem maxNumber_eq : maxNumber = 2 ^ 63 - 1 := rfl

/-- A natural number that fits is a number. -/
theorem toInt_ofNat {value : Nat} (h : value ≤ 2 ^ 63 - 1) :
    (Int64.ofNat value).toInt = value :=
  Int64.toInt_ofNat_of_lt (by omega)

theorem numeral_of_le {digits text : List Char} (h : decimal digits ≤ 2 ^ 63 - 1) :
    numeral digits text = .token .number (some (.number (Int64.ofNat (decimal digits)))) := by
  unfold numeral
  rw [ofDigitChars_eq_decimal, maxNumber_eq, if_pos h]

theorem numeral_of_lt {digits text : List Char} (h : 2 ^ 63 - 1 < decimal digits) :
    numeral digits text = .malformed (.numberTooLarge (String.ofList text)) := by
  unfold numeral
  rw [ofDigitChars_eq_decimal, maxNumber_eq, if_neg (Nat.not_le.2 h)]

/-- The class of digits is that of the decimal digits. -/
theorem isDigit_of_mem_toDigits {value : Nat} {d : Char} (h : d ∈ Nat.toDigits 10 value) :
    Character.isDigit d = true := by
  have hdigit := Nat.isDigit_of_mem_toDigits (by decide) (by decide) h
  simpa [Char.isDigit, Character.isDigit, Char.le_def] using hdigit

/-- The decimal notation of a number that is not too large is read as the number. -/
theorem numeral_toDigits {value : Nat} (h : value ≤ 2 ^ 63 - 1) (text : List Char) :
    numeral (Nat.toDigits 10 value) text =
      .token .number (some (.number (Int64.ofNat value))) := by
  have hvalue : decimal (Nat.toDigits 10 value) = value := by
    rw [← ofDigitChars_eq_decimal]
    exact Nat.ofDigitChars_ten_toDigits
  rw [numeral_of_le (by rwa [hvalue]), hvalue]

theorem form_toDigits {value : Nat} (h : value ≤ 2 ^ 63 - 1) :
    Form (Nat.toDigits 10 value) (.token .number (some (.number (Int64.ofNat value)))) := by
  have hform := Form.number Nat.toDigits_ne_nil
    (fun d (hd : d ∈ Nat.toDigits 10 value) => isDigit_of_mem_toDigits hd) .none
  rwa [numeral_toDigits h, List.append_nil] at hform

/-- A number ends in front of a character that is no digit and no point. -/
theorem longest_digits {digits : List Char} {c : Char} (hne : digits ≠ [])
    (hdigits : ∀ d ∈ digits, Character.isDigit d = true) (hdigit : Character.isDigit c = false)
    (hpoint : c ≠ '.') (after : List Char) :
    Longest (digits ++ c :: after) ⟨digits, numeral digits digits⟩ := by
  have hform := Form.number hne hdigits .none
  rw [List.append_nil] at hform
  cases digits with
  | nil => exact absurd rfl hne
  | cons d digits =>
    refine hform.longest ?_
    obtain ⟨hd, hdigits⟩ := List.forall_mem_cons.1 hdigits
    have hnone : digits.dropWhile Character.isDigit = [] := List.dropWhile_eq_nil_iff.2 hdigits
    rw [extent_of_isDigit hd, number_eq]
    unfold numberExtent
    rw [takeWhile_append_of_eq_false hdigit, dropWhile_append_of_eq_false hdigit, hnone,
      List.nil_append, fractionExtent_eq_zero hpoint, List.takeWhile_eq_self_iff.2 hdigits]
    exact Nat.le_refl _

theorem newline_not_mem_digits {digits : List Char}
    (h : ∀ d ∈ digits, Character.isDigit d = true) : '\n' ∉ digits :=
  fun hmem => absurd (h _ hmem) (by decide)

theorem Fraction.newline_not_mem {fraction : List Char} (h : Fraction fraction) :
    '\n' ∉ fraction := by
  cases h with
  | none => exact List.not_mem_nil
  | some hne hdigits =>
    have hpoint : '\n' ≠ '.' := by decide
    exact List.not_mem_cons_of_ne_of_not_mem hpoint (newline_not_mem_digits hdigits)

end Segment

open Segment in
/-- Digits with or without a fraction are scanned to one number token for what the digits stand for,
if that fits, and otherwise to nothing but the report that they are too large, which quotes the
fraction as well. -/
theorem Token.scan_number {digits fraction : List Char} (hne : digits ≠ [])
    (hdigits : ∀ d ∈ digits, Character.isDigit d = true) (hfraction : Fraction fraction) :
    (decimal digits ≤ 2 ^ 63 - 1 → ∃ n : Int64, n.toInt = decimal digits ∧
      scan (String.ofList (digits ++ fraction)) =
        .ok [⟨.number, String.ofList (digits ++ fraction), some (.number n), 1⟩, endOfInput 1]) ∧
    (2 ^ 63 - 1 < decimal digits → scan (String.ofList (digits ++ fraction)) =
      .error [⟨.numberTooLarge (String.ofList (digits ++ fraction)), 1⟩]) := by
  have hform := Form.number hne hdigits hfraction
  have hlines : (digits ++ fraction).count '\n' = 0 := by
    rw [List.count_append, List.count_eq_zero.2 (newline_not_mem_digits hdigits),
      List.count_eq_zero.2 hfraction.newline_not_mem]
  constructor
  · intro hle
    rw [numeral_of_le hle] at hform
    have hscan := scan_form hform
    rw [hlines] at hscan
    exact ⟨_, toInt_ofNat hle, hscan⟩
  · intro hlt
    rw [numeral_of_lt hlt] at hform
    have hscan := scan_malformed hform (by rintro ⟨⟩)
    rwa [hlines] at hscan

end Lox
