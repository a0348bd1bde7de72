/-
# Segments in front of white space

No word, number, operator or string goes on behind white space, and a comment to the end of its line
goes on behind no line break. So a segment stays what it is when white space follows that could not
follow it before, unless it is a string or a comment that was never closed: those would take the
white space along (`extent_append_blank`). In particular a line break behind a text leaves all of
its closed segments as they are (`split_append_newline`), malformed ones included, and what has the
form of a token is a segment wherever it stands in front of white space (`Form.longest_before`).
-/

import Lox.Proofs.Token.Partition

namespace Lox.Segment

/-- Nothing is left open: the segment does not run to the end of the text for want of a closing
mark. -/
def Reading.Closed (reading : Reading) : Prop :=
  reading ≠ .malformed .unterminatedString ∧ reading ≠ .malformed .unterminatedComment

variable {c d : Char} {rest after : List Char}

/-! ## How far a segment extends -/

/-- White space is in no class of characters that has none of it. -/
theorem eq_false_of_blank {p : Char → Bool}
    (hp : [' ', '\t', '\r', '\n'].all (fun d => !p d) = true) (hd : d ∈ [' ', '\t', '\r', '\n']) :
    p d = false := by
  have hnot := List.all_eq_true.1 hp d hd
  rwa [Bool.not_eq_true'] at hnot

theorem ne_of_blank {e : Char} (he : [' ', '\t', '\r', '\n'].all (fun d => !(d == e)) = true)
    (hd : d ∈ [' ', '\t', '\r', '\n']) : d ≠ e :=
  beq_eq_false_iff_ne.1 (eq_false_of_blank (p := (· == e)) he hd)

theorem takeWhile_append_of_eq_false {p : Char → Bool} (hp : p d = false) :
    (rest ++ d :: after).takeWhile p = rest.takeWhile p := by
  induction rest with
  | nil => exact List.takeWhile_cons_of_neg (by rw [hp]; exact Bool.false_ne_true)
  | cons e rest ih => rw [List.cons_append, List.takeWhile_cons, List.takeWhile_cons, ih]

theorem dropWhile_append_of_eq_false {p : Char → Bool} (hp : p d = false) :
    (rest ++ d :: after).dropWhile p = rest.dropWhile p ++ d :: after := by
  induction rest with
  | nil => exact List.dropWhile_cons_of_neg (by rw [hp]; exact Bool.false_ne_true)
  | cons e rest ih =>
    rw [List.cons_append, List.dropWhile_cons, List.dropWhile_cons, ih]
    split <;> rfl

theorem fractionExtent_eq_zero (h : c ≠ '.') (rest : List Char) :
    fractionExtent (c :: rest) = 0 := by
  unfold fractionExtent
  split
  · rename_i heq
    cases heq
    exact absurd rfl h
  · rfl

theorem fractionExtent_append_blank (hd : d ∈ [' ', '\t', '\r', '\n']) :
    fractionExtent (rest ++ d :: after) = fractionExtent rest := by
  have hdigit : Character.isDigit d = false := eq_false_of_blank (by decide) hd
  cases rest with
  | nil => exact fractionExtent_eq_zero (ne_of_blank (by decide) hd) after
  | cons e rest =>
    by_cases hpoint : e = '.'
    · subst hpoint
      cases rest with
      | nil => simp [fractionExtent, hdigit]
      | cons e rest =>
        have htake := @takeWhile_append_of_eq_false d rest after Character.isDigit hdigit
        simp only [List.cons_append, fractionExtent, htake]
    · exact (fractionExtent_eq_zero hpoint _).trans (fractionExtent_eq_zero hpoint rest).symm

theorem numberExtent_append_blank (hd : d ∈ [' ', '\t', '\r', '\n']) :
    numberExtent (rest ++ d :: after) = numberExtent rest := by
  have hdigit : Character.isDigit d = false := eq_false_of_blank (by decide) hd
  unfold numberExtent
  rw [takeWhile_append_of_eq_false hdigit, dropWhile_append_of_eq_false hdigit,
    fractionExtent_append_blank hd]

theorem numberExtent_le (rest : List Char) : numberExtent rest ≤ rest.length := by
  have hlength := congrArg List.length (@List.takeWhile_append_dropWhile _ Character.isDigit rest)
  have hfraction := fractionExtent_le (rest.dropWhile Character.isDigit)
  rw [List.length_append] at hlength
  unfold numberExtent
  omega

theorem number_append_blank (hd : d ∈ [' ', '\t', '\r', '\n']) :
    number c (rest ++ d :: after) = number c rest := by
  have hdigit : Character.isDigit d = false := eq_false_of_blank (by decide) hd
  rw [number_eq, number_eq, numberExtent_append_blank hd, takeWhile_append_of_eq_false hdigit,
    List.take_append_of_le_length (numberExtent_le rest)]

/-- A block comment that is closed is closed already. -/
theorem blockComment_append (hclosed : (blockComment rest).reading.Closed) (after : List Char) :
    blockComment (rest ++ after) = blockComment rest := by
  cases rest with
  | nil => exact absurd rfl hclosed.2
  | cons e rest =>
    unfold blockComment at hclosed ⊢
    rw [List.cons_append, List.drop_one, List.drop_one, List.tail_cons, List.tail_cons] at *
    rcases commentExtent?_cases rest 1 with ⟨body, behind, rfl, hbody, heq⟩ | ⟨-, heq⟩
    · rw [heq, List.append_assoc, List.cons_append, List.cons_append,
        commentExtent?_of_closed hbody]
    · rw [heq] at hclosed
      exact absurd rfl hclosed.2

/-- A string that is closed is closed already. -/
theorem string_append (hclosed : (string rest).reading.Closed) (after : List Char) :
    string (rest ++ after) = string rest := by
  unfold string at hclosed ⊢
  rcases stringExtent?_cases rest 0 with
    ⟨inside, value, behind, rfl, hquoted, heq⟩ | ⟨_, _, _, -, -, -, heq⟩
  · have htake : ∀ text : List Char,
        (inside ++ '"' :: text).take (0 + inside.length + 1 - 1) = inside := by
      intro text
      rw [Nat.zero_add, Nat.add_sub_cancel, List.take_left]
    rw [heq, List.append_assoc, List.cons_append, hquoted.stringExtent?_closed]
    dsimp only
    rw [htake, htake]
  · rw [heq] at hclosed
    exact absurd rfl hclosed.1

/-- Of all that starts with a slash, only a comment to the end of its line would take blanks within
the line along. -/
theorem slash_append_blank (hd : d ∈ [' ', '\t', '\r', '\n'])
    (hline : d = '\n' ∨ (slash rest).reading ≠ .skipped) (hclosed : (slash rest).reading.Closed) :
    slash (rest ++ d :: after) = slash rest := by
  have hsign : ∀ {e : Char} {text : List Char}, e ≠ '/' → e ≠ '*' →
      slash (e :: text) = .token .slash 0 := by
    intro e text hslash hstar
    unfold slash
    split
    · rename_i heq
      cases heq
      exact absurd rfl hslash
    · rename_i heq
      cases heq
      exact absurd rfl hstar
    · rfl
  cases rest with
  | nil => exact hsign (ne_of_blank (by decide) hd) (ne_of_blank (by decide) hd)
  | cons e rest =>
    by_cases hslash : e = '/'
    · subst hslash
      have hnewline : d = '\n' := hline.resolve_right fun h => h rfl
      show Extent.mk .skipped _ = Extent.mk .skipped _
      rw [takeWhile_append_of_eq_false (by rw [hnewline]; rfl)]
    · by_cases hstar : e = '*'
      · subst hstar
        exact blockComment_append hclosed _
      · exact (hsign hslash hstar).trans (hsign hslash hstar).symm

/-- A closed segment does not go on behind white space, unless it is a comment to the end of its
line and the line does not end there. -/
theorem extent_append_blank (hd : d ∈ [' ', '\t', '\r', '\n'])
    (hline : d = '\n' ∨ (extent c rest).reading ≠ .skipped)
    (hclosed : (extent c rest).reading.Closed) :
    extent c (rest ++ d :: after) = extent c rest := by
  have hhead : ∀ {e : Char}, d ≠ e →
      ((rest ++ d :: after).head? = some e ↔ rest.head? = some e) := by
    intro e he
    cases rest with
    | nil => exact ⟨fun h => absurd (Option.some.inj h) he, fun h => by cases h⟩
    | cons e' rest => exact Iff.rfl
  unfold extent at hline hclosed ⊢
  generalize punctuation? c = punctuation at hline hclosed ⊢
  cases punctuation with
  | some kind => rfl
  | none =>
    generalize operator? c = operator at hline hclosed ⊢
    cases operator with
    | some kinds => simp only [hhead (ne_of_blank (e := '=') (by decide) hd)]
    | none =>
      cases hkind : doubled? c with
      | some kind =>
        have hc : d ≠ c := by
          rintro rfl
          rw [doubled?_eq_none (not_mem_marks_of_blank hd)] at hkind
          cases hkind
        simp only [hhead hc]
      | none =>
        rw [hkind] at hline hclosed
        dsimp only at hline hclosed ⊢
        split
        · rename_i hslash
          rw [if_pos hslash] at hline hclosed
          exact slash_append_blank hd hline hclosed
        rename_i hslash
        rw [if_neg hslash] at hclosed
        split
        · rename_i hquote
          rw [if_pos hquote] at hclosed
          exact string_append hclosed _
        split
        · rfl
        split
        · exact number_append_blank hd
        split
        · unfold word
          rw [takeWhile_append_of_eq_false (eq_false_of_blank (by decide) hd)]
        · rfl

theorem further_le (c : Char) (rest : List Char) : (extent c rest).further ≤ rest.length := by
  rcases found_or c rest with ⟨segment, hmatches, hlength⟩ | hextent
  · have hle := hmatches.isPrefix.length_le
    rw [hlength] at hle
    exact Nat.le_of_succ_le_succ hle
  · rw [hextent]
    exact Nat.zero_le _

/-! ## Texts in front of white space -/

theorem problem?_eq_none_iff {segment : Segment} :
    segment.problem? = none ↔ ∀ problem, segment.reading ≠ .malformed problem := by
  unfold problem?
  split
  · rename_i problem h
    constructor
    · intro hnone
      cases hnone
    · intro hnone
      exact absurd h (hnone problem)
  · rename_i h
    exact ⟨fun _ => h, fun _ => rfl⟩

/-- What is not malformed is closed. -/
theorem closed_of_problem?_eq_none {segment : Segment} (h : segment.problem? = none) :
    segment.reading.Closed :=
  ⟨problem?_eq_none_iff.1 h _, problem?_eq_none_iff.1 h _⟩

/-- The closed segments of a text stay as they are when a line break follows. -/
theorem split_append_newline {text : List Char}
    (h : ∀ segment ∈ split text, segment.reading.Closed) (after : List Char) :
    split (text ++ '\n' :: after) = split text ++ ⟨['\n'], .skipped⟩ :: split after := by
  induction hlength : text.length using Nat.strongRecOn generalizing text with
  | _ length ih =>
    cases text with
    | nil => exact split_cons '\n' after
    | cons c rest =>
      rw [split_cons] at h
      obtain ⟨hfirst, hrest⟩ := List.forall_mem_cons.1 h
      have hextent := @extent_append_blank c '\n' rest after (by simp) (.inl rfl) hfirst
      have hshorter : (rest.drop (extent c rest).further).length < length := by
        rw [← hlength]
        exact Nat.lt_succ_of_le (length_drop_extent_le (Nat.le_refl _))
      have hsplit := ih _ hshorter hrest rfl
      rw [List.cons_append, split_cons, split_cons, first, first, hextent,
        List.drop_append_of_le_length (further_le c rest),
        List.take_append_of_le_length (further_le c rest), hsplit]
      rfl

/-- What has the form of a segment is the longest one if no segment goes further. -/
theorem Form.longest {taken : List Char} {reading : Reading} (h : Form (c :: taken) reading)
    (hle : (extent c (taken ++ rest)).further ≤ taken.length) :
    Longest (c :: taken ++ rest) ⟨c :: taken, reading⟩ := by
  have hmatches : Matches (c :: (taken ++ rest)) ⟨c :: taken, reading⟩ :=
    .form h (List.prefix_append (c :: taken) rest)
  exact longest_iff.2 (hmatches.eq_first
    (Nat.le_antisymm hmatches.within.length_le (Nat.succ_le_succ hle)))

/-- What has the form of a token is a segment in front of white space and at the end of a text. -/
theorem Form.longest_before {text : List Char} {kind : Token.Kind}
    {literal : Option Token.Literal} (h : Form text (.token kind literal))
    (hafter : ∀ d ∈ after.head?, d ∈ [' ', '\t', '\r', '\n']) :
    Longest (text ++ after) ⟨text, .token kind literal⟩ := by
  cases text with
  | nil => exact absurd rfl h.ne_nil
  | cons c taken =>
    have hle := further_le c taken
    cases after with
    | nil => exact h.longest (by rwa [List.append_nil])
    | cons d after =>
      have hend : Longest (c :: taken ++ []) ⟨c :: taken, .token kind literal⟩ :=
        h.longest (by rwa [List.append_nil])
      rw [List.append_nil] at hend
      have hfirst : ⟨c :: taken, .token kind literal⟩ = first c taken := longest_iff.1 hend
      have hreading : (extent c taken).reading = .token kind literal :=
        (congrArg Segment.reading hfirst).symm
      have hextent := @extent_append_blank c d taken after (hafter d rfl)
        (.inr (by rw [hreading]; rintro ⟨⟩))
        (by rw [hreading]; constructor <;> rintro ⟨⟩)
      exact h.longest (by rwa [hextent])

end Lox.Segment
