/-
# White space around a text and behind its first word

What is left of a text without the white space around it (`Strips`) is what `trim` gives
(`trim_eq_iff`), so there is exactly one such text. Where white space or nothing follows a word,
`splitWord` cuts behind the word (`splitWord_append`), and every text without white space around it
is cut like that (`IsTrimmed.exists_gap`).
-/

import Lox.Text.WhiteSpace
import Mathlib.Data.List.DropRight

namespace Lox.Text

/-- Nothing but white space. -/
def IsBlank (text : List Char) : Prop := ∀ c ∈ text, isWhiteSpace c = true

instance (text : List Char) : Decidable (IsBlank text) :=
  decidable_of_iff (text.all isWhiteSpace = true) List.all_eq_true

/-- At least one character, and none of them white space. -/
structure IsWord (text : List Char) : Prop where
  ne_nil : text ≠ []
  isWhiteSpace_eq_false : ∀ c ∈ text, isWhiteSpace c = false

instance (text : List Char) : Decidable (IsWord text) :=
  decidable_of_iff (text ≠ [] ∧ text.all (!isWhiteSpace ·) = true) (by
    simp only [List.all_eq_true, Bool.not_eq_true']
    exact ⟨fun h => ⟨h.1, h.2⟩, fun h => ⟨h.ne_nil, h.isWhiteSpace_eq_false⟩⟩)

/-- No white space at either end. The empty text has no ends. -/
structure IsTrimmed (text : List Char) : Prop where
  head : ∀ c ∈ text.head?, isWhiteSpace c = false
  last : ∀ c ∈ text.getLast?, isWhiteSpace c = false

instance (text : List Char) : Decidable (IsTrimmed text) :=
  decidable_of_iff (text.head?.all (!isWhiteSpace ·) = true ∧
      text.getLast?.all (!isWhiteSpace ·) = true) (by
    simp only [Option.all_eq_true, Bool.not_eq_true']
    exact ⟨fun h => ⟨h.1, h.2⟩, fun h => ⟨h.head, h.last⟩⟩)

/-- A text, and what is left of it without the white space around it. White space inside what is
left stays as it is. -/
inductive Strips : List Char → List Char → Prop
  | mk {before inner after : List Char} (hbefore : IsBlank before) (hinner : IsTrimmed inner)
      (hafter : IsBlank after) : Strips (before ++ inner ++ after) inner

variable {before inner after text word rest : List Char}

theorem isBlank_nil : IsBlank [] := fun _ hc => absurd hc List.not_mem_nil

theorem IsBlank.append (hbefore : IsBlank before) (hafter : IsBlank after) :
    IsBlank (before ++ after) :=
  List.forall_mem_append.2 ⟨hbefore, hafter⟩

theorem isTrimmed_nil : IsTrimmed [] := ⟨nofun, nofun⟩

theorem IsWord.isTrimmed (h : IsWord word) : IsTrimmed word where
  head c hc := h.isWhiteSpace_eq_false c (List.mem_of_mem_head? hc)
  last c hc := h.isWhiteSpace_eq_false c (List.mem_of_mem_getLast? hc)

/-- What is between two texts does not count for the ends. -/
theorem IsTrimmed.append {first last : List Char} (hfirst : IsTrimmed first) (hne : first ≠ [])
    (between : List Char) (hlast : IsTrimmed last) (hne' : last ≠ []) :
    IsTrimmed (first ++ between ++ last) where
  head c hc := by
    rw [List.append_assoc, List.head?_append_of_ne_nil _ hne] at hc
    exact hfirst.head c hc
  last c hc := by
    rw [List.getLast?_append_of_ne_nil _ hne'] at hc
    exact hlast.last c hc

/-! ## Trimming -/

theorem trimStart_append (hbefore : IsBlank before) :
    trimStart (before ++ text) = trimStart text :=
  List.dropWhile_append_of_pos hbefore

theorem trimStart_eq_nil (h : IsBlank text) : trimStart text = [] :=
  List.dropWhile_eq_nil_iff.2 h

theorem trimStart_eq_self (h : ∀ c ∈ text.head?, isWhiteSpace c = false) :
    trimStart text = text := by
  cases text with
  | nil => rfl
  | cons c text => exact List.dropWhile_cons_of_neg (by rw [h c rfl]; exact Bool.false_ne_true)

theorem trimEnd_append (hafter : IsBlank after) : trimEnd (text ++ after) = trimEnd text := by
  unfold trimEnd
  rw [List.reverse_append,
    List.dropWhile_append_of_pos fun c hc => hafter c (List.mem_reverse.1 hc)]

theorem trimEnd_eq_self (h : ∀ c ∈ text.getLast?, isWhiteSpace c = false) :
    trimEnd text = text := by
  rw [← List.head?_reverse] at h
  have hreverse : text.reverse.dropWhile isWhiteSpace = text.reverse := trimStart_eq_self h
  rw [trimEnd, hreverse, List.reverse_reverse]

theorem Strips.trim_eq (h : Strips text inner) : trim text = inner := by
  obtain ⟨hbefore, hinner, hafter⟩ := h
  rw [List.append_assoc, trim, trimStart_append hbefore]
  cases inner with
  | nil =>
    rw [List.nil_append, trimStart_eq_nil hafter]
    rfl
  | cons c inner =>
    rw [@trimStart_eq_self (c :: inner ++ _) hinner.head, trimEnd_append hafter,
      trimEnd_eq_self hinner.last]

theorem head_trimStart (text : List Char) :
    ∀ c ∈ (trimStart text).head?, isWhiteSpace c = false := by
  intro c hc
  have h := List.head?_dropWhile_not isWhiteSpace text
  rw [trimStart, Option.mem_def] at hc
  rwa [hc] at h

theorem strips_trim (text : List Char) : Strips text (trim text) := by
  have hend : trim text ++ (trimStart text).rtakeWhile isWhiteSpace = trimStart text :=
    List.rdropWhile_append_rtakeWhile
  have hstart : text.takeWhile isWhiteSpace ++ trimStart text = text :=
    List.takeWhile_append_dropWhile
  have htrimmed : IsTrimmed (trim text) := by
    constructor
    · intro c hc
      exact head_trimStart text c (hend ▸ List.mem_head?_append_of_mem_head? hc)
    · intro c hc
      obtain ⟨hne, rfl⟩ := List.mem_getLast?_eq_getLast hc
      exact Bool.eq_false_iff.2 (List.rdropWhile_last_not isWhiteSpace _ hne)
  have h : Strips (text.takeWhile isWhiteSpace ++ trim text ++
      (trimStart text).rtakeWhile isWhiteSpace) (trim text) :=
    .mk (fun c hc => List.mem_takeWhile_imp hc) htrimmed (fun c hc => List.mem_rtakeWhile_imp hc)
  rwa [List.append_assoc, hend, hstart] at h

theorem IsTrimmed.strips (h : IsTrimmed text) : Strips text text := by
  have hstrips := Strips.mk isBlank_nil h isBlank_nil
  rwa [List.nil_append, List.append_nil] at hstrips

/-- Trimming finds what is left without the white space around it. -/
theorem trim_eq_iff : trim text = inner ↔ Strips text inner :=
  ⟨fun h => h ▸ strips_trim text, Strips.trim_eq⟩

/-! ## The first word -/

theorem splitWord_append (hword : ∀ c ∈ word, isWhiteSpace c = false)
    (hrest : ∀ c ∈ rest.head?, isWhiteSpace c = true) :
    splitWord (word ++ rest) = (word, trimStart rest) := by
  have hall : ∀ c ∈ word, (!isWhiteSpace c) = true := fun c hc => by rw [hword c hc]; rfl
  unfold splitWord
  rw [List.takeWhile_append_of_pos hall, List.dropWhile_append_of_pos hall]
  cases rest with
  | nil => rw [List.takeWhile_nil, List.append_nil]; rfl
  | cons c rest =>
    have hc : ¬ (!isWhiteSpace c) = true := by rw [hrest c rfl]; exact Bool.false_ne_true
    rw [@List.takeWhile_cons_of_neg _ (!isWhiteSpace ·) _ _ hc,
      @List.dropWhile_cons_of_neg _ (!isWhiteSpace ·) _ _ hc, List.append_nil]

theorem head_dropWhile_word (text : List Char) :
    ∀ c ∈ (text.dropWhile (!isWhiteSpace ·)).head?, isWhiteSpace c = true := by
  intro c hc
  have h := List.head?_dropWhile_not (!isWhiteSpace ·) text
  rw [Option.mem_def.1 hc] at h
  simpa using h

theorem IsTrimmed.isWord_splitWord (h : IsTrimmed text) (hne : text ≠ []) :
    IsWord (splitWord text).1 where
  ne_nil := by
    cases text with
    | nil => exact absurd rfl hne
    | cons c text =>
      have hc : (!isWhiteSpace c) = true := by rw [h.head c rfl]; rfl
      unfold splitWord
      rw [@List.takeWhile_cons_of_pos _ (!isWhiteSpace ·) _ _ hc]
      exact List.cons_ne_nil _ _
  isWhiteSpace_eq_false c hc := by
    have hnot := @List.mem_takeWhile_imp _ (!isWhiteSpace ·) _ _ hc
    rwa [Bool.not_eq_true'] at hnot

/-- A text without white space around it starts with a word, and where that is not all, there is
white space behind the word and then something else. -/
theorem IsTrimmed.exists_gap (h : IsTrimmed text) (hne : text ≠ []) :
    ∃ gap, text = (splitWord text).1 ++ gap ++ (splitWord text).2 ∧ IsWord (splitWord text).1 ∧
      IsBlank gap ∧ IsTrimmed (splitWord text).2 ∧ ((splitWord text).2 ≠ [] → gap ≠ []) := by
  let rest := text.dropWhile (!isWhiteSpace ·)
  let gap := rest.takeWhile isWhiteSpace
  have hgap : gap ++ (splitWord text).2 = rest := List.takeWhile_append_dropWhile
  have htext : (splitWord text).1 ++ gap ++ (splitWord text).2 = text := by
    rw [List.append_assoc, hgap]
    exact List.takeWhile_append_dropWhile
  refine ⟨gap, htext.symm, h.isWord_splitWord hne, fun c hc => List.mem_takeWhile_imp hc,
    ⟨head_trimStart rest, ?_⟩, ?_⟩
  · intro c hc
    have hsome : (splitWord text).2 ≠ [] := by
      intro hnone
      rw [hnone] at hc
      cases hc
    rw [← List.getLast?_append_of_ne_nil _ hsome, htext] at hc
    exact h.last c hc
  · intro hsome hnone
    rw [hnone, List.nil_append] at hgap
    obtain ⟨c, hc⟩ := Option.isSome_iff_exists.1 (List.isSome_head?.2 hsome)
    have hnot : isWhiteSpace c = false := head_trimStart rest c hc
    rw [hgap] at hc
    have hblank : isWhiteSpace c = true := head_dropWhile_word text c hc
    rw [hnot] at hblank
    cases hblank

end Lox.Text
