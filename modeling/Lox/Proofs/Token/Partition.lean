/-
# Scanning is a partition into longest segments

A text falls in exactly one way into segments of which each is the longest that starts where the one
before ends, and these are the segments that scanning goes through. So the outcome of scanning can
be told from this partition alone: the text is accepted if no segment is malformed, and then its
tokens are those of the segments, each on the line it ends on; otherwise exactly the malformed
segments are reported.
-/

import Lox.Proofs.Token.Form
import Lox.Token.Scan

namespace Lox

namespace Segment

/-! ## The only partition -/

/-- A text falls into segments of which each is the longest that starts there. -/
inductive Tiles : List Char → List Segment → Prop
  | nil : Tiles [] []
  | cons {segment : Segment} {rest : List Char} {segments : List Segment}
      (hlongest : Longest (segment.text ++ rest) segment) (hrest : Tiles rest segments) :
      Tiles (segment.text ++ rest) (segment :: segments)

theorem Form.ne_nil {start : List Char} {reading : Reading} (h : Form start reading) :
    start ≠ [] := by
  cases h with
  | number hne _ _ => exact List.append_ne_nil_of_left_ne_nil hne _
  | operator h => exact (by decide : ∀ operator ∈ operators, operator.1 ≠ []) _ h
  | _ => exact List.cons_ne_nil _ _

/-- Nothing starts at the end of a text. -/
theorem Longest.ne_nil {text : List Char} {segment : Segment} (h : Longest text segment) :
    text ≠ [] := by
  rintro rfl
  rcases h with ⟨hmatches, -⟩ | ⟨-, c, rest, heq, -⟩
  · cases hmatches with
    | form hform hbegins => exact hform.ne_nil (List.prefix_nil.1 hbegins)
    | unclosed h => cases h
  · cases heq

theorem splitFrom_eq_append (size : Nat) (text : List Char) (done : List Segment) :
    splitFrom size text done = done.reverse ++ splitFrom size text [] := by
  induction size generalizing text done with
  | zero => simp [splitFrom]
  | succ size ih =>
    cases text with
    | nil => simp [splitFrom]
    | cons c rest =>
      rw [splitFrom, splitFrom, ih _ (first c rest :: done), ih _ [first c rest],
        List.reverse_cons, List.append_assoc]
      rfl

theorem length_drop_extent_le {c : Char} {rest : List Char} {size : Nat}
    (hsize : (c :: rest).length ≤ size + 1) :
    (rest.drop (extent c rest).further).length ≤ size := by
  rw [List.length_drop]
  exact Nat.le_trans (Nat.sub_le _ _) (Nat.le_of_succ_le_succ hsize)

/-- It does not matter how long a text may be at most. -/
theorem splitFrom_congr {size size' : Nat} {text : List Char} (hsize : text.length ≤ size)
    (hsize' : text.length ≤ size') : splitFrom size text [] = splitFrom size' text [] := by
  induction size generalizing size' text with
  | zero =>
    obtain rfl := List.length_eq_zero_iff.1 (Nat.le_zero.1 hsize)
    cases size' <;> rfl
  | succ size ih =>
    cases text with
    | nil => cases size' <;> rfl
    | cons c rest =>
      cases size' with
      | zero => cases hsize'
      | succ size' =>
        rw [splitFrom, splitFrom, splitFrom_eq_append, splitFrom_eq_append size',
          ih (length_drop_extent_le hsize) (length_drop_extent_le hsize')]

/-- A text is split into its first segment and the segments of what comes after that. -/
theorem split_cons (c : Char) (rest : List Char) :
    split (c :: rest) = first c rest :: split (rest.drop (extent c rest).further) := by
  show splitFrom rest.length _ [first c rest] = _
  rw [splitFrom_eq_append, splitFrom_congr (length_drop_extent_le (Nat.le_refl _)) (Nat.le_refl _)]
  rfl

theorem split_text_append {segment : Segment} {rest : List Char}
    (h : Longest (segment.text ++ rest) segment) :
    split (segment.text ++ rest) = segment :: split rest := by
  generalize htext : segment.text ++ rest = text at h
  cases text with
  | nil => exact absurd rfl h.ne_nil
  | cons c tail =>
    obtain rfl := longest_iff.1 h
    have hrest : rest = tail.drop (extent c tail).further :=
      List.append_cancel_left (htext.trans (text_first_append_drop c tail).symm)
    rw [split_cons, ← hrest]

theorem tiles_split (text : List Char) : Tiles text (split text) := by
  induction hlength : text.length using Nat.strongRecOn generalizing text with
  | _ length ih =>
    cases text with
    | nil => exact .nil
    | cons c rest =>
      have hlongest : Longest ((first c rest).text ++ rest.drop (extent c rest).further)
          (first c rest) := by
        rw [text_first_append_drop]
        exact longest_iff.2 rfl
      have hshorter : (rest.drop (extent c rest).further).length < length := by
        rw [← hlength]
        exact Nat.lt_succ_of_le (length_drop_extent_le (Nat.le_refl _))
      have htiles := Tiles.cons hlongest (ih _ hshorter _ rfl)
      rwa [text_first_append_drop, ← split_cons] at htiles

/-- A text falls into its segments and in no other way. -/
theorem tiles_iff {text : List Char} {segments : List Segment} :
    Tiles text segments ↔ segments = split text := by
  constructor
  · intro h
    induction h with
    | nil => rfl
    | cons hlongest _ ih => rw [split_text_append hlongest, ih]
  · rintro rfl
    exact tiles_split text

/-! ## What is made of each segment -/

/-- What is wrong with a segment, if it is malformed. -/
def problem? (segment : Segment) : Option Problem :=
  match segment.reading with
  | .malformed problem => some problem
  | _ => none

/-- The token that a segment is read as when `before` comes before it in the text: it is on the line
that the segment ends on. -/
def token? (before : List Char) (segment : Segment) : Option Token :=
  match segment.reading with
  | .token kind literal =>
    some ⟨kind, String.ofList segment.text, literal, 1 + (before ++ segment.text).count '\n'⟩
  | _ => none

/-- The report of a malformed segment that `before` comes before. A comment that is never closed is
reported where it opens, everything else where it ends. -/
def error? (before : List Char) (segment : Segment) : Option ScanError :=
  match segment.reading with
  | .malformed .unterminatedComment => some ⟨.unterminatedComment, 1 + before.count '\n'⟩
  | .malformed problem => some ⟨problem, 1 + (before ++ segment.text).count '\n'⟩
  | _ => none

/-- What is made of segments that `before` comes before, from the first to the last. -/
def collect {α : Type} (make : List Char → Segment → Option α) :
    (before : List Char) → List Segment → List α
  | _, [] => []
  | before, segment :: segments =>
    (make before segment).toList ++ collect make (before ++ segment.text) segments

theorem isSome_error? (before : List Char) (segment : Segment) :
    (error? before segment).isSome = segment.problem?.isSome := by
  unfold error? problem?
  split
  · rename_i h
    rw [h]
    rfl
  · rename_i h
    rw [h]
    rfl
  · rename_i hcomment hother
    split
    · rename_i problem h
      exact absurd h (hother problem)
    · rfl

theorem collect_error?_eq_nil_iff {before : List Char} {segments : List Segment} :
    collect error? before segments = [] ↔ ∀ segment ∈ segments, segment.problem? = none := by
  induction segments generalizing before with
  | nil => simp [collect]
  | cons segment segments ih =>
    have hhead : (error? before segment).toList = [] ↔ segment.problem? = none := by
      rw [Option.toList_eq_nil_iff, ← Option.not_isSome_iff_eq_none, isSome_error?,
        Option.not_isSome_iff_eq_none]
    rw [collect, List.append_eq_nil_iff, ih, hhead, List.forall_mem_cons]

end Segment

namespace Token

theorem Gathered.add_eq (before : List Char) (tokens : List Token) (errors : List ScanError)
    (segment : Segment) :
    Gathered.add ⟨1 + before.count '\n', tokens, errors⟩ segment =
      ⟨1 + (before ++ segment.text).count '\n', (segment.token? before).toList ++ tokens,
        (segment.error? before).toList ++ errors⟩ := by
  have hline : 1 + (before ++ segment.text).count '\n' =
      1 + before.count '\n' + segment.newlines := by
    rw [List.count_append, Nat.add_assoc]
    rfl
  unfold add Segment.token? Segment.error?
  rw [hline]
  cases segment.reading with
  | skipped => rfl
  | token kind literal => rfl
  | malformed problem => cases problem <;> rfl

/-- Scanning gathers what is made of each segment. -/
theorem Gathered.foldl_add (segments : List Segment) (before : List Char) (tokens : List Token)
    (errors : List ScanError) :
    segments.foldl add ⟨1 + before.count '\n', tokens, errors⟩ =
      ⟨1 + (before ++ segments.flatMap Segment.text).count '\n',
        (Segment.collect Segment.token? before segments).reverse ++ tokens,
        (Segment.collect Segment.error? before segments).reverse ++ errors⟩ := by
  induction segments generalizing before tokens errors with
  | nil => simp [Segment.collect]
  | cons segment segments ih =>
    have hreverse : ∀ {α : Type} (made : Option α), made.toList.reverse = made.toList := by
      intro α made
      cases made <;> rfl
    rw [List.foldl_cons, add_eq, ih, List.flatMap_cons, ← List.append_assoc]
    simp only [Segment.collect, List.reverse_append, hreverse, List.append_assoc]

/-- What scanning comes to, told from the segments of the text. -/
theorem scan_eq (source : String) :
    scan source =
      if ∀ segment ∈ Segment.split source.toList, segment.problem? = none then
        .ok (Segment.collect Segment.token? [] (Segment.split source.toList) ++
          [endOfInput (1 + source.toList.count '\n')])
      else
        .error (Segment.collect Segment.error? [] (Segment.split source.toList)) := by
  have hgathered := Gathered.foldl_add (Segment.split source.toList) [] [] []
  rw [Segment.flatMap_text_split, List.count_nil, List.nil_append] at hgathered
  unfold scan
  rw [hgathered]
  simp only [List.append_nil]
  split
  · rename_i herrors
    rw [if_pos (Segment.collect_error?_eq_nil_iff.1 (List.reverse_eq_nil_iff.1 herrors)),
      List.reverse_cons, List.reverse_reverse]
  · rename_i herrors
    rw [if_neg fun h => herrors (List.reverse_eq_nil_iff.2
      (Segment.collect_error?_eq_nil_iff.2 h)), List.reverse_reverse]

/-- Scanning is an exact partition of any text into longest segments. There is one way in which the
text falls into segments of which each is the longest that starts there, and their characters are
those of the text. The text has tokens exactly if none of its segments is malformed; then they are
the tokens of the segments, in order and each on the line that its segment ends on, and an end token
on the last line. Otherwise exactly the malformed segments are reported, in order. -/
theorem scan_partitions (source : String) :
    ∃ segments : List Segment,
      (∀ other, Segment.Tiles source.toList other ↔ other = segments) ∧
      segments.flatMap Segment.text = source.toList ∧
      ((∃ tokens, scan source = .ok tokens) ↔
        ∀ segment ∈ segments, segment.problem? = none) ∧
      (∀ tokens, scan source = .ok tokens →
        tokens = Segment.collect Segment.token? [] segments ++
          [endOfInput (1 + source.toList.count '\n')]) ∧
      ∀ errors, scan source = .error errors →
        errors = Segment.collect Segment.error? [] segments := by
  refine ⟨Segment.split source.toList, fun other => Segment.tiles_iff,
    Segment.flatMap_text_split source.toList, ?_, fun tokens h => ?_, fun errors h => ?_⟩
  · rw [scan_eq]
    split
    · rename_i hnone
      exact ⟨fun _ => hnone, fun _ => ⟨_, rfl⟩⟩
    · rename_i hsome
      refine ⟨fun h => ?_, fun hnone => absurd hnone hsome⟩
      obtain ⟨tokens, h⟩ := h
      cases h
  · rw [scan_eq] at h
    split at h <;> cases h
    rfl
  · rw [scan_eq] at h
    split at h <;> cases h
    rfl

end Token

end Lox
