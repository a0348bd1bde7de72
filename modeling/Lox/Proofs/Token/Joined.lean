/-
# Texts joined by line breaks

A line break behind a text changes nothing about the segments of the text, unless a string or a
comment in it was never closed (`Segment.split_append_newline`). So where texts that can be scanned
are joined by line breaks, the segments of the whole are those of the texts and the line breaks, and
its tokens are those of the texts, on lines further down. They are exactly the tokens of each text
when it stands on its own behind as many line breaks as come before it in the whole
(`Token.spells_inPlace`).
-/

import Lox.Proofs.Token.Blank
import Lox.Proofs.Tree.Alike

namespace Lox

namespace Segment

/-! ## What is made of the segments -/

theorem collect_append {α : Type} (make : List Char → Segment → Option α) (before : List Char)
    (segments segments' : List Segment) :
    collect make before (segments ++ segments') =
      collect make before segments ++
        collect make (before ++ segments.flatMap Segment.text) segments' := by
  induction segments generalizing before with
  | nil => simp [collect]
  | cons segment segments ih =>
    rw [List.cons_append, collect, collect, ih, List.flatMap_cons, List.append_assoc,
      List.append_assoc]

/-- No segment is read as the end of a text. -/
theorem Form.kind_ne_endOfInput {start : List Char} {kind : Token.Kind}
    {literal : Option Token.Literal} (h : Form start (.token kind literal)) :
    kind ≠ .endOfInput := by
  generalize hreading : Reading.token kind literal = reading at h
  cases h with
  | string _ =>
    cases hreading
    decide
  | number _ _ _ =>
    unfold numeral at hreading
    split at hreading <;> cases hreading
    decide
  | word _ _ =>
    cases hreading
    unfold Token.Kind.ofWord
    split <;> decide
  | operator h =>
    cases hreading
    exact (by decide : ∀ operator ∈ operators, operator.2 ≠ .endOfInput) _ h
  | _ => cases hreading

/-- A segment that is not malformed is made as the forms say. -/
theorem Longest.form {text : List Char} {segment : Segment} (h : Longest text segment)
    (hproblem : segment.problem? = none) : Form segment.text segment.reading := by
  rcases h with ⟨hmatches, -⟩ | ⟨-, _, _, -, rfl⟩
  · cases hmatches with
    | form hform _ => exact hform
    | unclosed _ => cases hproblem
  · cases hproblem

/-- Each token of a text has been written in the form of what it is read as. -/
theorem form_of_mem_collect {before text : List Char} {token : Token}
    (h : token ∈ collect token? before (split text)) :
    Form token.lexeme.toList (.token token.kind token.literal) := by
  have htiles := tiles_split text
  generalize split text = segments at h htiles
  induction htiles generalizing before with
  | nil => cases h
  | @cons segment rest segments hlongest _ ih =>
    rcases List.mem_append.1 h with h | h
    · rw [Option.mem_toList] at h
      unfold token? at h
      split at h
      · rename_i kind literal hreading
        cases h
        have hform := hlongest.form (problem?_eq_none_iff.2 fun _ => by rw [hreading]; rintro ⟨⟩)
        rw [hreading] at hform
        dsimp only
        rwa [String.toList_ofList]
      · cases h
    · exact ih h

theorem kind_ne_endOfInput {before text : List Char} {token : Token}
    (h : token ∈ collect token? before (split text)) : token.kind ≠ .endOfInput :=
  (form_of_mem_collect h).kind_ne_endOfInput

/-- The tokens of segments are the same further down, apart from their lines. -/
theorem forall₂_collect {lines : Nat → Nat → Prop} (before : List Char) {above : List Char}
    {segments : List Segment}
    (hlines : ∀ line ≤ 1 + (above ++ segments.flatMap Segment.text).count '\n',
      lines line (line + before.count '\n')) :
    List.Forall₂ (Token.Alike lines) (collect token? above segments)
      (collect token? (before ++ above) segments) := by
  induction segments generalizing above with
  | nil => exact .nil
  | cons segment segments ih =>
    rw [List.flatMap_cons, ← List.append_assoc] at hlines
    refine List.rel_append ?_ ?_
    · unfold token?
      split
      · have hline := hlines (1 + (above ++ segment.text).count '\n') (by
          rw [@List.count_append _ _ _ (above ++ segment.text)]
          omega)
        have hsum : 1 + (before ++ (above ++ segment.text)).count '\n' =
            1 + (above ++ segment.text).count '\n' + before.count '\n' := by
          rw [List.count_append]
          omega
        refine .cons ⟨rfl, rfl, rfl, ?_⟩ .nil
        rw [List.append_assoc]
        rwa [← hsum] at hline
      · exact .nil
    · rw [List.append_assoc]
      exact ih hlines

/-- Of what comes before segments, only the line breaks matter for their tokens. -/
theorem collect_token?_congr {before before' : List Char}
    (h : before.count '\n' = before'.count '\n') (segments : List Segment) :
    collect token? before segments = collect token? before' segments := by
  induction segments generalizing before before' with
  | nil => rfl
  | cons segment segments ih =>
    have hcount : (before ++ segment.text).count '\n' = (before' ++ segment.text).count '\n' := by
      rw [List.count_append, List.count_append, h]
    have hhead : token? before segment = token? before' segment := by
      unfold token?
      rw [hcount]
    rw [collect, collect, hhead, ih hcount]

theorem split_newlines (count : Nat) (text : List Char) :
    split (List.replicate count '\n' ++ text) =
      List.replicate count ⟨['\n'], .skipped⟩ ++ split text := by
  induction count with
  | zero => rfl
  | succ count ih =>
    rw [List.replicate_succ, List.replicate_succ, List.cons_append, List.cons_append, split_cons,
      ← ih]
    rfl

theorem collect_newlines (count : Nat) (before : List Char) (segments : List Segment) :
    collect token? before (List.replicate count ⟨['\n'], .skipped⟩ ++ segments) =
      collect token? (before ++ List.replicate count '\n') segments := by
  induction count generalizing before with
  | zero => rw [List.replicate_zero, List.replicate_zero, List.nil_append, List.append_nil]
  | succ count ih =>
    rw [List.replicate_succ, List.replicate_succ, List.cons_append, List.append_cons before, ← ih]
    rfl

end Segment

/-! ## Texts joined by line breaks -/

/-- How many lines a text has. -/
def lineCount (source : String) : Nat := 1 + source.toList.count '\n'

/-- How many lines some texts have together. -/
def totalLines : (sources : List String) → Nat
  | [] => 0
  | source :: sources => lineCount source + totalLines sources

/-- Line `line` of one of some texts is line `line'` of the texts joined by line breaks: it comes
behind all lines of the texts before. -/
def JoinedLine (sources : List String) (line line' : Nat) : Prop :=
  ∃ earlier source later, sources = earlier ++ source :: later ∧ line ≤ lineCount source ∧
    line' = line + totalLines earlier

/-- A text behind `count` line breaks. -/
def lowered (count : Nat) (source : String) : String :=
  String.ofList (List.replicate count '\n' ++ source.toList)

/-- Some texts, each behind as many line breaks as come before it when the texts are joined by line
breaks and come behind `count` line breaks themselves. -/
def inPlace : (count : Nat) → (sources : List String) → List String
  | _, [] => []
  | count, source :: sources => lowered count source :: inPlace (count + lineCount source) sources

theorem inPlace_append (count : Nat) (earlier sources : List String) :
    inPlace count (earlier ++ sources) =
      inPlace count earlier ++ inPlace (count + totalLines earlier) sources := by
  induction earlier generalizing count with
  | nil => rfl
  | cons source earlier ih =>
    rw [List.cons_append, inPlace, inPlace, ih, totalLines, Nat.add_assoc]
    rfl

namespace Token

/-- The tokens of texts joined by line breaks, text by text, if `before` comes before the first. -/
def pieces : (before : List Char) → (sources : List String) → List (List Token)
  | _, [] => []
  | before, source :: sources =>
    Segment.collect Segment.token? before (Segment.split source.toList) ::
      pieces (before ++ source.toList ++ ['\n']) sources

/-- The tokens of a text are some tokens and an end token, but for lines. -/
def Spells (lines : Nat → Nat → Prop) (source : String) (piece : List Token) : Prop :=
  ∀ tokens, scan source = .ok tokens →
    ∃ last, List.Forall₂ (Token.Alike lines) tokens (piece ++ [endOfInput last])

theorem scan_eq_ok_iff {source : String} {tokens : List Token} :
    scan source = .ok tokens ↔
      (∀ segment ∈ Segment.split source.toList, segment.problem? = none) ∧
        tokens = Segment.collect Segment.token? [] (Segment.split source.toList) ++
          [endOfInput (lineCount source)] := by
  rw [scan_eq]
  split
  · rename_i hnone
    constructor
    · rintro ⟨⟩
      exact ⟨hnone, rfl⟩
    · rintro ⟨-, rfl⟩
      rfl
  · rename_i hsome
    constructor
    · rintro ⟨⟩
    · rintro ⟨hnone, -⟩
      exact absurd hnone hsome

/-- The tokens of a text before the end token. -/
theorem filter_scan_eq {source : String} {tokens : List Token} (hscan : scan source = .ok tokens) :
    tokens.filter (fun token => token.kind ≠ .endOfInput) =
      Segment.collect Segment.token? [] (Segment.split source.toList) := by
  obtain ⟨-, rfl⟩ := scan_eq_ok_iff.1 hscan
  rw [List.filter_append, List.filter_eq_self.2 fun token htoken =>
    decide_eq_true (Segment.kind_ne_endOfInput htoken)]
  exact List.append_nil _

/-- Where no text has malformed segments, the texts joined by line breaks have none, and their
tokens are those of the texts. -/
theorem collect_intercalate {sources : List String} (before : List Char)
    (h : ∀ source ∈ sources, ∀ segment ∈ Segment.split source.toList, segment.problem? = none) :
    (∀ segment ∈ Segment.split ("\n".intercalate sources).toList, segment.problem? = none) ∧
      Segment.collect Segment.token? before (Segment.split ("\n".intercalate sources).toList) =
        (pieces before sources).flatten := by
  induction sources generalizing before with
  | nil =>
    constructor
    · rintro _ ⟨⟩
    · rfl
  | cons source sources ih =>
    obtain ⟨hsource, hsources⟩ := List.forall_mem_cons.1 h
    cases sources with
    | nil =>
      refine ⟨hsource, ?_⟩
      rw [pieces, pieces, List.flatten_cons, List.flatten_nil, List.append_nil]
      rfl
    | cons next sources =>
      obtain ⟨hproblems, hcollect⟩ := ih (before ++ source.toList ++ ['\n']) hsources
      have htext : ("\n".intercalate (source :: next :: sources)).toList =
          source.toList ++ '\n' :: ("\n".intercalate (next :: sources)).toList := by
        rw [String.intercalate_cons_cons, String.toList_append, String.toList_append,
          List.append_assoc]
        rfl
      rw [htext, Segment.split_append_newline fun segment hsegment =>
        Segment.closed_of_problem?_eq_none (hsource segment hsegment)]
      constructor
      · rw [List.forall_mem_append, List.forall_mem_cons]
        exact ⟨hsource, rfl, hproblems⟩
      · rw [Segment.collect_append, Segment.flatMap_text_split, pieces, List.flatten_cons,
          ← hcollect]
        rfl

/-- Texts that can be scanned on their own can be scanned when they are joined by line breaks. -/
theorem scan_intercalate {sources : List String}
    (h : ∀ source ∈ sources, ∃ tokens, scan source = .ok tokens) :
    scan ("\n".intercalate sources) =
      .ok ((pieces [] sources).flatten ++ [endOfInput (lineCount ("\n".intercalate sources))]) := by
  have hproblems := collect_intercalate [] fun source hsource => by
    obtain ⟨tokens, htokens⟩ := h source hsource
    exact (scan_eq_ok_iff.1 htokens).1
  exact scan_eq_ok_iff.2 ⟨hproblems.1, by rw [hproblems.2]⟩

theorem kind_ne_endOfInput_of_mem_pieces {before : List Char} {sources : List String}
    {token : Token} (h : token ∈ (pieces before sources).flatten) : token.kind ≠ .endOfInput := by
  induction sources generalizing before with
  | nil => cases h
  | cons source sources ih =>
    rcases List.mem_append.1 h with h | h
    · exact Segment.kind_ne_endOfInput h
    · exact ih h

theorem count_next (before : List Char) (source : String) :
    (before ++ source.toList ++ ['\n']).count '\n' = before.count '\n' + lineCount source := by
  rw [List.count_append, List.count_append]
  unfold lineCount
  show _ + _ + 1 = _
  omega

/-- A text behind line breaks has the tokens that it has anywhere behind as many line breaks. -/
theorem scan_lowered {source : String} {tokens : List Token} (hscan : scan source = .ok tokens)
    {before : List Char} {count : Nat} (hcount : before.count '\n' = count) :
    scan (lowered count source) =
      .ok (Segment.collect Segment.token? before (Segment.split source.toList) ++
        [endOfInput (lineCount source + count)]) := by
  obtain ⟨hnone, -⟩ := scan_eq_ok_iff.1 hscan
  have hbreaks : before.count '\n' = (List.replicate count '\n').count '\n' := by
    rw [List.count_replicate_self, hcount]
  have htext : (lowered count source).toList = List.replicate count '\n' ++ source.toList :=
    String.toList_ofList
  have hlast : lineCount (lowered count source) = lineCount source + count := by
    unfold lineCount
    rw [htext, List.count_append, List.count_replicate_self]
    omega
  refine scan_eq_ok_iff.2 ⟨?_, ?_⟩
  · rw [htext, Segment.split_newlines, List.forall_mem_append]
    refine ⟨fun segment hsegment => ?_, hnone⟩
    rw [List.eq_of_mem_replicate hsegment]
    rfl
  · rw [hlast, htext, Segment.split_newlines, Segment.collect_newlines, List.nil_append,
      Segment.collect_token?_congr hbreaks]

/-- The tokens of a text are the same further down, apart from their lines. -/
theorem forall₂_lowered {lines : Nat → Nat → Prop} {source : String} {tokens : List Token}
    (hscan : scan source = .ok tokens) (before : List Char)
    (hlines : ∀ line ≤ lineCount source, lines line (line + before.count '\n')) :
    List.Forall₂ (Token.Alike lines) tokens
      (Segment.collect Segment.token? before (Segment.split source.toList) ++
        [endOfInput (lineCount source + before.count '\n')]) := by
  obtain ⟨-, rfl⟩ := scan_eq_ok_iff.1 hscan
  refine List.rel_append ?_ ?_
  · have hcollect := @Segment.forall₂_collect lines before [] (Segment.split source.toList)
    rw [Segment.flatMap_text_split, List.append_nil] at hcollect
    exact hcollect hlines
  · exact .cons ⟨rfl, rfl, rfl, hlines _ (Nat.le_refl _)⟩ .nil

/-- The tokens of each of the texts are those of the text on its own, on lines further down. -/
theorem spells_pieces {lines : Nat → Nat → Prop} {sources : List String} (before : List Char)
    (hlines : ∀ line line', JoinedLine sources line line' →
      lines line (line' + before.count '\n')) :
    List.Forall₂ (Spells lines) sources (pieces before sources) := by
  induction sources generalizing before with
  | nil => exact .nil
  | cons source sources ih =>
    refine .cons (fun tokens hscan => ⟨_, forall₂_lowered hscan before fun line hline => ?_⟩) ?_
    · exact hlines line line ⟨[], source, sources, rfl, hline, rfl⟩
    · apply ih
      rintro line _ ⟨earlier, source', later, rfl, hline, rfl⟩
      have hmoved := hlines line _ ⟨source :: earlier, source', later, rfl, hline, rfl⟩
      rw [totalLines] at hmoved
      have hsum : line + (lineCount source + totalLines earlier) + before.count '\n' =
          line + totalLines earlier + (before.count '\n' + lineCount source) := by omega
      rwa [count_next, ← hsum]

/-- The tokens of each of the texts are exactly those of the text behind as many line breaks. -/
theorem spells_inPlace {sources : List String}
    (hscan : ∀ source ∈ sources, ∃ tokens, scan source = .ok tokens) (before : List Char) :
    List.Forall₂ (Spells Eq) (inPlace (before.count '\n') sources) (pieces before sources) := by
  induction sources generalizing before with
  | nil => exact .nil
  | cons source sources ih =>
    obtain ⟨hsource, hsources⟩ := List.forall_mem_cons.1 hscan
    refine .cons (fun tokens htokens => ⟨lineCount source + before.count '\n', ?_⟩) ?_
    · obtain ⟨tokens', hscan⟩ := hsource
      cases (scan_lowered hscan rfl).symm.trans htokens
      exact List.forall₂_same.2 fun token _ => .refl rfl
    · rw [← count_next]
      exact ih hsources _

end Token

end Lox
