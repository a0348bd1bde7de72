/-
# Scanning above and below a line break

A text that leaves no string and no comment open has the same segments whatever comes below it. So
what is made of a text and another one below it is what is made of each of them, and the only thing
that the one below knows of the one above is how many lines it has (`Segment.collect_below`). This
holds of tokens and of errors alike; so scanning on both sides of a line break comes to what
scanning comes to on each side, with the lines below counted on (`Token.scan_line_break`).
-/

import Lox.Proofs.Token.Joined

namespace Lox

/-- A token so many lines further down. -/
def Token.lower (count : Nat) (token : Token) : Token := { token with line := token.line + count }

/-- A report of what is malformed so many lines further down. -/
def ScanError.lower (count : Nat) (error : ScanError) : ScanError :=
  { error with line := error.line + count }

namespace Segment

theorem count_newline_append (before above : List Char) :
    1 + (before ++ above).count '\n' = 1 + above.count '\n' + before.count '\n' := by
  rw [List.count_append]
  omega

theorem token?_append (before above : List Char) (segment : Segment) :
    token? (before ++ above) segment =
      (token? above segment).map (Token.lower (before.count '\n')) := by
  unfold token?
  rw [List.append_assoc, count_newline_append]
  split <;> rfl

theorem error?_append (before above : List Char) (segment : Segment) :
    error? (before ++ above) segment =
      (error? above segment).map (ScanError.lower (before.count '\n')) := by
  unfold error?
  rw [List.append_assoc, count_newline_append, count_newline_append]
  split <;> rfl

/-- What is made of the segments of a text is the same further down, if this is so of each. -/
theorem collect_lower {α : Type} {make : List Char → Segment → Option α} {change : α → α}
    {before : List Char}
    (hmake : ∀ above segment, make (before ++ above) segment = (make above segment).map change)
    (above : List Char) (segments : List Segment) :
    collect make (before ++ above) segments = (collect make above segments).map change := by
  induction segments generalizing above with
  | nil => rfl
  | cons segment segments ih =>
    have hhead : (make (before ++ above) segment).toList =
        (make above segment).toList.map change := by
      rw [hmake]
      cases make above segment <;> rfl
    rw [collect, collect, List.map_append, ← ih, hhead, List.append_assoc]

/-- Of a text that leaves nothing open and another one below it, what is made is what is made of
each, where it is made further down of what is below. -/
theorem collect_below {α : Type} {make : List Char → Segment → Option α} {change : α → α}
    {text text' : List Char} (hclosed : ∀ segment ∈ split text, segment.reading.Closed)
    (hskipped : ∀ before, make before ⟨['\n'], .skipped⟩ = none)
    (hmake : ∀ above segment,
      make (text ++ ['\n'] ++ above) segment = (make above segment).map change) :
    collect make [] (split (text ++ '\n' :: text')) =
      collect make [] (split text) ++ (collect make [] (split text')).map change := by
  have hbelow := collect_lower hmake [] (split text')
  rw [List.append_nil] at hbelow
  rw [split_append_newline hclosed, collect_append, flatMap_text_split, List.nil_append, collect,
    hskipped, hbelow]
  rfl

theorem mem_collect {α : Type} {make : List Char → Segment → Option α} {before : List Char}
    {segments : List Segment} {segment : Segment} (h : segment ∈ segments) :
    ∃ above, ∀ made ∈ make above segment, made ∈ collect make before segments := by
  induction segments generalizing before with
  | nil => cases h
  | cons other segments ih =>
    rcases List.mem_cons.1 h with rfl | h
    · exact ⟨before, fun made hmade => List.mem_append_left _ (Option.mem_toList.2 hmade)⟩
    · obtain ⟨above, hmem⟩ := @ih (before ++ other.text) h
      exact ⟨above, fun made hmade => List.mem_append_right _ (hmem made hmade)⟩

end Segment

namespace Token

/-! ## Outcomes -/

/-- What scanning a text reports. -/
def scanErrors (source : String) : List ScanError :=
  match scan source with
  | .ok _ => []
  | .error errors => errors

/-- Scanning a text reports no string and no comment that was never closed. -/
def LeavesNothingOpen (source : String) : Prop :=
  ∀ error ∈ scanErrors source,
    error.problem ≠ .unterminatedString ∧ error.problem ≠ .unterminatedComment

theorem scanErrors_eq (source : String) :
    scanErrors source = Segment.collect Segment.error? [] (Segment.split source.toList) := by
  unfold scanErrors
  rw [scan_eq]
  split
  · rename_i hscan
    split at hscan
    · rename_i hnone
      exact (Segment.collect_error?_eq_nil_iff.2 hnone).symm
    · cases hscan
  · rename_i hscan
    split at hscan <;> cases hscan
    rfl

theorem exists_scan_eq_ok_iff {source : String} :
    (∃ tokens, scan source = .ok tokens) ↔
      ∀ segment ∈ Segment.split source.toList, segment.problem? = none :=
  ⟨fun ⟨_, hscan⟩ => (scan_eq_ok_iff.1 hscan).1, fun hnone => ⟨_, scan_eq_ok_iff.2 ⟨hnone, rfl⟩⟩⟩

/-- A text that leaves nothing open has closed segments only. -/
theorem LeavesNothingOpen.closed {source : String} (h : LeavesNothingOpen source) :
    ∀ segment ∈ Segment.split source.toList, segment.reading.Closed := by
  intro segment hsegment
  obtain ⟨above, hreported⟩ := @Segment.mem_collect _ Segment.error? [] _ segment hsegment
  rw [← scanErrors_eq] at hreported
  unfold Segment.error? at hreported
  constructor
  · intro hreading
    rw [hreading] at hreported
    exact (h _ (hreported _ rfl)).1 rfl
  · intro hreading
    rw [hreading] at hreported
    exact (h _ (hreported _ rfl)).2 rfl

/-- Scanning is compositional at line breaks. If a text leaves no string and no comment open, it can
be scanned together with another one below it exactly if both can be scanned. Then the tokens are
those of the first text without its end token and those of the second one, as many lines further
down as there are above. Otherwise the errors are those of both, where those of the second text are
as many lines further down. -/
theorem scan_line_break {above : String} (hclosed : LeavesNothingOpen above) (below : String) :
    ((∃ tokens, scan (above ++ "\n" ++ below) = .ok tokens) ↔
      (∃ tokens, scan above = .ok tokens) ∧ ∃ tokens, scan below = .ok tokens) ∧
    (∀ tokens tokens', scan above = .ok tokens → scan below = .ok tokens' →
      scan (above ++ "\n" ++ below) =
        .ok (tokens.filter (fun token => token.kind ≠ .endOfInput) ++
          tokens'.map (lower (1 + above.toList.count '\n')))) ∧
    ∀ errors, scan (above ++ "\n" ++ below) = .error errors →
      errors = scanErrors above ++
        (scanErrors below).map (ScanError.lower (1 + above.toList.count '\n')) := by
  have htext : (above ++ "\n" ++ below).toList = above.toList ++ '\n' :: below.toList := by
    rw [String.toList_append, String.toList_append, List.append_assoc]
    rfl
  have hlines : (above.toList ++ ['\n']).count '\n' = 1 + above.toList.count '\n' := by
    rw [List.count_append, Nat.add_comm]
    rfl
  have hiff : (∃ tokens, scan (above ++ "\n" ++ below) = .ok tokens) ↔
      (∃ tokens, scan above = .ok tokens) ∧ ∃ tokens, scan below = .ok tokens := by
    rw [exists_scan_eq_ok_iff, exists_scan_eq_ok_iff, exists_scan_eq_ok_iff, htext,
      Segment.split_append_newline hclosed.closed, List.forall_mem_append, List.forall_mem_cons]
    exact and_congr_right fun _ => and_iff_right rfl
  refine ⟨hiff, fun tokens tokens' hscan hscan' => ?_, fun errors hscan => ?_⟩
  · obtain ⟨whole, hwhole⟩ := hiff.2 ⟨⟨tokens, hscan⟩, ⟨tokens', hscan'⟩⟩
    have hend : endOfInput (lineCount (above ++ "\n" ++ below)) =
        lower (1 + above.toList.count '\n') (endOfInput (lineCount below)) := by
      unfold lineCount
      rw [htext, List.append_cons, Segment.count_newline_append, hlines]
      rfl
    have hbelow := @Segment.collect_below _ _ _ _ below.toList hclosed.closed (fun _ => rfl)
      (Segment.token?_append (above.toList ++ ['\n']))
    rw [hwhole, filter_scan_eq hscan, (scan_eq_ok_iff.1 hwhole).2, (scan_eq_ok_iff.1 hscan').2,
      htext, hbelow, hend, hlines, List.map_append, List.append_assoc]
    rfl
  · have herrors : errors = scanErrors (above ++ "\n" ++ below) := by
      unfold scanErrors
      rw [hscan]
    rw [herrors, scanErrors_eq, scanErrors_eq, scanErrors_eq, htext, ← hlines]
    exact Segment.collect_below hclosed.closed (fun _ => rfl)
      (Segment.error?_append (above.toList ++ ['\n']))

/-- A comment to the end of the line above does not reach the line below, and what is malformed
above and below is reported together. -/
theorem scan_line_break_below_comment :
    LeavesNothingOpen "1 // one" ∧ LeavesNothingOpen "1 @" ∧
    scan ("1 // one" ++ "\n" ++ "2") =
      .ok [⟨.number, "1", some (.number 1), 1⟩, ⟨.number, "2", some (.number 2), 2⟩,
        endOfInput 2] ∧
    ∀ errors, scan ("1 @" ++ "\n" ++ "$") = .error errors →
      errors = [⟨.unexpectedCharacter '@', 1⟩, ⟨.unexpectedCharacter '$', 2⟩] := by
  have hcomment : LeavesNothingOpen "1 // one" := by
    rintro _ ⟨⟩
  have hmalformed : LeavesNothingOpen "1 @" := by
    intro error herror
    obtain rfl := List.mem_singleton.1 (show error ∈ [⟨.unexpectedCharacter '@', 1⟩] from herror)
    exact ⟨by decide, by decide⟩
  refine ⟨hcomment, hmalformed, ?_, ?_⟩
  · exact (scan_line_break hcomment "2").2.1
      [⟨.number, "1", some (.number 1), 1⟩, endOfInput 1]
      [⟨.number, "2", some (.number 2), 1⟩, endOfInput 1] rfl rfl
  · exact (scan_line_break hmalformed "$").2.2

end Token

end Lox
