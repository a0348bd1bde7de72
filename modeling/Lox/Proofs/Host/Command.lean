/-
# Commands to the host

A text given to the host asks for a command with an argument. `Asks` says which, by what the text
is put together from and not by how it is cut up, and `Performs` says what each command comes to.
Every text asks for exactly one command with one argument (`asks_iff`), and where commands are
allowed, obeying the text comes to what that command does (`obey_eq_iff`). So white space around a
command and around its argument does not count, in whatever script it is written
(`Host.obeys_up_to_white_space`).
-/

import Lox.Host
import Lox.Proofs.Text.WhiteSpace

namespace Lox.Host

/-! ## What a text asks for -/

/-- A text asks for a command with an argument. -/
inductive Asks : List Char → (command argument : List Char) → Prop
  /-- White space alone asks for the command without a name. -/
  | blank {text : List Char} (htext : Text.IsBlank text) : Asks text [] []
  /-- The first word is the command. What comes behind the white space there is its argument, which
  may be empty. -/
  | word {before command gap argument after : List Char} (hbefore : Text.IsBlank before)
      (hcommand : Text.IsWord command) (hgap : Text.IsBlank gap)
      (hargument : Text.IsTrimmed argument) (hapart : argument ≠ [] → gap ≠ [])
      (hafter : Text.IsBlank after) :
      Asks (before ++ command ++ gap ++ argument ++ after) command argument

variable {text before command gap argument after : List Char}

theorem Asks.splitWord_trim (h : Asks text command argument) :
    Text.splitWord (Text.trim text) = (command, argument) := by
  cases h with
  | blank htext =>
    have hstrips : Text.Strips ([] ++ [] ++ text) [] :=
      .mk Text.isBlank_nil Text.isTrimmed_nil htext
    have htrim : Text.trim text = [] := hstrips.trim_eq
    rw [htrim]
    rfl
  | @word before _ gap _ after hbefore hcommand hgap hargument hapart hafter =>
    by_cases hnone : argument = []
    · subst hnone
      have hstrips := Text.Strips.mk hbefore hcommand.isTrimmed (hgap.append hafter)
      have hsplit := @Text.splitWord_append command [] hcommand.isWhiteSpace_eq_false nofun
      rw [List.append_nil] at hsplit ⊢
      rw [List.append_assoc (before ++ command), hstrips.trim_eq, hsplit]
      rfl
    · have hinner := hcommand.isTrimmed.append hcommand.ne_nil gap hargument hnone
      have hstrips := Text.Strips.mk hbefore hinner hafter
      have hhead : ∀ c ∈ (gap ++ argument).head?, Text.isWhiteSpace c = true := by
        intro c hc
        rw [List.head?_append_of_ne_nil _ (hapart hnone)] at hc
        exact hgap c (List.mem_of_mem_head? hc)
      rw [← List.append_assoc, ← List.append_assoc] at hstrips
      rw [hstrips.trim_eq, List.append_assoc,
        Text.splitWord_append hcommand.isWhiteSpace_eq_false hhead, Text.trimStart_append hgap,
        Text.trimStart_eq_self hargument.head]

/-- Every text asks for exactly one command with exactly one argument. -/
theorem asks_iff :
    Asks text command argument ↔ Text.splitWord (Text.trim text) = (command, argument) := by
  refine ⟨Asks.splitWord_trim, fun h => ?_⟩
  have hstrips := Text.strips_trim text
  generalize Text.trim text = inner at h hstrips
  obtain ⟨hbefore, hinner, hafter⟩ := hstrips
  by_cases hnone : inner = []
  · subst hnone
    cases h
    exact .blank ((hbefore.append Text.isBlank_nil).append hafter)
  · obtain ⟨gap, heq, hcommand, hgap, hargument, hapart⟩ := hinner.exists_gap hnone
    rw [h] at heq hcommand hargument hapart
    have hasks := Asks.word hbefore hcommand hgap hargument hapart hafter
    rwa [List.append_assoc _ _ gap, List.append_assoc _ _ argument, ← heq] at hasks

/-- White space at the ends of what is behind a command is no part of the argument. -/
theorem asks_of_strips {before command gap text after argument : String}
    (hbefore : Text.IsBlank before.toList) (hcommand : Text.IsWord command.toList)
    (hgap : Text.IsBlank gap.toList) (hne : gap ≠ "")
    (hstrips : Text.Strips text.toList argument.toList) (hafter : Text.IsBlank after.toList) :
    Asks (before ++ command ++ gap ++ text ++ after).toList command.toList argument.toList := by
  simp only [String.toList_append]
  generalize text.toList = behind at hstrips
  generalize argument.toList = argument at hstrips ⊢
  obtain ⟨hfront, hargument, hback⟩ := hstrips
  have hapart : gap.toList ≠ [] := fun h => hne (String.toList_eq_nil_iff.1 h)
  have hasks := Asks.word hbefore hcommand (hgap.append hfront) hargument
    (fun _ => List.append_ne_nil_of_left_ne_nil hapart _) (hback.append hafter)
  simpa only [List.append_assoc] using hasks

/-! ## What commands do -/

/-- What a command comes to on a host, with an argument. -/
inductive Performs (host : Host) : (command argument : String) → Except Failure Value → Prop
  /-- `echo` gives its argument back. -/
  | echo {argument : String} : Performs host "echo" argument (.ok (.string argument))
  /-- `env` wants a name. -/
  | nameless : Performs host "env" "" (.error (.failed "env" .missingName))
  /-- No variable has NUL in its name. -/
  | unset {name : String} (hname : name ≠ "")
      (hunset : '\x00' ∈ name.toList ∨ host.environment name = .unset) :
      Performs host "env" name (.ok .nil)
  | set {name value : String} (hname : name ≠ "") (hnul : '\x00' ∉ name.toList)
      (htext : host.environment name = .text value) :
      Performs host "env" name (.ok (.string value))
  | undecodable {name : String} (hname : name ≠ "") (hnul : '\x00' ∉ name.toList)
      (hbytes : host.environment name = .undecodable) :
      Performs host "env" name (.error (.failed "env" (.undecodable name)))
  /-- There are no other commands. -/
  | unknown {command argument : String} (hecho : command ≠ "echo") (henv : command ≠ "env") :
      Performs host command argument (.error (.unknownCommand command))

section

variable {host : Host} {name value : String}

theorem env_unset (hname : name ≠ "")
    (hunset : '\x00' ∈ name.toList ∨ host.environment name = .unset) :
    host.env name = .ok .nil := by
  have hnamed : host.variableNamed name = .unset := by
    unfold variableNamed
    split
    · rfl
    · rename_i hnul
      exact hunset.resolve_left fun h => hnul (List.contains_iff_mem.2 h)
  rw [env, hnamed, if_neg (by rwa [String.isEmpty_iff])]

theorem variableNamed_eq (hnul : '\x00' ∉ name.toList) :
    host.variableNamed name = host.environment name :=
  if_neg fun h => hnul (List.contains_iff_mem.1 h)

theorem env_set (hname : name ≠ "") (hnul : '\x00' ∉ name.toList)
    (htext : host.environment name = .text value) : host.env name = .ok (.string value) := by
  rw [env, variableNamed_eq hnul, htext, if_neg (by rwa [String.isEmpty_iff])]

theorem env_undecodable (hname : name ≠ "") (hnul : '\x00' ∉ name.toList)
    (hbytes : host.environment name = .undecodable) :
    host.env name = .error (.undecodable name) := by
  rw [env, variableNamed_eq hnul, hbytes, if_neg (by rwa [String.isEmpty_iff])]

end

section

variable {host : Host} {command argument : String} {result : Except Failure Value}

theorem performs_echo_iff :
    host.Performs "echo" argument result ↔ result = .ok (.string argument) := by
  constructor
  · intro h
    generalize hcommand : "echo" = command at h
    cases h with
    | echo => rfl
    | nameless | unset | set | undecodable => exact absurd hcommand (by decide)
    | unknown hecho => exact absurd hcommand.symm hecho
  · rintro rfl
    exact .echo

theorem performs_env_iff :
    host.Performs "env" argument result ↔
      result = (host.env argument).mapError (.failed "env") := by
  constructor
  · intro h
    generalize hcommand : "env" = command at h
    cases h with
    | echo => exact absurd hcommand (by decide)
    | nameless => rfl
    | unset hname hunset => rw [env_unset hname hunset]; rfl
    | set hname hnul htext => rw [env_set hname hnul htext]; rfl
    | undecodable hname hnul hbytes => rw [env_undecodable hname hnul hbytes]; rfl
    | unknown _ henv => exact absurd hcommand.symm henv
  · rintro rfl
    by_cases hname : argument = ""
    · subst hname
      exact .nameless
    · by_cases hnul : '\x00' ∈ argument.toList
      · rw [env_unset hname (.inl hnul)]
        exact .unset hname (.inl hnul)
      · cases hfound : host.environment argument with
        | unset =>
          rw [env_unset hname (.inr hfound)]
          exact .unset hname (.inr hfound)
        | text value =>
          rw [env_set hname hnul hfound]
          exact .set hname hnul hfound
        | undecodable =>
          rw [env_undecodable hname hnul hfound]
          exact .undecodable hname hnul hfound

theorem performs_iff_of_ne (hecho : command ≠ "echo") (henv : command ≠ "env") :
    host.Performs command argument result ↔ result = .error (.unknownCommand command) := by
  constructor
  · intro h
    cases h with
    | echo => exact absurd rfl hecho
    | nameless | unset | set | undecodable => exact absurd rfl henv
    | unknown => rfl
  · rintro rfl
    exact .unknown hecho henv

/-- Obeying a text comes to what the command does that the text asks for. -/
theorem Asks.obey_eq_iff {code : String}
    (h : Asks code.toList command.toList argument.toList) :
    host.obey true code = result ↔ host.Performs command argument result := by
  unfold obey
  rw [h.splitWord_trim]
  simp only [Bool.not_true, Bool.false_eq_true, if_false, String.ofList_toList]
  split
  · rename_i hecho
    rw [hecho, performs_echo_iff, eq_comm]
  · rename_i hecho
    split
    · rename_i henv
      rw [henv, performs_env_iff, eq_comm]
    · rename_i henv
      rw [performs_iff_of_ne hecho henv, eq_comm]

/-- Every text is obeyed by what it asks for. -/
theorem obey_eq_iff {code : String} : host.obey true code = result ↔
    ∃ command argument : String, Asks code.toList command.toList argument.toList ∧
      host.Performs command argument result := by
  constructor
  · intro h
    obtain ⟨command, argument, hparts⟩ : ∃ command argument,
        Text.splitWord (Text.trim code.toList) = (command, argument) := ⟨_, _, rfl⟩
    have hasks := asks_iff.2 hparts
    rw [← @String.toList_ofList command, ← @String.toList_ofList argument] at hasks
    exact ⟨_, _, hasks, hasks.obey_eq_iff.1 h⟩
  · rintro ⟨command, argument, hasks, hperforms⟩
    exact hasks.obey_eq_iff.2 hperforms

end

/-! ## Main result -/

/-- Where commands are allowed, a text is obeyed by what it asks for, whatever it is.

So a word, white space and any further text, with white space before and after, come to what the
word does as a command with what is left of that text without the white space around it; if the word
is no command, it is reported to be none. In particular `echo` gives back a text without white space
around it as it is, and where there is nothing but white space, the command without a name is
reported to be none. -/
theorem obeys_up_to_white_space (host : Host) :
    (∀ (code : String) (result : Except Failure Value), host.obey true code = result ↔
      ∃ command argument : String, Asks code.toList command.toList argument.toList ∧
        host.Performs command argument result) ∧
    (∀ before command gap text after : String, Text.IsBlank before.toList →
      Text.IsWord command.toList → Text.IsBlank gap.toList → gap ≠ "" →
      Text.IsBlank after.toList →
      ∃ argument : String,
        (∀ inner, Text.Strips text.toList inner ↔ inner = argument.toList) ∧
        (∀ result, host.obey true (before ++ command ++ gap ++ text ++ after) = result ↔
          host.Performs command argument result) ∧
        (command ≠ "echo" → command ≠ "env" →
          host.obey true (before ++ command ++ gap ++ text ++ after) =
            .error (.unknownCommand command))) ∧
    (∀ before gap text after : String, Text.IsBlank before.toList → Text.IsBlank gap.toList →
      gap ≠ "" → Text.IsTrimmed text.toList → Text.IsBlank after.toList →
      host.obey true (before ++ "echo" ++ gap ++ text ++ after) = .ok (.string text)) ∧
    (∀ text : String, Text.IsBlank text.toList →
      host.obey true text = .error (.unknownCommand "")) := by
  refine ⟨fun code result => obey_eq_iff, ?_, ?_, ?_⟩
  · intro before command gap text after hbefore hcommand hgap hne hafter
    obtain ⟨argument, hargument⟩ : ∃ argument : String, Text.trim text.toList = argument.toList :=
      ⟨_, String.toList_ofList.symm⟩
    have hasks := asks_of_strips hbefore hcommand hgap hne (Text.trim_eq_iff.1 hargument) hafter
    refine ⟨argument, fun inner => ?_, fun result => hasks.obey_eq_iff, fun hecho henv => ?_⟩
    · rw [← hargument, ← Text.trim_eq_iff, eq_comm]
    · exact hasks.obey_eq_iff.2 (.unknown hecho henv)
  · intro before gap text after hbefore hgap hne htext hafter
    have hcommand : Text.IsWord "echo".toList := by decide
    exact (asks_of_strips hbefore hcommand hgap hne htext.strips hafter).obey_eq_iff.2 .echo
  · intro text htext
    have hasks : Asks text.toList "".toList "".toList := .blank htext
    exact hasks.obey_eq_iff.2 (.unknown (by decide) (by decide))

/-- White space of all kinds, where a variable is asked for, where something else than a command
is, where `echo` gets white space within its argument, and where there is nothing else. -/
theorem obeys_up_to_white_space_of_all_kinds :
    let host : Host := ⟨fun name => if name = "HOME" then .text "/root" else .unset, fun _ => 0⟩
    host.obey true ("\u2003" ++ "env" ++ "\u0085\u3000" ++ "\u00a0HOME\t" ++ "\n") =
      .ok (.string "/root") ∧
    host.obey true ("" ++ "echoes" ++ "\u1680" ++ " " ++ "") =
      .error (.unknownCommand "echoes") ∧
    host.obey true ("\r" ++ "echo" ++ " \u2029" ++ "a \u3000b" ++ "\u205f") =
      .ok (.string "a \u3000b") ∧
    host.obey true "\u2028\u202f" = .error (.unknownCommand "") := by
  intro host
  obtain ⟨-, hword, hecho, hblank⟩ := obeys_up_to_white_space host
  refine ⟨?_, ?_, ?_, ?_⟩
  · obtain ⟨argument, hstrips, hobey, -⟩ := hword "\u2003" "env" "\u0085\u3000" "\u00a0HOME\t" "\n"
      (by decide) (by decide) (by decide) (by decide) (by decide)
    have hargument : "HOME".toList = argument.toList := (hstrips _).1
      (@Text.Strips.mk ['\u00a0'] "HOME".toList ['\t'] (by decide) (by decide) (by decide))
    obtain rfl := String.toList_inj.1 hargument
    exact (hobey _).2 (.set (by decide) (by decide) rfl)
  · obtain ⟨-, -, -, hunknown⟩ := hword "" "echoes" "\u1680" " " ""
      (by decide) (by decide) (by decide) (by decide) (by decide)
    exact hunknown (by decide) (by decide)
  · exact hecho "\r" " \u2029" "a \u3000b" "\u205f" (by decide) (by decide) (by decide)
      (by decide) (by decide)
  · exact hblank "\u2028\u202f" (by decide)

end Lox.Host
