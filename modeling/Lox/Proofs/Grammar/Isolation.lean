/-
# Malformed statements do not get in each other's way

Where simple statements stand one behind the other, well-formed or not, each of them is taken in one
round of the loop over the declarations: reading stops at its semicolon at the latest, and where it
stops before, it resumes behind the semicolon (`Phrase.resume_plain`). So the statements are those
that each of them is read as alone, and so are the errors (`Program.reads_chunk_by_chunk`).
-/

import Lox.Proofs.Grammar.Alike
import Lox.Proofs.Grammar.Chunk
import Lox.Proofs.Grammar.Recovery
import Mathlib.Data.List.TakeWhile

namespace Lox

namespace Phrase

variable {tokens after chunk : List Token}

/-! ## Where reading resumes -/

theorem ordinary_iff {kind : Token.Kind} :
    ordinary kind = true ↔ kind ∉ [.semicolon, .leftBrace, .rightBrace, .endOfInput] ∧
      startsDeclaration kind = false := by
  rw [ordinary, Bool.and_eq_true, decide_eq_true_iff, Bool.not_eq_true']

theorem resumeAfter_semicolon {previous : Token} (hprevious : previous.kind = .semicolon)
    (after : List Token) : resumeAfter previous after = after := by
  cases after with
  | nil => rfl
  | cons token rest => rw [resumeAfter, if_pos (by simp [hprevious])]

theorem resumeAfter_plain (h : Plain tokens) {previous : Token}
    (hprevious : previous.kind ≠ .semicolon) :
    resumeAfter previous (tokens ++ after) = after := by
  induction h generalizing previous with
  | last hkind =>
    rw [List.singleton_append, resumeAfter, if_neg (by simp [hprevious, hkind, startsDeclaration])]
    exact resumeAfter_semicolon hkind after
  | cons hkind _ ih =>
    obtain ⟨hmem, hstarts⟩ := ordinary_iff.1 hkind
    rw [List.cons_append, resumeAfter, if_neg (by simp [hprevious, hstarts])]
    exact ih fun heq => hmem (heq ▸ List.mem_cons_self)

/-- From anywhere within a chunk, reading resumes behind it. -/
theorem resume_plain (h : Plain tokens) : resume (tokens ++ after) = after := by
  cases h with
  | last hkind => exact resumeAfter_semicolon hkind after
  | cons hkind hrest =>
    exact resumeAfter_plain hrest fun heq =>
      (ordinary_iff.1 hkind).1 (heq ▸ List.mem_cons_self)

theorem Chunk.ahead (h : Chunk chunk) (after after' : List Token) (nextId : AccessId) :
    Ahead after after' [.var, .print, .return] ⟨chunk ++ after, nextId⟩
      ⟨chunk ++ after', nextId⟩ := by
  rcases h.cases with hplain | ⟨token, rest, rfl, hkind, hplain⟩
  · exact .plain (.intro hplain)
  · exact .keyword hkind hplain

theorem Chunk.kind_ne_endOfInput (h : Chunk chunk) : ∀ token ∈ chunk, token.kind ≠ .endOfInput := by
  obtain ⟨body, last, rfl, hlast, hbody⟩ := h.exists_eq_append
  intro token htoken
  rcases List.mem_append.1 htoken with htoken | htoken
  · exact fun heq => hbody token htoken (by simp [heq])
  · rw [List.mem_singleton.1 htoken, hlast]
    decide

theorem Chunk.ne_nil (h : Chunk chunk) : chunk ≠ [] := by
  obtain ⟨body, last, rfl, -⟩ := h.exists_eq_append
  exact List.append_ne_nil_of_right_ne_nil body (List.cons_ne_nil last [])

end Phrase

namespace Program

open Recovery

variable {chunk after after' : List Token} {chunks : List (List Token)}
  {nextId next : AccessId} {before : Recovery}

/-! ## One round for each chunk -/

/-- Behind a chunk the loop goes on in front of the next token, whatever the chunk was read as. -/
theorem take_of_agree {outcome outcome' : Outcome Reader ParseError Stmt}
    (h : Phrase.Agree after after' (Phrase.Behind after after') outcome outcome')
    (before : Recovery) :
    outcome'.1 = outcome.1 ∧
      (before.take outcome'.2 outcome.1).reader = ⟨after', outcome.2.nextId⟩ := by
  cases h with
  | ok h =>
    cases h
    exact ⟨rfl, rfl⟩
  | error h =>
    obtain ⟨hplain⟩ := h
    rename_i nextId
    exact ⟨rfl, congrArg (Reader.mk · nextId) (Phrase.resume_plain hplain)⟩

/-- What is wrong with a chunk is reported at one of its own tokens. -/
theorem token_mem_of_ends (h : Phrase.Chunk chunk) {closing : Token}
    (hclosing : closing.kind = .endOfInput) {error : ParseError} {reached : Reader}
    (hends : Routine.Ends (Phrase.read closing) (Phrase.read closing .declaration) ⟨chunk, nextId⟩
      (.error error, reached)) : error.token ∈ chunk := by
  have hahead := h.ahead [] [] nextId
  rw [List.append_nil] at hahead
  obtain ⟨outcome', -, hagree⟩ := Phrase.agree_of_ends hahead closing hends
  have hrest : reached.rest ≠ [] := by
    cases hagree with
    | error hinside =>
      obtain ⟨token, rest, rest', nextId, rfl, -⟩ := hinside.head
      exact List.cons_ne_nil _ _
  have hstart : (⟨chunk, nextId⟩ : Reader).StandsAt chunk 0 := ⟨Nat.zero_le _, rfl⟩
  obtain ⟨e, j, hreached, -, hle, htoken⟩ := Phrase.advances_of_ends hclosing hstart hends
  have hlt := hreached.rest_ne_nil_iff.1 hrest
  rw [List.getElem?_append_left (by omega)] at htoken
  exact List.mem_of_getElem? htoken

/-- In front of any tokens, a chunk is taken in one round of the loop. -/
def TakenAs (chunk : List Token) (nextId : AccessId) (result : Except ParseError Stmt)
    (next : AccessId) : Prop :=
  ∀ (closing : Token) (after : List Token) (before : Recovery),
    before.reader = ⟨chunk ++ after, nextId⟩ →
      ∃ reached, Step closing before (before.take reached result) ∧
        (before.take reached result).reader = ⟨after, next⟩

theorem exists_takenAs (h : Phrase.Chunk chunk) (nextId : AccessId) :
    ∃ result next, TakenAs chunk nextId result next ∧
      ∀ error, result = .error error → error.token ∈ chunk := by
  have hclosing : (Token.endOfInput 1).kind = .endOfInput := rfl
  obtain ⟨outcome, hends⟩ := Phrase.exists_ends hclosing .declaration ⟨chunk, nextId⟩
  refine ⟨outcome.1, outcome.2.nextId, fun closing after before hreader => ?_, ?_⟩
  · have hahead := h.ahead [] after nextId
    rw [List.append_nil] at hahead
    obtain ⟨outcome', hends', hagree⟩ := Phrase.agree_of_ends hahead closing hends
    obtain ⟨hresult, hresumed⟩ := take_of_agree hagree before
    refine ⟨outcome'.2, .take ?_ ?_, hresumed⟩
    · rw [hreader]
      exact List.append_ne_nil_of_left_ne_nil h.ne_nil after
    · rw [hreader, ← hresult]
      exact hends'
  · rintro error herror
    obtain ⟨result, reached⟩ := outcome
    obtain rfl : result = .error error := herror
    exact token_mem_of_ends h hclosing hends

/-! ## Chunks on their own -/

theorem start_of_open {tokens : List Token} (h : ∀ token ∈ tokens, token.kind ≠ .endOfInput)
    (nextId : AccessId) : start tokens nextId = ⟨tokens, nextId⟩ :=
  congrArg (Reader.mk · nextId)
    (List.takeWhile_eq_self_iff.2 fun token htoken => decide_eq_true (h token htoken))

/-- Where a program is taken in rounds, this is what it is read as. -/
theorem ofTokens_of_steps {tokens : List Token} {last : Recovery}
    (h : Steps (closing tokens) ⟨start tokens nextId, [], [], []⟩ last)
    (hrest : last.reader.rest = []) :
    (ofTokens tokens nextId).1 =
      if last.errors = [] then .ok last.statements else .error last.errors := by
  obtain ⟨last', hsteps, hrest', hresult⟩ := exists_steps tokens nextId []
  obtain rfl := h.unique hrest hsteps hrest'
  rw [hresult]

/-- A declaration, well-formed or not, as a program of its own. -/
def single : Except ParseError Stmt → Except (List ParseError) (List Stmt)
  | .ok statement => .ok [statement]
  | .error error => .error [error]

theorem ofTokens_of_takenAs (hchunk : Phrase.Chunk chunk) {result : Except ParseError Stmt}
    (h : TakenAs chunk nextId result next) :
    (ofTokens chunk nextId).1 = single result := by
  have hstart : (⟨start chunk nextId, [], [], []⟩ : Recovery).reader = ⟨chunk ++ [], nextId⟩ := by
    rw [List.append_nil]
    exact start_of_open hchunk.kind_ne_endOfInput nextId
  obtain ⟨reached, hstep, hreader⟩ := h (closing chunk) [] _ hstart
  rw [ofTokens_of_steps (.single hstep) (congrArg Reader.rest hreader)]
  cases result with
  | ok statement => rfl
  | error error => rfl

/-- A chunk that is a program of its own is one statement, and one that is not is malformed in one
way only. -/
theorem ofTokens_chunk (h : Phrase.Chunk chunk) (nextId : AccessId) :
    (∃ statement, (ofTokens chunk nextId).1 = .ok [statement]) ∨
      ∃ error, (ofTokens chunk nextId).1 = .error [error] ∧ error.token ∈ chunk := by
  obtain ⟨result, next, htaken, hmem⟩ := exists_takenAs h nextId
  rw [ofTokens_of_takenAs h htaken]
  cases result with
  | ok statement => exact .inl ⟨statement, rfl⟩
  | error error => exact .inr ⟨error, rfl, hmem error rfl⟩

/-! ## Chunk by chunk -/

/-- The statements of a program, if it is well-formed. -/
def statementsOf : Except (List ParseError) (List Stmt) → List Stmt
  | .ok statements => statements
  | .error _ => []

/-- What is wrong with a program. -/
def errorsOf : Except (List ParseError) (List Stmt) → List ParseError
  | .ok _ => []
  | .error errors => errors

theorem errorsOf_eq_nil_iff (tokens : List Token) (nextId : AccessId) :
    errorsOf (ofTokens tokens nextId).1 = [] ↔
      ∃ statements, (ofTokens tokens nextId).1 = .ok statements := by
  generalize hread : ofTokens tokens nextId = read
  obtain ⟨_ | statements, next⟩ := read
  · refine ⟨fun hnil => absurd hnil (ofTokens_error_ne_nil hread), ?_⟩
    rintro ⟨_, ⟨⟩⟩
  · exact ⟨fun _ => ⟨statements, rfl⟩, fun _ => rfl⟩

/-- Which number is the next only matters for the numbers of the accesses. -/
theorem ofTokens_renumbered (tokens : List Token) (nextId nextId' : AccessId) :
    ResultAlike Eq (Stmt.AllAlike AnyIds Eq) (ofTokens tokens nextId).1
      (ofTokens tokens nextId').1 := by
  have hself : List.Forall₂ (Token.Alike Eq) tokens tokens :=
    List.forall₂_same.2 fun _ _ => .refl rfl
  refine (ofTokens_alike hself rfl nextId nextId').mono (fun errors errors' h => ?_)
    fun _ _ h => h
  have heq := h.imp fun _ _ => ParseError.Alike.eq
  rwa [List.forall₂_eq_eq_eq] at heq

/-- From one point of the loop to another some statements were gained, but for the numbers of their
accesses, and some errors. -/
structure Gains (statements : List Stmt) (errors : List ParseError) (before after : Recovery) :
    Prop where
  statements : ∃ added, after.statements = before.statements ++ added ∧
    Stmt.AllAlike AnyIds Eq added statements
  errors : after.errors = before.errors ++ errors

theorem Gains.refl (before : Recovery) : Gains [] [] before before :=
  ⟨⟨[], (List.append_nil _).symm, .nil⟩, (List.append_nil _).symm⟩

theorem Gains.trans {first others : List Stmt} {firstErrors otherErrors : List ParseError}
    {middle last : Recovery} (h : Gains first firstErrors before middle)
    (hothers : Gains others otherErrors middle last) :
    Gains (first ++ others) (firstErrors ++ otherErrors) before last := by
  obtain ⟨⟨added, hadded, halike⟩, herrors⟩ := h
  obtain ⟨⟨added', hadded', halike'⟩, herrors'⟩ := hothers
  refine ⟨⟨added ++ added', ?_, halike.append halike'⟩, ?_⟩
  · rw [hadded', hadded, List.append_assoc]
  · rw [herrors', herrors, List.append_assoc]

/-- Taking a declaration gains what a program of its own would be, whichever numbers it is given. -/
theorem gains_take {result : Except ParseError Stmt} {reached : Reader}
    {alone : Except (List ParseError) (List Stmt)}
    (h : ResultAlike Eq (Stmt.AllAlike AnyIds Eq) (single result) alone) :
    Gains (statementsOf alone) (errorsOf alone) before (before.take reached result) := by
  cases result with
  | ok statement =>
    cases h with
    | ok hstatements => exact ⟨⟨[statement], rfl, hstatements⟩, (List.append_nil _).symm⟩
  | error error =>
    cases h with
    | error herrors =>
      exact ⟨⟨[], (List.append_nil _).symm, .nil⟩, congrArg (before.errors ++ ·) herrors⟩

/-- One round for a chunk gains what the chunk is read as on its own. -/
theorem exists_step_chunk (h : Phrase.Chunk chunk) (closing : Token) (nextId : AccessId)
    (after : List Token) (hrest : before.reader.rest = chunk ++ after) :
    ∃ reached, Step closing before reached ∧ reached.reader.rest = after ∧
      Gains (statementsOf (ofTokens chunk nextId).1) (errorsOf (ofTokens chunk nextId).1) before
        reached := by
  obtain ⟨result, next, htaken, -⟩ := exists_takenAs h before.reader.nextId
  obtain ⟨reached, hstep, hreader⟩ :=
    htaken closing after before (congrArg (Reader.mk · before.reader.nextId) hrest)
  have halike := ofTokens_renumbered chunk before.reader.nextId nextId
  rw [ofTokens_of_takenAs h htaken] at halike
  exact ⟨_, hstep, congrArg Reader.rest hreader, gains_take halike⟩

/-- Round by round, chunks that stand one behind the other gain what they are read as on their
own. -/
theorem exists_steps_chunks (h : ∀ chunk ∈ chunks, Phrase.Chunk chunk) (closing : Token)
    (nextId : AccessId) (before : Recovery) (hrest : before.reader.rest = chunks.flatten) :
    ∃ last, Steps closing before last ∧ last.reader.rest = [] ∧
      Gains (chunks.flatMap fun chunk => statementsOf (ofTokens chunk nextId).1)
        (chunks.flatMap fun chunk => errorsOf (ofTokens chunk nextId).1) before last := by
  induction chunks generalizing before with
  | nil => exact ⟨before, .refl, hrest, .refl before⟩
  | cons chunk chunks ih =>
    obtain ⟨hchunk, hchunks⟩ := List.forall_mem_cons.1 h
    obtain ⟨reached, hstep, hreached, hfirst⟩ :=
      exists_step_chunk hchunk closing nextId chunks.flatten hrest
    obtain ⟨last, hsteps, hlast, hothers⟩ := ih hchunks reached hreached
    exact ⟨last, .head hstep hsteps, hlast, hfirst.trans hothers⟩

theorem exists_ofTokens_flatten (h : ∀ chunk ∈ chunks, Phrase.Chunk chunk)
    (nextId nextId' : AccessId) :
    ∃ statements,
      Stmt.AllAlike AnyIds Eq statements
        (chunks.flatMap fun chunk => statementsOf (ofTokens chunk nextId').1) ∧
      (ofTokens chunks.flatten nextId).1 =
        if (chunks.flatMap fun chunk => errorsOf (ofTokens chunk nextId').1) = [] then
          .ok statements
        else .error (chunks.flatMap fun chunk => errorsOf (ofTokens chunk nextId').1) := by
  have hopen : ∀ token ∈ chunks.flatten, token.kind ≠ .endOfInput := by
    intro token htoken
    obtain ⟨chunk, hchunk, hmem⟩ := List.mem_flatten.1 htoken
    exact (h chunk hchunk).kind_ne_endOfInput token hmem
  obtain ⟨last, hsteps, hlast, ⟨statements, hstatements, halike⟩, herrors⟩ :=
    exists_steps_chunks h (closing chunks.flatten) nextId' ⟨start chunks.flatten nextId, [], [], []⟩
      (congrArg Reader.rest (start_of_open hopen nextId))
  rw [List.nil_append] at hstatements herrors
  refine ⟨statements, halike, ?_⟩
  rw [ofTokens_of_steps hsteps hlast, hstatements, herrors]

/-- Simple statements that stand one behind the other, malformed or not, are read as each of them is
on its own.

* They are a program exactly if each of them is one.
* Its statements are then those of all of them, but for the numbers of accesses.
* Otherwise what is wrong is what is wrong with each of them: the same problems at the same tokens,
  in this order.
* Each of them is one statement or is malformed in one way only, and that is reported at one of its
  own tokens. -/
theorem reads_chunk_by_chunk (h : ∀ chunk ∈ chunks, Phrase.Chunk chunk)
    (nextId nextId' : AccessId) :
    ((∃ statements, (ofTokens chunks.flatten nextId).1 = .ok statements) ↔
      ∀ chunk ∈ chunks, ∃ statements, (ofTokens chunk nextId').1 = .ok statements) ∧
    (∀ statements, (ofTokens chunks.flatten nextId).1 = .ok statements →
      Stmt.AllAlike AnyIds Eq statements
        (chunks.flatMap fun chunk => statementsOf (ofTokens chunk nextId').1)) ∧
    (∀ errors, (ofTokens chunks.flatten nextId).1 = .error errors →
      errors = chunks.flatMap fun chunk => errorsOf (ofTokens chunk nextId').1) ∧
    ∀ chunk ∈ chunks,
      (∃ statement, (ofTokens chunk nextId').1 = .ok [statement]) ∨
        ∃ error, (ofTokens chunk nextId').1 = .error [error] ∧ error.token ∈ chunk := by
  obtain ⟨statements, halike, hread⟩ := exists_ofTokens_flatten h nextId nextId'
  have hgood : (chunks.flatMap fun chunk => errorsOf (ofTokens chunk nextId').1) = [] ↔
      ∀ chunk ∈ chunks, ∃ statements, (ofTokens chunk nextId').1 = .ok statements :=
    List.flatMap_eq_nil_iff.trans (forall₂_congr fun chunk _ => errorsOf_eq_nil_iff chunk nextId')
  have halone := fun chunk hchunk => ofTokens_chunk (h chunk hchunk) nextId'
  rw [← hgood, hread]
  by_cases hnil : (chunks.flatMap fun chunk => errorsOf (ofTokens chunk nextId').1) = []
  · rw [if_pos hnil]
    refine ⟨⟨fun _ => hnil, fun _ => ⟨statements, rfl⟩⟩, ?_, ?_, halone⟩
    · rintro _ ⟨⟩
      exact halike
    · rintro _ ⟨⟩
  · rw [if_neg hnil]
    refine ⟨⟨?_, fun h => absurd h hnil⟩, ?_, ?_, halone⟩
    · rintro ⟨_, ⟨⟩⟩
    · rintro _ ⟨⟩
    · rintro _ ⟨⟩
      rfl

/-- `+;`, `print 1;` and `var = 1;`: a statement that is well-formed between two that are not. -/
def betweenMalformed : List (List Token) :=
  [[⟨.plus, "+", none, 1⟩, ⟨.semicolon, ";", none, 1⟩],
    [⟨.print, "print", none, 2⟩, ⟨.number, "1", some (.number 1), 2⟩, ⟨.semicolon, ";", none, 2⟩],
    [⟨.var, "var", none, 3⟩, ⟨.equal, "=", none, 3⟩, ⟨.number, "1", some (.number 1), 3⟩,
      ⟨.semicolon, ";", none, 3⟩]]

theorem reads_chunk_by_chunk_between_malformed :
    (∀ chunk ∈ betweenMalformed, Phrase.Chunk chunk) ∧
      errorsOf (ofTokens betweenMalformed.flatten 0).1 =
        betweenMalformed.flatMap fun chunk => errorsOf (ofTokens chunk 0).1 := by
  have hchunks : ∀ chunk ∈ betweenMalformed, Phrase.Chunk chunk := by decide
  have hmalformed : errorsOf (ofTokens betweenMalformed.flatten 0).1 ≠ [] := by decide +kernel
  obtain ⟨-, -, herrors, -⟩ := reads_chunk_by_chunk hchunks 0 0
  refine ⟨hchunks, ?_⟩
  cases hread : (ofTokens betweenMalformed.flatten 0).1 with
  | ok statements => exact absurd (congrArg errorsOf hread) hmalformed
  | error errors => exact herrors errors hread

example : (errorsOf (ofTokens betweenMalformed.flatten 0).1).map (·.token.lexeme) = ["+", "="] := by
  decide +kernel

end Program

end Lox
