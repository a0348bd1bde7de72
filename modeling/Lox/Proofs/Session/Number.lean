/-
# Numbers written and read

A number has one decimal notation, which is what is printed of it, what `str` makes of it, and what
is put behind a text by `+`. Written into a program it stands for the number again. The sign is not
part of the literal but an operator before it, so there is one exception: the smallest number has no
positive counterpart that its digits could stand for, and a program that prints its notation is
malformed.
-/

import Lox.Proofs.Session.History
import Lox.Proofs.Token.Literal

namespace Lox

/-! ## The notation of a number -/

/-- A number other than the smallest one is written as the digits of a number that is not negative,
behind a sign if it is negative itself. -/
theorem Int64.toString_toInt_cases {n : Int64} (hmin : n ≠ Int64.minValue) :
    ∃ value : Nat, value ≤ 2 ^ 63 - 1 ∧
      (toString n.toInt = value.repr ∧ n.toInt = value ∨
        toString n.toInt = "-" ++ value.repr ∧ n.toInt = -value) := by
  have hlt := n.toInt_lt
  have hle := n.le_toInt
  have hne : n.toInt ≠ -2 ^ 63 := fun h => hmin (Int64.toInt_inj.1 h)
  rcases hn : n.toInt with value | value
  · exact ⟨value, by rw [hn] at hlt; simp at hlt; omega, .inl ⟨rfl, rfl⟩⟩
  · exact ⟨value + 1, by omega, .inr ⟨rfl, rfl⟩⟩

namespace Segment

/-- The segments of a statement that prints something. -/
theorem split_print (text : List Char) :
    split ("print ".toList ++ text) =
      ⟨"print".toList, .token .print none⟩ :: ⟨[' '], .skipped⟩ :: split text := by
  have hkeyword : split ("print ".toList ++ text) =
      ⟨"print".toList, .token .print none⟩ :: split (' ' :: text) := split_cons 'p' _
  rw [hkeyword, split_cons]
  rfl

/-- The segments of a number and the semicolon behind it. -/
theorem split_digits {value : Nat} (h : value ≤ 2 ^ 63 - 1) :
    split (Nat.toDigits 10 value ++ [';']) =
      [⟨Nat.toDigits 10 value, .token .number (some (.number (Int64.ofNat value)))⟩,
        ⟨[';'], .token .semicolon none⟩] := by
  have hdigits : ∀ d ∈ Nat.toDigits 10 value, Character.isDigit d = true :=
    fun _ => isDigit_of_mem_toDigits
  have hlongest := @longest_digits _ ';' Nat.toDigits_ne_nil hdigits rfl (by decide) []
  rw [numeral_toDigits h] at hlongest
  exact @split_text_append ⟨_, _⟩ _ hlongest

/-- A minus sign in front of a number is a segment of its own. -/
theorem split_minus {digits : List Char} (h : ∀ d ∈ digits, Character.isDigit d = true)
    (hne : digits ≠ []) (after : List Char) :
    split ('-' :: (digits ++ after)) = ⟨['-'], .token .minus none⟩ :: split (digits ++ after) := by
  have hextent : extent '-' (digits ++ after) = .token .minus 0 := by
    cases digits with
    | nil => exact absurd rfl hne
    | cons d digits =>
      have hd : d ≠ '=' := fun heq => absurd (h d List.mem_cons_self) (by rw [heq]; decide)
      exact if_neg fun heq => hd (Option.some.inj heq)
  rw [split_cons, first, hextent]
  rfl

end Segment

namespace Token

theorem count_newline_toDigits (value : Nat) : (Nat.toDigits 10 value).count '\n' = 0 :=
  List.count_eq_zero.2 (Segment.newline_not_mem_digits fun _ hd =>
    Segment.isDigit_of_mem_toDigits hd)

/-- The tokens of a statement on one line that prints something. -/
theorem scan_print {operand : String} (hline : operand.toList.count '\n' = 0)
    (hproblem : ∀ segment ∈ Segment.split (operand.toList ++ [';']), segment.problem? = none) :
    scan ("print " ++ operand ++ ";") =
      .ok (⟨.print, "print", none, 1⟩ ::
        (Segment.collect Segment.token? [] (Segment.split (operand.toList ++ [';'])) ++
          [endOfInput 1])) := by
  have htext : ("print " ++ operand ++ ";").toList =
      "print ".toList ++ (operand.toList ++ [';']) := by
    rw [String.toList_append, String.toList_append, List.append_assoc]
    rfl
  have hlines : lineCount ("print " ++ operand ++ ";") = 1 := by
    rw [lineCount, htext, List.count_append, List.count_append, hline]
    rfl
  rw [scan_eq_ok_iff, htext, hlines, Segment.split_print]
  refine ⟨List.forall_mem_cons.2 ⟨rfl, List.forall_mem_cons.2 ⟨rfl, hproblem⟩⟩, ?_⟩
  have hbefore := @Segment.collect_token?_congr [] "print ".toList rfl
    (Segment.split (operand.toList ++ [';']))
  rw [hbefore]
  rfl

/-- The tokens of a statement that prints a number. -/
theorem scan_print_number {value : Nat} (h : value ≤ 2 ^ 63 - 1) :
    scan ("print " ++ value.repr ++ ";") =
      .ok [⟨.print, "print", none, 1⟩,
        ⟨.number, value.repr, some (.number (Int64.ofNat value)), 1⟩,
        ⟨.semicolon, ";", none, 1⟩, endOfInput 1] := by
  have hline := count_newline_toDigits value
  have hsplit := Segment.split_digits h
  rw [← Nat.toList_repr] at hline hsplit
  rw [scan_print hline (by rw [hsplit]; simp [Segment.problem?]), hsplit]
  simp [Segment.collect, Segment.token?, count_newline_toDigits, Nat.repr_eq_ofList_toDigits]

/-- The tokens of a statement that prints a number with a sign. -/
theorem scan_print_minus {value : Nat} (h : value ≤ 2 ^ 63 - 1) :
    scan ("print " ++ ("-" ++ value.repr) ++ ";") =
      .ok [⟨.print, "print", none, 1⟩, ⟨.minus, "-", none, 1⟩,
        ⟨.number, value.repr, some (.number (Int64.ofNat value)), 1⟩,
        ⟨.semicolon, ";", none, 1⟩, endOfInput 1] := by
  have hline := count_newline_toDigits value
  have hdigits : ∀ d ∈ Nat.toDigits 10 value, Character.isDigit d = true :=
    fun _ => Segment.isDigit_of_mem_toDigits
  have hsplit := Segment.split_minus hdigits Nat.toDigits_ne_nil [';']
  rw [Segment.split_digits h] at hsplit
  rw [← Nat.toList_repr] at hline hsplit
  have htext : ("-" ++ value.repr).toList = '-' :: value.repr.toList := String.toList_append
  rw [scan_print (by rw [htext]; simp [count_newline_toDigits])
    (by rw [htext, List.cons_append, hsplit]; simp [Segment.problem?]), htext, List.cons_append,
    hsplit]
  simp [Segment.collect, Segment.token?, count_newline_toDigits, Nat.repr_eq_ofList_toDigits]

end Token

/-! ## The text of a number in a run -/

namespace Run

variable {run : Run} {state middle reached : State} {e : Expr}

theorem answers_literal {constant : Constant} :
    run.Answers (.expression (.literal constant)) state (.ok (.ofConstant constant), state) :=
  Routine.ends_pure.2 rfl

theorem answers_print {keyword : Token} {value : Value}
    (h : run.Answers (.expression e) state (.ok value, reached)) :
    run.Answers (.statement (.print keyword e)) state (.ok .normal, reached.print value.display) :=
  (Routine.ends_call.2 h).bind ((Routine.ends_modify.2 rfl).bind (Routine.ends_pure.2 rfl))

theorem answers_unary {operator : Token} {operand value : Value}
    (h : run.Answers (.expression e) state (.ok operand, reached))
    (hoperator : Operator.unary operator operand = .ok value) :
    run.Answers (.expression (.unary operator e)) state (.ok value, reached) :=
  (Routine.ends_call.2 h).bind (Routine.ends_step.2 (congrArg (·, reached) hoperator.symm))

theorem answers_binary {operator : Token} {f : Expr} {left right value : Value}
    (hleft : run.Answers (.expression e) state (.ok left, middle))
    (hright : run.Answers (.expression f) middle (.ok right, reached))
    (hoperator : Operator.binary operator left right = .ok value) :
    run.Answers (.expression (.binary e operator f)) state (.ok value, reached) :=
  (Routine.ends_call.2 hleft).bind ((Routine.ends_call.2 hright).bind
    (Routine.ends_step.2 (congrArg (·, reached) hoperator.symm)))

/-- Where another call may begin, `str` makes of a value what would be printed of it. -/
theorem answers_str {callee : Expr} {paren : Token} {identity : Nat} {value : Value}
    (hcallee : run.Answers (.expression callee) state
      (.ok (.callable identity (.builtin .str)), middle))
    (h : run.Answers (.expression e) middle (.ok value, reached))
    (hdepth : reached.callDepth < run.setting.config.maxCallDepth) :
    run.Answers (.expression (.call callee paren [e])) state
      (.ok (.string value.display), reached) := by
  have hnone : run.Answers (.arguments []) reached (.ok [], reached) := Routine.ends_pure.2 rfl
  have hothers : Routine.Ends (Code.execute run.setting)
      (Routine.call (Code.arguments []) : Code.Step (List Value)) reached (.ok [], reached) :=
    Routine.ends_call.2 hnone
  have hpassed : run.Answers (.arguments [e]) middle (.ok [value], reached) :=
    (Routine.ends_call.2 h).bind (hothers.bind (Routine.ends_pure.2 rfl))
  refine (Routine.ends_call.2 hcallee).bind
    ((Routine.ends_call.2 hpassed).bind ((Routine.ends_gets.2 rfl).bind ?_))
  have harity : ¬[value].length ≠ (Callable.builtin .str).arity := fun h => h rfl
  rw [if_neg harity, if_neg (Nat.not_le.2 hdepth), Code.perform_builtin]
  exact Routine.ends_step.2 rfl

end Run

namespace Session

variable (host : Host) {session : Session} {source : String}

/-- A text that is a statement that prints a value prints this value. -/
theorem exists_run_print {tokens : List Token} (keyword : Token) {e : Expr} {nextId : AccessId}
    {depths : BindingDepths} {value : Value} (hscan : Token.scan source = .ok tokens)
    (hprogram : Program.ofTokens tokens session.nextId = (.ok [.print keyword e], nextId))
    (hdepths : Program.bindingDepths [.print keyword e] = .ok depths)
    (hvalue : ∀ run : Run, run.Answers (.expression e) session.state (.ok value, session.state)) :
    ∃ rounds after, session.run host rounds source =
      some (⟨.ok (), (session.state.output ++ value.display).push '\n'⟩, after) := by
  obtain ⟨setting, hbegin⟩ : ∃ setting,
      session.begin? host source = some ⟨setting, [.print keyword e], session.state⟩ := by
    by_cases hresolver : session.config.useResolver
    · exact ⟨_, begin?_eq_some host hscan hprogram ((if_pos hresolver).mpr hdepths)⟩
    · exact ⟨_, begin?_eq_some host hscan hprogram ((if_neg hresolver).mpr rfl)⟩
  have hends : Run.Ends ⟨setting, [.print keyword e], session.state⟩ (.ok ())
      (session.state.print value.display) :=
    (Routine.ends_call.2 (Run.answers_print (hvalue _))).bind (Routine.ends_pure.2 rfl)
  obtain ⟨rounds, hrun⟩ := exists_run_iff.2 (.inr ⟨_, _, _, hbegin, hends, rfl, rfl⟩)
  exact ⟨rounds, _, hrun⟩

/-- A text that prints the notation of a number prints just this, unless it is that of the smallest
number. -/
theorem exists_run_print_number {n : Int64} (hmin : n ≠ Int64.minValue) :
    ∃ rounds after, session.run host rounds ("print " ++ toString n.toInt ++ ";") =
      some (⟨.ok (), (session.state.output ++ toString n.toInt).push '\n'⟩, after) := by
  obtain ⟨value, hle, ⟨htext, hvalue⟩ | ⟨htext, hvalue⟩⟩ := Int64.toString_toInt_cases hmin
  · have hn : n = Int64.ofNat value := by
      rw [← Int64.toInt_inj, hvalue, Segment.toInt_ofNat hle]
    rw [htext]
    have hread (run : Run) : run.Answers (.expression (.literal (.number (Int64.ofNat value))))
        session.state (.ok (.number n), session.state) := by
      rw [hn]
      exact Run.answers_literal
    have hprinted := exists_run_print host ⟨.print, "print", none, 1⟩
      (Token.scan_print_number hle) (@Program.ofTokens_eq_of_run _ [] _ _ [.print _ _] 40 rfl)
      rfl hread
    rwa [Value.display, htext] at hprinted
  · have hminus : Operator.unary ⟨.minus, "-", none, 1⟩ (.number (Int64.ofNat value)) =
        .ok (.number n) := by
      refine Operator.arithmetic_eq_number_iff.2 ?_
      rw [hvalue, Segment.toInt_ofNat hle]
    rw [htext]
    have hread (run : Run) : run.Answers
        (.expression (.unary ⟨.minus, "-", none, 1⟩ (.literal (.number (Int64.ofNat value)))))
        session.state (.ok (.number n), session.state) :=
      @Run.answers_unary run _ _ _ _ (.number (Int64.ofNat value)) _ Run.answers_literal hminus
    have hprinted := exists_run_print host ⟨.print, "print", none, 1⟩
      (Token.scan_print_minus hle) (@Program.ofTokens_eq_of_run _ [] _ _ [.print _ _] 40 rfl)
      rfl hread
    rwa [Value.display, htext] at hprinted

/-- The notation of the smallest number is no number with a sign. -/
theorem run_print_minValue (rounds : Nat) :
    session.run host rounds ("print " ++ toString Int64.minValue.toInt ++ ";") =
      some (⟨.error (.scan [⟨.numberTooLarge "9223372036854775808", 1⟩]), ""⟩, session) := by
  rfl

end Session

/-! ## Main result -/

namespace Session

/-- Numbers go through text and back.

Digits, however many zeros they begin with, are scanned to what they stand for as long as that is
less than `2 ^ 63`, and are reported as too large otherwise, with their fraction. Where the value of
an expression is a number, printing it, putting it behind an empty text and calling `str` with it,
if there is room for a call, give one and the same notation. A program that prints this notation
prints it again, whatever was run before, except for the smallest number: there its digits are too
large. -/
theorem numbers_read_back :
    (∀ digits fraction : List Char, digits ≠ [] → (∀ d ∈ digits, Character.isDigit d = true) →
      Segment.Fraction fraction →
      (Segment.decimal digits ≤ 2 ^ 63 - 1 → ∃ n : Int64, n.toInt = Segment.decimal digits ∧
        Token.scan (String.ofList (digits ++ fraction)) =
          .ok [⟨.number, String.ofList (digits ++ fraction), some (.number n), 1⟩,
            Token.endOfInput 1]) ∧
      (2 ^ 63 - 1 < Segment.decimal digits → Token.scan (String.ofList (digits ++ fraction)) =
        .error [⟨.numberTooLarge (String.ofList (digits ++ fraction)), 1⟩])) ∧
    (∀ (run : Run) (e : Expr) (n : Int64) (state reached : State),
      run.Answers (.expression e) state (.ok (.number n), reached) →
      (∀ keyword : Token, run.Answers (.statement (.print keyword e)) state
        (.ok .normal, reached.print (toString n.toInt))) ∧
      (∀ operator : Token, operator.kind = .plus → run.Answers
        (.expression (.binary (.literal (.string "")) operator e)) state
        (.ok (.string (toString n.toInt)), reached)) ∧
      (∀ (callee : Expr) (paren : Token) (identity : Nat) (before : State),
        run.Answers (.expression callee) before
          (.ok (.callable identity (.builtin .str)), state) →
        reached.callDepth < run.setting.config.maxCallDepth →
        run.Answers (.expression (.call callee paren [e])) before
          (.ok (.string (toString n.toInt)), reached))) ∧
    (∀ (host : Host) (config : Config) (past : List Run) (session : Session) (n : Int64),
      History host config past session →
      (n ≠ Int64.minValue → ∃ rounds after,
        session.run host rounds ("print " ++ toString n.toInt ++ ";") =
          some (⟨.ok (), toString n.toInt ++ "\n"⟩, after)) ∧
      (n = Int64.minValue → ∀ rounds,
        session.run host rounds ("print " ++ toString n.toInt ++ ";") =
          some (⟨.error (.scan [⟨.numberTooLarge "9223372036854775808", 1⟩]), ""⟩, session))) := by
  refine ⟨fun digits fraction hne hdigits hfraction => Token.scan_number hne hdigits hfraction,
    fun run e n state reached hvalue => ⟨fun keyword => Run.answers_print hvalue, ?_, ?_⟩,
    fun host config past session n hhistory => ⟨fun hmin => ?_, ?_⟩⟩
  · intro operator hplus
    have hempty : run.Answers (.expression (.literal (.string ""))) state
        (.ok (.string ""), state) := Run.answers_literal
    refine Run.answers_binary hempty hvalue ?_
    rw [Operator.binary, hplus]
    exact congrArg (fun text => Except.ok (Value.string text)) String.empty_append
  · intro callee paren identity before hcallee hdepth
    exact Run.answers_str hcallee hvalue hdepth
  · obtain ⟨rounds, after, hrun⟩ := exists_run_print_number host hmin
    rw [hhistory.chronicle.output_eq, String.empty_append] at hrun
    exact ⟨rounds, after, hrun⟩
  · rintro rfl rounds
    exact run_print_minValue host rounds

/-- The largest number and the one above it with a fraction; the smallest number in a run; and, at
the start of a session, the smallest number that can be written and the one below it. -/
theorem numbers_read_back_at_boundary :
    let host : Host := ⟨fun _ => .unset, fun _ => 0⟩
    let run : Run := ⟨⟨.default, ∅, host⟩, [], .initial⟩
    let number : Expr := .literal (.number Int64.minValue)
    ((∃ n : Int64, n.toInt = 2 ^ 63 - 1 ∧ Token.scan "09223372036854775807.5" =
        .ok [⟨.number, "09223372036854775807.5", some (.number n), 1⟩, Token.endOfInput 1]) ∧
      Token.scan "09223372036854775808.5" =
        .error [⟨.numberTooLarge "09223372036854775808.5", 1⟩]) ∧
    (run.Answers (.statement (.print ⟨.print, "print", none, 1⟩ number)) .initial
        (.ok .normal, State.initial.print "-9223372036854775808") ∧
      run.Answers (.expression (.binary (.literal (.string "")) ⟨.plus, "+", none, 1⟩ number))
        .initial (.ok (.string "-9223372036854775808"), .initial) ∧
      run.Answers (.expression (.call (.read 0 (.identifier "str" 1))
        ⟨.rightParen, ")", none, 1⟩ [number])) .initial
        (.ok (.string "-9223372036854775808"), .initial)) ∧
    (∃ rounds after, (start .default).run host rounds "print -9223372036854775807;" =
      some (⟨.ok (), "-9223372036854775807\n"⟩, after)) ∧
    ∀ rounds, (start .default).run host rounds "print -9223372036854775808;" =
      some (⟨.error (.scan [⟨.numberTooLarge "9223372036854775808", 1⟩]), ""⟩, start .default) := by
  intro host run number
  have hdigits (digits : List Char) (h : digits.all Character.isDigit = true) :
      ∀ d ∈ digits, Character.isDigit d = true := List.all_eq_true.1 h
  have hfraction : Segment.Fraction ['.', '5'] := .some (by decide) (hdigits _ rfl)
  obtain ⟨hlargest, -⟩ := numbers_read_back.1 "09223372036854775807".toList ['.', '5'] (by decide)
    (hdigits _ rfl) hfraction
  obtain ⟨-, hlarger⟩ := numbers_read_back.1 "09223372036854775808".toList ['.', '5'] (by decide)
    (hdigits _ rfl) hfraction
  obtain ⟨hprint, hplus, hstr⟩ := numbers_read_back.2.1 run number Int64.minValue .initial .initial
    Run.answers_literal
  refine ⟨⟨hlargest (by decide), hlarger (by decide)⟩,
    ⟨hprint _, hplus _ rfl, hstr _ _ _ .initial ⟨2, rfl⟩ (by decide)⟩, ?_, ?_⟩
  · exact (numbers_read_back.2.2 host .default _ _ (-9223372036854775807) .start).1 (by decide)
  · exact (numbers_read_back.2.2 host .default _ _ Int64.minValue .start).2 rfl

end Session

end Lox
