/-
# Compound assignments

`x += e` is `x = x + (e)`, and `x -= e` is `x = x - (e)`, wherever an assignment may stand. A
program in which the one is written in the place of the other is accepted like the program that it
comes from, with the same depth at every access. In each mode it does the same whenever it is
executed, and so does whatever is run later, but that the faults of the operator name `+` and `-`
instead of `+=` and `-=` (`Session.compound_assignments_are_assignments`).

The variable is read before the operand is evaluated, in both cases, so it does not matter what the
operand assigns to it.
-/

import Lox.Proofs.Grammar.Context
import Lox.Proofs.Session.Recast
import Lox.Proofs.Session.Spending

namespace Lox

/-- The operator that a compound assignment applies. -/
inductive Token.Applies (operator plain : Token) : Prop
  | plus (hoperator : operator.kind = .plusEqual) (hplain : plain.kind = .plus)
  | minus (hoperator : operator.kind = .minusEqual) (hplain : plain.kind = .minus)

/-! ## Faults of the operator -/

/-- Two faults are the same, or they are faults of an operator, the one named in the place of the
other. -/
inductive Fault.Renames (operator plain : Token) : Fault → Fault → Prop
  | same {fault : Fault} : Fault.Renames operator plain fault fault
  | operands {cause : FaultCause}
      (hcause : cause ∈ [.operandsNotNumbers, .operandsNotAddable, .stringAddedToNumber]) :
      Fault.Renames operator plain ⟨operator, cause⟩ ⟨plain, cause⟩
  | overflow :
      Fault.Renames operator plain ⟨operator, .overflow operator.lexeme⟩
        ⟨plain, .overflow plain.lexeme⟩

namespace Operator

variable {operator plain : Token}

theorem failAlike_renames : FailAlike (Fault.Renames operator plain) operator plain where
  operands _ hcause := .operands hcause
  overflow := .overflow

/-- The operator of a compound assignment does what the plain one does, but for its name. -/
theorem binary_renames (h : operator.Applies plain) (left right : Value) :
    ResultAlike (Fault.Renames operator plain) Eq (binary operator left right)
      (binary plain left right) := by
  unfold binary
  cases h with
  | plus hoperator hplain =>
    rw [hoperator, hplain]
    exact failAlike_renames.add fun _ _ => rfl
  | minus hoperator hplain =>
    rw [hoperator, hplain]
    exact failAlike_renames.onNumbers fun _ _ => failAlike_renames.arithmetic (fun _ _ => rfl) _

end Operator

/-- The plain operator may be written instead of that of a compound assignment. -/
def Rewording.compound {operator plain : Token} (h : operator.Applies plain) : Rewording where
  operators written written' := written = written' ∨ written = operator ∧ written' = plain
  faults := Fault.Renames operator plain
  operators_refl _ := .inl rfl
  faults_refl _ := .same
  binary := by
    rintro written _ (rfl | ⟨rfl, rfl⟩) left right
    · cases Operator.binary written left right with
      | ok value => exact .ok rfl
      | error fault => exact .error .same
    · exact Operator.binary_renames h left right

/-! ## Programs with a compound assignment -/

namespace Grammar

/-- The first tokens have `x += e` or `x -= e` in a place where an expression may stand, and the
second have `x = x + (e)` or `x = x - (e)` there. With both go the trees. -/
inductive SpelledOut (operator plain : Token) :
    (tokens : List Token) → (tree : List Stmt) → (tokens' : List Token) → (tree' : List Stmt) → Prop
  | intro {before after us : List Token} {build : Expr → List Stmt} {e : Expr}
      {name equal opening closing : Token} (hcontext : Context .declarations before after build)
      (hname : name.kind = .identifier) (hvalue : Derives (.expression .assignment) us e)
      (hequal : equal.kind = .equal) (hopening : opening.kind = .leftParen)
      (hclosing : closing.kind = .rightParen) :
      SpelledOut operator plain (before ++ name :: operator :: (us ++ after))
        (build (.assign 0 name (.binary (.read 0 name) operator e)))
        (before ++ name :: equal :: name :: plain :: opening :: (us ++ closing :: after))
        (build (.assign 0 name (.binary (.read 0 name) plain (.group e))))

/-- The sum or difference of a variable and an expression in parentheses is an expression. -/
theorem derives_operation {name plain opening closing : Token} {us : List Token} {e : Expr}
    (hname : name.kind = .identifier) (hplain : plain.kind = .plus ∨ plain.kind = .minus)
    (hopening : opening.kind = .leftParen) (hvalue : Derives (.expression .assignment) us e)
    (hclosing : closing.kind = .rightParen) :
    Derives (.expression .assignment) (name :: plain :: opening :: (us ++ [closing]))
      (.binary (.read 0 name) plain (.group e)) := by
  have hfactor : ∀ {ts : List Token} {e : Expr}, Derives (.expression .primary) ts e →
      Derives (.expression (.operation .factor)) ts e := fun h =>
        .noOperation (.noUnary (.noCall h))
  have hleft : Derives (.expression (.operation .term)) [name] (.read 0 name) :=
    .noOperation (hfactor (.read hname))
  have hoperator : plain.kind ∈ operators .term := by
    rcases hplain with h | h <;> simp [operators, h]
  have hterm := Derives.operation hleft hoperator (hfactor (.group hopening hvalue hclosing))
  exact .noAssignment (.noConditional
    (.noOperation (.noOperation (.noOperation (.noOperation hterm)))))

namespace SpelledOut

variable {operator plain : Token} {tokens tokens' : List Token} {tree tree' : List Stmt}
  (h : SpelledOut operator plain tokens tree tokens' tree') (happlies : operator.Applies plain)
include h happlies

theorem derives : Derives .declarations tokens tree := by
  cases h with
  | intro hcontext hname hvalue =>
    refine hcontext.derives (.compound hname ?_ hvalue)
    cases happlies with
    | plus hoperator => exact .inl hoperator
    | minus hoperator => exact .inr hoperator

theorem derives' : Derives .declarations tokens' tree' := by
  cases h with
  | intro hcontext hname hvalue hequal hopening hclosing =>
    have hplain : plain.kind = .plus ∨ plain.kind = .minus := by
      cases happlies with
      | plus _ hplain => exact .inl hplain
      | minus _ hplain => exact .inr hplain
    have hassign := Derives.assign hname hequal
      (derives_operation hname hplain hopening hvalue hclosing)
    simpa using hcontext.derives hassign

/-- The second tree is the first with the plain operator and parentheses. -/
theorem recast : Stmt.AllRecast (Rewording.compound happlies).static [false] tree tree' := by
  cases h with
  | @intro _ _ _ _ e =>
    have hr := (Rewording.compound happlies).renumbers_static
    have hself : ∀ marks, AllKept marks → ∀ e : Expr, e.Recast _ marks e := fun marks hmarks e =>
      (Expr.Alike.refl (fun _ => trivial) (fun _ => rfl) e).recast hr hmarks
    rename_i hcontext _ _ _ _ _
    exact hcontext.recast hr (fun marks hmarks => .assign hmarks
      (.grouped (hself marks hmarks _) (.inr ⟨rfl, rfl⟩) (hself marks hmarks e)))
        (@AllKept.replicate 1)

end SpelledOut

end Grammar

/-- A text is read as some statements, from whatever number on. -/
def Program.AlwaysReadAs (source : String) (tree : List Stmt) : Prop :=
  ∀ nextId, ∃ tokens program next, Token.scan source = .ok tokens ∧
    ofTokens tokens nextId = (.ok program, next) ∧ Stmt.allUnnumbered program = tree

theorem Program.alwaysReadAs_of_derives {source : String} {ts : List Token} {tree : List Stmt}
    {last : Nat} (hscan : Token.scan source = .ok (ts ++ [Token.endOfInput last]))
    (h : Grammar.Derives .declarations ts tree) : AlwaysReadAs source tree := by
  intro nextId
  obtain ⟨program, next, hprogram, hunnumbered⟩ := exists_ofTokens_append h last nextId
  exact ⟨_, program, next, hscan, hprogram, hunnumbered⟩

namespace Session

variable {host : Host} {config : Config} {past : List Run} {session : Session}
  {source source' : String} {operator plain : Token} {tokens tokens' : List Token}
  {tree tree' : List Stmt} {last last' : Nat}

/-- Compound assignments are assignments. In a program let `x = x + (e)` or `x = x - (e)` be written
in the place of `x += e` or `x -= e`. Then both programs keep to the grammar. In every session that
texts were run in, with the resolver and without it, both are accepted, with the same depths at all
accesses, or both are rejected for the same reasons. And if the one is run in the place of the
other, then it and whatever is run later come to an end just when they would have, print the same
and come to the same results, but that a fault of the operator names the one that is written, as
long as low bits are enough for the numbers of all accesses. -/
theorem compound_assignments_are_assignments (h : History host config past session)
    (hspelled : Grammar.SpelledOut operator plain tokens tree tokens' tree')
    (happlies : operator.Applies plain)
    (hscan : Token.scan source = .ok (tokens ++ [Token.endOfInput last]))
    (hscan' : Token.scan source' = .ok (tokens' ++ [Token.endOfInput last'])) :
    (Program.AlwaysReadAs source tree ∧ Program.AlwaysReadAs source' tree') ∧
      ResultAlike Eq
        (fun prepared prepared' =>
          Stmt.allUnnumbered prepared.1 = tree ∧ Stmt.allUnnumbered prepared'.1 = tree' ∧
            List.Forall₂ (fun id id' => prepared.2[id]? = prepared'.2[id']?)
              (Stmt.allIds prepared.1) (Stmt.allIds prepared'.1))
        (session.prepare source).1 (session.prepare source').1 ∧
      ∀ host' later, session.HasRoom (source :: later) → session.HasRoom (source' :: later) →
        EndsRelated (List.Forall₂ (Report.SameBut (Fault.Renames operator plain)))
          (fun rounds => (session.runAll host' rounds (source :: later)).map Prod.fst)
          fun rounds => (session.runAll host' rounds (source' :: later)).map Prod.fst := by
  have hreads := Program.alwaysReadAs_of_derives hscan (hspelled.derives happlies)
  have hreads' := Program.alwaysReadAs_of_derives hscan' (hspelled.derives' happlies)
  obtain ⟨ts, program, nextId, hts, hprogram, htree⟩ := hreads session.nextId
  obtain ⟨ts', program', nextId', hts', hprogram', htree'⟩ := hreads' session.nextId
  have hrecast : Stmt.AllRecast (Rewording.compound happlies).static [false] program program' := by
    have hself : ∀ ss, Stmt.AllAlike AnyIds Eq ss ss := .refl (fun _ => trivial) fun _ => rfl
    have hunnumbered := hspelled.recast happlies
    rw [← htree, ← htree'] at hunnumbered
    exact hunnumbered.alike (Rewording.compound happlies).ignoresIds_static
      (hself _).unnumbered (hself _).unnumbered
  have hprepared := resultAlike_prepare rfl hts hts' hprogram hprogram' (hrecast.sites .top)
  refine ⟨⟨hreads, hreads'⟩, ?_, fun host' later hroom hroom' => ?_⟩
  · refine hprepared.mono (fun _ _ hfailure => hfailure.eq) ?_
    rintro ⟨_, depths⟩ ⟨_, depths'⟩ ⟨rfl, rfl, hdepths⟩
    exact ⟨htree, htree', hdepths⟩
  · have hself := h.recast hroom.nextId_lt (Rewording.compound happlies)
    have hlt := hroom.prepare_lt
    have hlt' := hroom'.prepare_lt
    have hrun : EndsRelated (RunsRelated (Report.SameBut (Fault.Renames operator plain))
        (Session.Recast (Rewording.compound happlies)))
          (fun rounds => session.run host' rounds source)
        fun rounds => session.run host' rounds source' := by
      generalize hprepare : session.prepare source = prepared at hprepared hlt
      generalize hprepare' : session.prepare source' = prepared' at hprepared hlt'
      obtain ⟨result, next⟩ := prepared
      obtain ⟨result', next'⟩ := prepared'
      cases hprepared with
      | error hfailure =>
        cases hfailure.eq
        exact hself.endsRelated_run_of_error hprepare hprepare' host'
      | @ok prepared prepared' hsame =>
        obtain ⟨_, depths⟩ := prepared
        obtain ⟨_, depths'⟩ := prepared'
        obtain ⟨rfl, rfl, -⟩ := hsame
        exact hself.endsRelated_run_of_prepare hprepare hprepare' hlt hlt' hrecast host'
    have hruns := endsRelated_runAll_cons hrun fun hnext hnext' hrecast =>
      hrecast.endsRelated_runAll (hroom.tail hnext) (hroom'.tail hnext') host'
    exact hruns.map fun _ _ hreports => hreports.1

/-- A function adds to a variable what another function returns, which assigns the variable. It is
called in later texts, the last time with a value that nothing can be added to. -/
theorem compound_assignments_are_assignments_in_function :
    ∃ past session, History ⟨fun _ => .unset, fun _ => 0⟩ .default past session ∧
      ∃ rounds report, (session.runAll ⟨fun _ => .unset, fun _ => 0⟩ rounds
          ["fun g() { x = x + (f()); }", "g(); print x;", "x = nil; g();"]).map Prod.fst =
            some [⟨.ok (), ""⟩, ⟨.ok (), "3\n"⟩, report] ∧
        Report.SameBut (Fault.Renames ⟨.plusEqual, "+=", none, 1⟩ ⟨.plus, "+", none, 1⟩)
          ⟨.error (.runtime ⟨⟨.plusEqual, "+=", none, 1⟩, .operandsNotAddable⟩), ""⟩ report := by
  have hsession : ∃ past session, History ⟨fun _ => .unset, fun _ => 0⟩ .default past session ∧
      session.nextId = 2 ∧ (session.runAll ⟨fun _ => .unset, fun _ => 0⟩ 50
        ["fun g() { x += f(); }", "g(); print x;", "x = nil; g();"]).map Prod.fst =
          some [⟨.ok (), ""⟩, ⟨.ok (), "3\n"⟩,
            ⟨.error (.runtime ⟨⟨.plusEqual, "+=", none, 1⟩, .operandsNotAddable⟩), ""⟩] :=
    ⟨_, _, @History.run _ _ _ _ _ "var x = 1; fun f() { x = 10; return 2; }" 50 _ .start rfl, rfl,
      rfl⟩
  have hcall : Grammar.Derives (.expression .assignment)
      [.identifier "f" 1, ⟨.leftParen, "(", none, 1⟩, ⟨.rightParen, ")", none, 1⟩]
      (.call (.read 0 (.identifier "f" 1)) ⟨.rightParen, ")", none, 1⟩ []) :=
    .of_call (.call (.noCall (.read rfl)) rfl .noArguments rfl)
  have hcontext := Grammar.Context.firstDeclaration
    (@Grammar.Context.function ⟨.fun, "fun", none, 1⟩ (.identifier "g" 1) ⟨.leftParen, "(", none, 1⟩
      ⟨.rightParen, ")", none, 1⟩ ⟨.leftBrace, "\x7b", none, 1⟩
        ⟨.rightBrace, "\x7d", none, 1⟩ _ _ _ _ _
      rfl rfl rfl .noParameters rfl rfl
      (.firstDeclaration (.statement (@Grammar.Context.expression ⟨.semicolon, ";", none, 1⟩ _ _ _
        .here rfl)) .noDeclarations) rfl) .noDeclarations
  have hspelled := @Grammar.SpelledOut.intro ⟨.plusEqual, "+=", none, 1⟩ ⟨.plus, "+", none, 1⟩ _ _ _
    _ _ (.identifier "x" 1) ⟨.equal, "=", none, 1⟩ ⟨.leftParen, "(", none, 1⟩
    ⟨.rightParen, ")", none, 1⟩ hcontext rfl hcall rfl rfl rfl
  obtain ⟨past, session, hpast, hnextId, hreports⟩ := hsession
  have hroom : session.HasRoom ["fun g() { x += f(); }", "g(); print x;", "x = nil; g();"] ∧
      session.HasRoom ["fun g() { x = x + (f()); }", "g(); print x;", "x = nil; g();"] := by
    unfold HasRoom
    rw [hnextId]
    decide
  obtain ⟨-, -, hruns⟩ := compound_assignments_are_assignments hpast hspelled (.plus rfl rfl)
    (@rfl _ (Token.scan "fun g() { x += f(); }"))
    (@rfl _ (Token.scan "fun g() { x = x + (f()); }"))
  obtain ⟨reports, ⟨rounds, hrounds⟩, hsame⟩ :=
    (hruns ⟨fun _ => .unset, fun _ => 0⟩ ["g(); print x;", "x = nil; g();"] hroom.1 hroom.2).forth _
      ⟨50, hreports⟩
  refine ⟨past, session, hpast, rounds, ?_⟩
  rw [hrounds]
  cases hsame with
  | cons hfirst hsame =>
    cases hsame with
    | cons hsecond hsame =>
      cases hsame with
      | cons hthird hnil =>
        cases hnil
        rw [Report.eq_of_ok hfirst.result hfirst.output rfl,
          Report.eq_of_ok hsecond.result hsecond.output rfl]
        exact ⟨_, rfl, hthird⟩

/-- Where low bits are not enough, the two may differ. The accesses of the one program have other
numbers than those of the other, so the low bits of another access turn up that a depth is known
for: in the second program it is that of the global variable, which is looked for in the block. -/
theorem compound_assignments_differ_without_room :
    ∃ past session tokens tree tokens' tree',
      History ⟨fun _ => .unset, fun _ => 0⟩ .default past session ∧
      Grammar.SpelledOut ⟨.plusEqual, "+=", none, 1⟩ ⟨.plus, "+", none, 1⟩ tokens tree tokens'
        tree' ∧
      Token.scan "{ var y = 2; x += y; }" = .ok (tokens ++ [Token.endOfInput 1]) ∧
      Token.scan "{ var y = 2; x = x + (y); }" = .ok (tokens' ++ [Token.endOfInput 1]) ∧
      (session.runAll ⟨fun _ => .unset, fun _ => 0⟩ 50
        ["{ var y = 2; x += y; }", "print x;"]).map Prod.fst =
          some [⟨.ok (), ""⟩, ⟨.ok (), "3\n"⟩] ∧
      (session.runAll ⟨fun _ => .unset, fun _ => 0⟩ 50
        ["{ var y = 2; x = x + (y); }", "print x;"]).map Prod.fst =
          some [⟨.error (.runtime ⟨.identifier "x" 1, .internal (.missingVariable 0 "x")⟩), ""⟩,
            ⟨.ok (), "1\n"⟩] := by
  have hread : Grammar.Derives (.expression .assignment) [.identifier "y" 1]
      (.read 0 (.identifier "y" 1)) := .of_call (.noCall (.read rfl))
  have htwo : Grammar.Derives (.expression .assignment) [⟨.number, "2", some (.number 2), 1⟩]
      (.literal (.number 2)) := .of_call (.noCall (.numberLiteral (.inl rfl) rfl))
  have hvar : Grammar.Derives .declaration [⟨.var, "var", none, 1⟩, .identifier "y" 1,
      ⟨.equal, "=", none, 1⟩, ⟨.number, "2", some (.number 2), 1⟩, ⟨.semicolon, ";", none, 1⟩]
      (.var (.identifier "y" 1) (some (.literal (.number 2)))) :=
    .var rfl (.initialized rfl rfl htwo rfl)
  have hcontext := Grammar.Context.firstDeclaration
    (.statement (@Grammar.Context.block ⟨.leftBrace, "\x7b", none, 1⟩ ⟨.rightBrace, "\x7d", none, 1⟩
      _ _ _ rfl (.otherDeclarations hvar (.firstDeclaration (.statement
        (@Grammar.Context.expression ⟨.semicolon, ";", none, 1⟩ _ _ _ .here rfl))
          .noDeclarations)) rfl)) .noDeclarations
  have hspelled := @Grammar.SpelledOut.intro ⟨.plusEqual, "+=", none, 1⟩ ⟨.plus, "+", none, 1⟩ _ _ _
    _ _ (.identifier "x" 1) ⟨.equal, "=", none, 1⟩ ⟨.leftParen, "(", none, 1⟩
    ⟨.rightParen, ")", none, 1⟩ hcontext rfl hread rfl rfl rfl
  have hsession : ∃ past session, History ⟨fun _ => .unset, fun _ => 0⟩ .default past session ∧
      session.nextId + (UInt32.size - 2) = UInt32.size ∧
      ({ session with nextId := UInt32.size }.runAll ⟨fun _ => .unset, fun _ => 0⟩ 50
        ["{ var y = 2; x += y; }", "print x;"]).map Prod.fst =
          some [⟨.ok (), ""⟩, ⟨.ok (), "3\n"⟩] ∧
      ({ session with nextId := UInt32.size }.runAll ⟨fun _ => .unset, fun _ => 0⟩ 50
        ["{ var y = 2; x = x + (y); }", "print x;"]).map Prod.fst =
          some [⟨.error (.runtime ⟨.identifier "x" 1, .internal (.missingVariable 0 "x")⟩), ""⟩,
            ⟨.ok (), "1\n"⟩] :=
    ⟨_, _, @History.run _ _ _ _ _ "var x = 1; { x; var z; z; }" 50 _ .start rfl, rfl, rfl, rfl⟩
  obtain ⟨past, session, hpast, hnextId, hruns, hruns'⟩ := hsession
  obtain ⟨past', hpast'⟩ := hpast.exists_spent (UInt32.size - 2)
  rw [hnextId] at hpast'
  exact ⟨past', _, _, _, _, _, hpast', hspelled, rfl, rfl, hruns, hruns'⟩

end Session

end Lox
