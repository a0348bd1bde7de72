/-
# Local names do not matter

With the resolver, a local variable can be renamed in a text by a name that the text does not
mention. The text can be written down with the new name, it is accepted with the same depth at every
access, and whatever is run from then on ends in both cases or in neither, prints the same and comes
to the same results, but that a fault may be reported with the new name instead of the old one
(`Session.local_names_do_not_matter`). So no access is captured by a declaration that it does not
refer to, neither by another of its scope nor by one of a scope around: names only serve to find the
declaration, once and from the place of the access.
-/

import Lox.Proofs.Grammar.Renamed
import Lox.Proofs.Session.Joined
import Lox.Proofs.Session.Renamed
import Lox.Proofs.Session.Spending

namespace Lox

variable {ρ : Respelling} {source source' : String} {program renamed : List Stmt}

namespace Program

/-- A text is read as some statements, apart from the numbers that accesses carry. -/
def ReadAs (source : String) (tree : List Stmt) : Prop :=
  ∃ tokens nextId program next, Token.scan source = .ok tokens ∧
    ofTokens tokens nextId = (.ok program, next) ∧
      Stmt.allUnnumbered program = Stmt.allUnnumbered tree

/-- Which number is the next does not matter for what a text is read as. -/
theorem ReadAs.exists_ofTokens {tree : List Stmt} (h : ReadAs source tree) (nextId : AccessId) :
    ∃ tokens program next, Token.scan source = .ok tokens ∧
      ofTokens tokens nextId = (.ok program, next) ∧
        Stmt.allUnnumbered program = Stmt.allUnnumbered tree := by
  obtain ⟨tokens, _, _, _, hscan, hprogram, htree⟩ := h
  obtain ⟨program, next, hprogram, hunnumbered⟩ := exists_ofTokens_of_ofTokens hprogram nextId
  exact ⟨tokens, program, next, hscan, hprogram, hunnumbered.trans htree⟩

/-- A program in which a variable is renamed can be written down: in the text of the program that it
comes from, the name is written anew in some places. -/
theorem Renames.exists_respelled (h : Renames ρ program renamed) (hnew : IsName ρ.new)
    {tokens : List Token} {nextId next : AccessId} (hscan : Token.scan source = .ok tokens)
    (hprogram : ofTokens tokens nextId = (.ok program, next)) :
    ∃ source', Respells ρ source source' ∧ ReadAs source' renamed := by
  obtain ⟨hnone, rfl⟩ := Token.scan_eq_ok_iff.1 hscan
  obtain ⟨ts', hts, hderives⟩ := h.rewrites hprogram
  rw [takeWhile_endOfInput fun token => Segment.kind_ne_endOfInput] at hts
  obtain ⟨source', hrespells, hscan'⟩ := Token.exists_scan_of_rewritten hnew hnone hts
  obtain ⟨program', next', hprogram', hunnumbered⟩ :=
    exists_ofTokens_append hderives (lineCount source) 0
  exact ⟨source', hrespells, _, 0, program', next', hscan', hprogram', hunnumbered⟩

end Program

namespace Session

variable {host : Host} {config : Config} {past : List Run} {session : Session}
  {depths : BindingDepths} {nextId : AccessId}

/-- A text in which a local variable is renamed is accepted like the text that it comes from, with
the same depth at every access. -/
theorem exists_prepare_of_renames (hresolver : session.config.useResolver = true)
    (hprepare : session.prepare source = (.ok (program, depths), nextId))
    (hrenames : Program.Renames ρ program renamed) (hreads : Program.ReadAs source' renamed) :
    ∃ program' depths' nextId', session.prepare source' = (.ok (program', depths'), nextId') ∧
      Program.Renames ρ program program' ∧
        List.Forall₂ (fun id id' => depths[id]? = depths'[id']?) (Stmt.allIds program)
          (Stmt.allIds program') := by
  obtain ⟨tokens, -, hprogram, hdepths⟩ := prepare_eq_ok_iff.1 hprepare
  obtain ⟨tokens', program', nextId', hscan', hprogram', hunnumbered⟩ :=
    hreads.exists_ofTokens session.nextId
  rw [if_pos hresolver] at hdepths
  have hrenames := hrenames.congr hunnumbered
  obtain ⟨depths', hdepths', hsame⟩ := hrenames.exists_bindingDepths
    (Program.wellFormed_of_ofTokens hprogram) (Program.wellFormed_of_ofTokens hprogram')
    (Program.fresh_of_ofTokens hprogram) (Program.fresh_of_ofTokens hprogram') hdepths
  refine ⟨program', depths', nextId', prepare_of_ofTokens hscan' hprogram' ?_, hrenames, hsame⟩
  rw [if_pos hresolver]
  exact hdepths'

/-- Local names do not matter. In any session that uses the resolver, let a text be accepted, and
let a variable be renamed in some of its local scopes by a name that the text does not mention:
where the scopes declare it and at the accesses that refer to such a declaration. Then the renamed
program can be written down as the text with the name written anew in places. And every text that is
read as the renamed program is accepted, too, with the same depth at every access; and if it is run
instead of the text that it comes from, then it and whatever is run later come to an end just when
they would have, print the same and come to the same results, but that a fault may be reported with
the new name in place of the old one, as long as low bits are enough for the numbers of all
accesses. -/
theorem local_names_do_not_matter (h : History host config past session)
    (hresolver : config.useResolver = true)
    (hprepare : session.prepare source = (.ok (program, depths), nextId))
    (hrenames : Program.Renames ρ program renamed) (hnew : IsName ρ.new) :
    (∃ source', Respells ρ source source' ∧ Program.ReadAs source' renamed) ∧
      ∀ source', Program.ReadAs source' renamed →
        (∃ program' depths' nextId', session.prepare source' = (.ok (program', depths'), nextId') ∧
          List.Forall₂ (fun id id' => depths[id]? = depths'[id']?) (Stmt.allIds program)
            (Stmt.allIds program')) ∧
        ∀ host' rounds later, session.HasRoom (source :: later) →
          session.HasRoom (source' :: later) →
          Option.Rel (List.Forall₂ (Report.Renamed ρ))
            ((session.runAll host' rounds (source :: later)).map Prod.fst)
            ((session.runAll host' rounds (source' :: later)).map Prod.fst) := by
  obtain ⟨tokens, hscan, hprogram, -⟩ := prepare_eq_ok_iff.1 hprepare
  refine ⟨hrenames.exists_respelled hnew hscan hprogram, fun source' hreads => ?_⟩
  obtain ⟨program', depths', nextId', hprepare', hrenames, hsame⟩ :=
    exists_prepare_of_renames (h.config_eq ▸ hresolver) hprepare hrenames hreads
  refine ⟨⟨program', depths', nextId', hprepare', hsame⟩,
    fun host' rounds later hroom hroom' => ?_⟩
  have hself : session.Renamed ρ session := h.renamed_self hresolver hroom.nextId_lt
  have hlt := hroom.prepare_lt
  have hlt' := hroom'.prepare_lt
  rw [hprepare] at hlt
  rw [hprepare'] at hlt'
  have hrun := hself.rel_run_of_prepare hprepare hprepare' hlt hlt'
    (fun _ _ huses huses' => renamed_of_renames huses huses' hrenames) host' rounds
  exact rel_reports (rel_runAll_cons hrun fun hnext hnext' hrenamed =>
    hrenamed.rel_runAll (hroom.tail hnext) (hroom'.tail hnext') host' rounds)

/-- A block in which a function reads the variable `x`, and behind it some variable is declared and
read. -/
def blockWithClosure (nextId : AccessId) (name : String) : Stmt :=
  .block [
    .function (.identifier "f" 1) []
      [.return ⟨.return, "return", none, 1⟩ (some (.read nextId (.identifier "x" 1)))],
    .var (.identifier name 1) (some (.literal (.number 2))),
    .print ⟨.print, "print", none, 1⟩
      (.binary (.call (.read (nextId + 1) (.identifier "f" 1)) ⟨.rightParen, ")", none, 1⟩ [])
        ⟨.plus, "+", none, 1⟩ (.read (nextId + 2) (.identifier name 1)))]

theorem renames_blockWithClosure (nextId : AccessId) :
    Program.Renames ⟨"x", "y"⟩ [blockWithClosure nextId "x"] [blockWithClosure nextId "y"] :=
  .cons (@Stmt.Renamed.block _ _ _ true _ _
    (.cons (@Stmt.Renamed.function _ _ _ false _ _ _ _ _ ⟨by decide, rfl⟩ .nil
        (.cons (.returnValue (.read ⟨by decide, rfl⟩)) .nil))
      (.cons (.varValue ⟨by decide, rfl⟩ .literal)
        (.cons (.print (.binary (.call (.read ⟨by decide, rfl⟩) .nil)
          (.read ⟨by decide, rfl⟩))) .nil)))) .nil

/-- A function reads a global variable, and behind it its scope declares a local one of the same
name. Only the local one is renamed, where it is declared and where it is read behind that. -/
theorem local_names_do_not_matter_to_closure :
    ∃ past session, History ⟨fun _ => .unset, fun _ => 0⟩ .default past session ∧
      (session.runAll ⟨fun _ => .unset, fun _ => 0⟩ 50
        ["{ fun f() { return x; } var y = 2; print f() + y; }", "print x;"]).map Prod.fst =
          some [⟨.ok (), "3\n"⟩, ⟨.ok (), "1\n"⟩] := by
  have hsession : ∃ past session depths nextId,
      History ⟨fun _ => .unset, fun _ => 0⟩ .default past session ∧
      session.nextId = 0 ∧
      session.prepare "{ fun f() { return x; } var x = 2; print f() + x; }" =
        (.ok ([blockWithClosure 0 "x"], depths), nextId) ∧
      (session.runAll ⟨fun _ => .unset, fun _ => 0⟩ 50
        ["{ fun f() { return x; } var x = 2; print f() + x; }", "print x;"]).map Prod.fst =
          some [⟨.ok (), "3\n"⟩, ⟨.ok (), "1\n"⟩] :=
    ⟨_, _, _, _, @History.run _ _ _ _ _ "var x = 1;" 50 _ .start rfl, rfl, rfl, rfl⟩
  have hreads : Program.ReadAs "{ fun f() { return x; } var y = 2; print f() + y; }"
      [blockWithClosure 0 "y"] := ⟨_, 0, _, _, rfl, rfl, rfl⟩
  have hname : IsName "y" := @Segment.Form.word 'y' [] rfl (List.forall_mem_nil _)
  obtain ⟨past, session, depths, nextId, hpast, hnextId, hprepare, hreports⟩ := hsession
  have hroom :
      session.HasRoom ["{ fun f() { return x; } var x = 2; print f() + x; }", "print x;"] ∧
        session.HasRoom ["{ fun f() { return x; } var y = 2; print f() + y; }", "print x;"] := by
    unfold HasRoom
    rw [hnextId]
    decide
  obtain ⟨-, hrenamed⟩ :=
    local_names_do_not_matter hpast rfl hprepare (renames_blockWithClosure 0) hname
  obtain ⟨-, hruns⟩ := hrenamed _ hreads
  have hrel := hruns ⟨fun _ => .unset, fun _ => 0⟩ 50 ["print x;"] hroom.1 hroom.2
  rw [hreports] at hrel
  refine ⟨past, session, hpast, ?_⟩
  generalize (session.runAll _ 50 _).map Prod.fst = reports at hrel ⊢
  cases hrel with
  | some hreports =>
    cases hreports with
    | cons hfirst hlater =>
      cases hlater with
      | cons hsecond hnil =>
        cases hnil
        rw [Report.eq_of_ok hfirst.result hfirst.output rfl,
          Report.eq_of_ok hsecond.result hsecond.output rfl]

/-- Where low bits are not enough, names may matter. The number of the access in the function has
the low bits of one that a depth is known for, so the variable is looked for in the block, where it
is only as long as it has the old name. -/
theorem local_names_matter_without_room :
    ∃ past session depths nextId, History ⟨fun _ => .unset, fun _ => 0⟩ .default past session ∧
      session.prepare "{ fun f() { return x; } var x = 2; print f() + x; }" =
        (.ok ([blockWithClosure UInt32.size "x"], depths), nextId) ∧
      Program.Renames ⟨"x", "y"⟩ [blockWithClosure UInt32.size "x"]
        [blockWithClosure UInt32.size "y"] ∧
      Program.ReadAs "{ fun f() { return x; } var y = 2; print f() + y; }"
        [blockWithClosure UInt32.size "y"] ∧
      (session.runAll ⟨fun _ => .unset, fun _ => 0⟩ 50
        ["{ fun f() { return x; } var x = 2; print f() + x; }"]).map Prod.fst =
          some [⟨.ok (), "4\n"⟩] ∧
      (session.runAll ⟨fun _ => .unset, fun _ => 0⟩ 50
        ["{ fun f() { return x; } var y = 2; print f() + y; }"]).map Prod.fst =
          some [⟨.error (.runtime ⟨.identifier "x" 1,
            .internal (.missingVariable 1 "x")⟩), ""⟩] := by
  have hreads : Program.ReadAs "{ fun f() { return x; } var y = 2; print f() + y; }"
      [blockWithClosure UInt32.size "y"] := ⟨_, 0, _, _, rfl, rfl, rfl⟩
  have hsession : ∃ past session depths nextId,
      History ⟨fun _ => .unset, fun _ => 0⟩ .default past session ∧
      session.nextId + (UInt32.size - 1) = UInt32.size ∧
      { session with nextId := UInt32.size }.prepare
          "{ fun f() { return x; } var x = 2; print f() + x; }" =
        (.ok ([blockWithClosure UInt32.size "x"], depths), nextId) ∧
      ({ session with nextId := UInt32.size }.runAll ⟨fun _ => .unset, fun _ => 0⟩ 50
        ["{ fun f() { return x; } var x = 2; print f() + x; }"]).map Prod.fst =
          some [⟨.ok (), "4\n"⟩] ∧
      ({ session with nextId := UInt32.size }.runAll ⟨fun _ => .unset, fun _ => 0⟩ 50
        ["{ fun f() { return x; } var y = 2; print f() + y; }"]).map Prod.fst =
          some [⟨.error (.runtime ⟨.identifier "x" 1, .internal (.missingVariable 1 "x")⟩), ""⟩] :=
    ⟨_, _, _, _, @History.run _ _ _ _ _ "{ var a; { a; } }" 50 _ .start rfl, rfl, rfl, rfl, rfl⟩
  obtain ⟨past, session, depths, nextId, hpast, hnextId, hprepare, hruns, hruns'⟩ := hsession
  obtain ⟨past', hpast'⟩ := hpast.exists_spent (UInt32.size - 1)
  rw [hnextId] at hpast'
  exact ⟨past', _, depths, nextId, hpast', hprepare, renames_blockWithClosure _, hreads, hruns,
    hruns'⟩

end Session

end Lox
