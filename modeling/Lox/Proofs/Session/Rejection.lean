/-
# Texts that are rejected

A text that is malformed, or that breaks the grammar or the rules of scoping, is rejected before
anything of it is executed. All that is left of it are numbers for accesses that will not be given
out again; so later programs get other numbers than they would have got. No run can tell: a session
in which numbers were passed over is alike to the one in which they were not.
-/

import Lox.Proofs.Session.Alike

namespace Lox

/-- A session behaves in the same way when numbers for accesses are passed over. -/
theorem History.alike_skip {host : Host} {config : Config} {past : List Run} {session : Session}
    (h : History host config past session) (hroom : session.nextId < UInt32.size)
    {nextId : AccessId} (hle : session.nextId ≤ nextId) :
    session.Alike Eq "" { session with nextId } := by
  have hself := @History.alike_self Eq _ _ _ _ h hroom fun _ => rfl
  exact hself.extend rfl rfl hself.tidy (hself.tidy.skip hle) rfl rfl (Nat.le_refl _) hle
    (fun _ _ => rfl) fun _ _ => rfl

/-- A run that fails in any phase before execution has rejected its text, and has used up numbers at
most. -/
theorem Session.eq_of_rejected {host : Host} {session after : Session} {source : String}
    {rounds : Nat} {report : Report} {failure : Failure}
    (hrun : session.run host rounds source = some (report, after))
    (hfailure : report.result = .error failure) (hphase : failure.phase ≠ .runtime) :
    report.output = "" ∧ after = { session with nextId := (session.prepare source).2 } := by
  rcases exists_run_iff.1 ⟨rounds, hrun⟩ with ⟨_, -, rfl, rfl⟩ | ⟨_, result, _, -, -, rfl, -⟩
  · exact ⟨rfl, rfl⟩
  · cases result with
    | ok _ => cases hfailure
    | error fault =>
      cases hfailure
      exact absurd rfl hphase

/-- A run that fails before execution leaves no trace. It prints nothing, and the frames, what can
be seen, the number of calls under way and the depths known are as before; and whatever texts are
run later, on any host and within any number of rounds, they come to the same reports as if the
rejected text had never been run, or to none alike, as long as low bits are enough for the numbers
of all accesses. -/
theorem Session.rejected_leaves_no_trace {host : Host} {config : Config} {past : List Run}
    {session after : Session} {source : String} {rounds : Nat} {report : Report}
    {failure : Failure} (hsession : History host config past session)
    (hrun : session.run host rounds source = some (report, after))
    (hfailure : report.result = .error failure) (hphase : failure.phase ≠ .runtime) :
    report.output = "" ∧ after.config = session.config ∧ after.depths = session.depths ∧
      after.state = session.state ∧
        ∀ (host' : Host) (rounds' : Nat) (sources : List String), after.HasRoom sources →
          (after.runAll host' rounds' sources).map Prod.fst =
            (session.runAll host' rounds' sources).map Prod.fst := by
  obtain ⟨houtput, rfl⟩ := eq_of_rejected hrun hfailure hphase
  refine ⟨houtput, rfl, rfl, rfl, fun host' rounds' sources hroom => ?_⟩
  have hle := session.le_nextId_prepare source
  have hbefore : session.HasRoom sources := hroom.of_le hle
  exact (hsession.alike_skip hbefore.nextId_lt hle).reports_eq hbefore hroom host' rounds'

/-- A text that uses up a number before it is rejected, between the declaration of a function that
reads a variable and a call of it. -/
theorem Session.rejected_leaves_no_trace_between_texts :
    ∃ past session after report failure,
      History ⟨fun _ => .unset, fun _ => 0⟩ .default past session ∧
      session.run ⟨fun _ => .unset, fun _ => 0⟩ 50 "print get + ;" = some (report, after) ∧
      report.result = .error failure ∧ failure.phase ≠ .runtime ∧
      session.nextId < after.nextId ∧ after.HasRoom ["print get();"] ∧
      (after.runAll ⟨fun _ => .unset, fun _ => 0⟩ 50 ["print get();"]).map Prod.fst =
        some [⟨.ok (), "true\n"⟩] := by
  have hsession : ∃ past session after report failure,
      History ⟨fun _ => .unset, fun _ => 0⟩ .default past session ∧
      session.run ⟨fun _ => .unset, fun _ => 0⟩ 50 "print get + ;" = some (report, after) ∧
      report.result = .error failure ∧ failure.phase ≠ .runtime ∧
      session.nextId < after.nextId ∧ after.HasRoom ["print get();"] ∧
      (session.runAll ⟨fun _ => .unset, fun _ => 0⟩ 50 ["print get();"]).map Prod.fst =
        some [⟨.ok (), "true\n"⟩] :=
    ⟨_, _, _, _, _, @History.run _ _ _ _ _ "var a = true; fun get() { return a; }" 50 _ .start rfl,
      rfl, rfl, by decide, by decide, by decide, rfl⟩
  obtain ⟨past, session, after, report, failure, hhistory, hrun, hfailure, hphase, hlt, hroom,
    hreports⟩ := hsession
  obtain ⟨-, -, -, -, hlater⟩ := rejected_leaves_no_trace hhistory hrun hfailure hphase
  exact ⟨past, session, after, report, failure, hhistory, hrun, hfailure, hphase, hlt, hroom,
    (hlater _ 50 _ hroom).trans hreports⟩

end Lox
