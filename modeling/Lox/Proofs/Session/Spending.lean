/-
# Using up numbers

An access that is never carried out takes a number like any other. So there is a text that does
nothing but use up a number (`Session.run_spending`), and running it again and again brings a
session to whatever number (`Session.runAll_spending`, `History.exists_spent`). Once the low bits of
all numbers are used up, an access is found by the bits that an earlier one has, and for which a
depth may be known (`DepthTable.getElem?_add_size`).
-/

import Lox.Proofs.Session.History

namespace Lox

/-- Numbers that have the same low bits are not told apart. -/
theorem DepthTable.getElem?_add_size (table : DepthTable) (id : AccessId) :
    table[id + UInt32.size]? = table[id]? := by
  have hkey : UInt32.ofNat (id + UInt32.size) = UInt32.ofNat id := by
    rw [← UInt32.toNat_inj, UInt32.toNat_ofNat', UInt32.toNat_ofNat', Nat.add_mod_right]
  exact congrArg (table.entries[·]?) hkey

namespace Session

variable {host : Host} {session : Session}

/-- A text with one access, which is never carried out. -/
def spending : String := "if (false) x;"

theorem prepare_spending (session : Session) :
    session.prepare spending =
      (.ok ([.ifThen (.literal (.bool false))
        (.expression (.read session.nextId (.identifier "x" 1)))], ∅), session.nextId + 1) := by
  have hprogram : Program.ofTokens
      [⟨.if, "if", none, 1⟩, ⟨.leftParen, "(", none, 1⟩, ⟨.false, "false", none, 1⟩,
        ⟨.rightParen, ")", none, 1⟩, .identifier "x" 1, ⟨.semicolon, ";", none, 1⟩, .endOfInput 1]
      session.nextId = (.ok [.ifThen (.literal (.bool false))
        (.expression (.read session.nextId (.identifier "x" 1)))], session.nextId + 1) :=
    @Program.ofTokens_eq_of_run _ [] _ _ [.ifThen _ _] 60 rfl
  exact prepare_eq_ok_iff.2 ⟨_, rfl, hprogram, by split <;> rfl⟩

/-- The text does nothing but use up a number. -/
theorem run_spending (host : Host) (houtput : session.state.output = "") :
    session.run host 100 spending =
      some (⟨.ok (), ""⟩, { session with nextId := session.nextId + 1 }) := by
  obtain ⟨config, nextId, depths, store, environment, callDepth, clockReadings, output⟩ := session
  obtain rfl : output = "" := houtput
  unfold run
  rw [prepare_spending]
  rfl

/-- Running it again and again before other texts only changes the numbers that are left to them. -/
theorem runAll_spending {later : List String} {reports : List Report} {last : Session}
    (houtput : session.state.output = "") (n : Nat)
    (h : { session with nextId := session.nextId + n }.runAll host 100 later =
      some (reports, last)) :
    session.runAll host 100 (List.replicate n spending ++ later) =
      some (List.replicate n ⟨.ok (), ""⟩ ++ reports, last) := by
  induction n generalizing session with
  | zero => exact h
  | succ n ih =>
    rw [← Nat.add_assoc, Nat.add_right_comm] at h
    rw [List.replicate_succ, List.cons_append, runAll, run_spending host houtput]
    dsimp only
    rw [@ih { session with nextId := session.nextId + 1 } houtput h]
    rfl

/-- So it does between other texts. -/
theorem runAll_cons_spending {first : String} {later : List String} {report : Report}
    {reports : List Report} {next last : Session} {n : Nat} {nextId : AccessId}
    (hfirst : session.run host 100 first = some (report, next)) (houtput : next.state.output = "")
    (hnextId : next.nextId + n = nextId)
    (h : { next with nextId }.runAll host 100 later = some (reports, last)) :
    session.runAll host 100 (first :: (List.replicate n spending ++ later)) =
      some (report :: (List.replicate n ⟨.ok (), ""⟩ ++ reports), last) := by
  subst hnextId
  rw [runAll, hfirst]
  dsimp only
  rw [runAll_spending houtput n h]

end Session

/-- A session can be brought to any later number. -/
theorem History.exists_spent {host : Host} {config : Config} {past : List Run} {session : Session}
    (h : History host config past session) (n : Nat) :
    ∃ past', History host config past' { session with nextId := session.nextId + n } := by
  induction n with
  | zero => exact ⟨past, h⟩
  | succ n ih =>
    obtain ⟨past', h'⟩ := ih
    exact ⟨_, h'.run (Session.run_spending host h'.chronicle.output_eq)⟩

end Lox
