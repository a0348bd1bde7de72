/-
# What a session knows is only extended

A session goes on using the depths that it has learnt of the accesses of earlier texts, since their
functions may be called at any time. So nothing that it learns later must get in the way. Every
access of every tree that was ever read has a number of its own, whatever became of the text:
numbers that were given out for malformed declarations, or in texts that were rejected or stopped,
are not given out again. As long as low bits are enough for all these numbers, depths are known of
no others. So what is learnt of a text is new, and an access keeps the depth that it got when its
own text was resolved, or keeps having none.
-/

import Lox.Proofs.Session.Depths

namespace Lox

/-! ## The trees of a text -/

/-- The trees of the declarations that are well-formed, even if others are not. -/
def Program.trees (tokens : List Token) (nextId : AccessId) : List Stmt :=
  match (declarations tokens nextId).1 with
  | .error _ => []
  | .ok read => read.filterMap fun
    | .error _ => none
    | .ok statement => some statement

/-- The trees that a text is read as in a session, whether or not it is accepted. -/
def Session.trees (session : Session) (source : String) : List Stmt :=
  match Token.scan source with
  | .error _ => []
  | .ok tokens => Program.trees tokens session.nextId

/-- The depths that resolution finds in a text. Where the text is rejected there are none, and
without the resolver none are looked for. -/
def Session.resolved (session : Session) (source : String) : BindingDepths :=
  match (session.prepare source).1 with
  | .error _ => ∅
  | .ok (_, depths) => depths

namespace Program

variable {tokens : List Token} {nextId next : AccessId} {program : List Stmt}

theorem ids_program (read : List (Except ParseError Stmt)) :
    Phrase.ids .program read = Stmt.allIds (read.filterMap fun
      | .error _ => none
      | .ok statement => some statement) := by
  induction read with
  | nil => rfl
  | cons first read ih =>
    cases first with
    | error error => exact ih
    | ok statement => exact congrArg (statement.ids ++ ·) ih

/-- The numbers in all trees of a text are new and differ, also if the text is malformed. -/
theorem fresh_trees (tokens : List Token) (nextId : AccessId) :
    Fresh nextId (Stmt.allIds (trees tokens nextId)) (ofTokens tokens nextId).2 := by
  have hnumbered := Phrase.numbered_of_read (ends_reading tokens nextId)
  rw [nextId_ofTokens]
  unfold trees
  cases hread : (declarations tokens nextId).1 with
  | error error => exact .nil hnumbered.1
  | ok read =>
    obtain ⟨ids, hids, hfresh⟩ := hnumbered.2 read hread
    rw [ids_program] at hids
    obtain rfl : Stmt.allIds _ = ids := hids
    exact hfresh

theorem trees_of_ofTokens (h : ofTokens tokens nextId = (.ok program, next)) :
    trees tokens nextId = program := by
  obtain ⟨reader, hread, -⟩ := ofTokens_eq_ok_iff.1 h
  have hdeclared : (declarations tokens nextId).1 = .ok (program.map .ok) := congrArg Prod.fst hread
  unfold trees
  rw [hdeclared]
  exact (filterMap_error_eq_nil_iff.2 rfl).2

end Program

namespace Session

variable {host : Host} {rounds : Nat} {config : Config} {session session' later : Session}
  {source : String} {report : Report} {trees : List Stmt}

theorem fresh_trees (session : Session) (source : String) :
    Fresh session.nextId (Stmt.allIds (session.trees source)) (session.prepare source).2 := by
  unfold Session.trees prepare
  cases Token.scan source with
  | error errors => exact .nil (Nat.le_refl _)
  | ok tokens =>
    have hfresh := Program.fresh_trees tokens session.nextId
    dsimp only
    split
    · rename_i hprogram
      rwa [hprogram] at hfresh
    · rename_i hprogram
      rw [hprogram] at hfresh
      split
      · split <;> exact hfresh
      · exact hfresh

theorem trees_of_prepare {program : List Stmt} {depths : BindingDepths} {next : AccessId}
    (h : session.prepare source = (.ok (program, depths), next)) :
    session.trees source = program := by
  obtain ⟨tokens, hscan, hprogram, -⟩ := prepare_eq_ok_iff.1 h
  unfold Session.trees
  rw [hscan]
  exact Program.trees_of_ofTokens hprogram

/-- Depths are found at the accesses of a text only. -/
theorem resolved_eq_none {id : AccessId} (hid : id ∉ Stmt.allIds (session.trees source)) :
    (session.resolved source)[id]? = none := by
  unfold resolved
  split
  · exact Std.TreeMap.getElem?_emptyc
  · rename_i program depths hprepare
    have hprepare : session.prepare source = (.ok (program, depths), (session.prepare source).2) :=
      Prod.ext hprepare rfl
    rw [trees_of_prepare hprepare] at hid
    obtain ⟨tokens, -, hprogram, hdepths⟩ := prepare_eq_ok_iff.1 hprepare
    split at hdepths
    · exact (Program.sites_of_bindingDepths (Program.wellFormed_of_ofTokens hprogram)
        (Program.fresh_of_ofTokens hprogram) hdepths).2 id hid
    · rw [hdepths]
      exact Std.TreeMap.getElem?_emptyc

/-- Low bits are enough for what is learnt of a text, if they are for all numbers in use. -/
theorem getElem?_learn_resolved (hroom : session.HasRoom [source]) {id : AccessId}
    (hid : id < UInt32.size) :
    (session.learn (session.resolved source)).depths[id]? =
      (session.resolved source)[id]?.or session.depths[id]? :=
  DepthTable.getElem?_learn (lt_size_of_fresh (session.fresh_trees source) hroom.prepare_lt
    fun _ => resolved_eq_none) hid

/-- A session learns of a text what resolution has found in it. -/
theorem depths_of_run (h : session.run host rounds source = some (report, session')) :
    session'.depths = (session.learn (session.resolved source)).depths := by
  rw [(known_of_run h).2]
  unfold begin? resolved
  split
  · rename_i hprepare
    rw [hprepare]
    rfl
  · rename_i hprepare
    rw [hprepare]
    rfl

/-! ## Sessions and all that was read in them -/

/-- The sessions that come of running texts one after another, each on a host of its own and with
any result, and the trees that were read in all of them. -/
inductive Collects (config : Config) : List Stmt → Session → Prop where
  | start : Collects config [] (.start config)
  | run {trees : List Stmt} {session session' : Session} {source : String} {host : Host}
      {rounds : Nat} {report : Report} (h : Collects config trees session)
      (hrun : session.run host rounds source = some (report, session')) :
      Collects config (trees ++ session.trees source) session'

/-- A session comes to another one by running texts. -/
abbrev Leads : Session → Session → Prop :=
  Relation.ReflTransGen fun session session' =>
    ∃ host rounds source report, session.run host rounds source = some (report, session')

/-- The accesses of the trees have numbers of their own among those in use, and depths are known of
no others. -/
structure Numbered (trees : List Stmt) (session : Session) : Prop where
  /-- The numbers are in use and differ. -/
  fresh : Fresh 0 (Stmt.allIds trees) session.nextId
  /-- Depths are known of these numbers only. -/
  known : ∀ id < UInt32.size, session.depths[id]? ≠ none → id ∈ Stmt.allIds trees

theorem allIds_append (trees trees' : List Stmt) :
    Stmt.allIds (trees ++ trees') = Stmt.allIds trees ++ Stmt.allIds trees' := by
  induction trees with
  | nil => rfl
  | cons s trees ih =>
    show s.ids ++ Stmt.allIds (trees ++ trees') = s.ids ++ Stmt.allIds trees ++ _
    rw [ih, List.append_assoc]

theorem Numbered.run (h : session.Numbered trees) (hroom : session.HasRoom [source])
    (hrun : session.run host rounds source = some (report, session')) :
    session'.Numbered (trees ++ session.trees source) := by
  constructor
  · rw [(known_of_run hrun).1, allIds_append]
    exact h.fresh.append (session.fresh_trees source)
  · intro id hlt hid
    rw [allIds_append, List.mem_append]
    rw [depths_of_run hrun, getElem?_learn_resolved hroom hlt] at hid
    by_contra hnot
    rw [not_or] at hnot
    rw [resolved_eq_none hnot.2, Option.none_or] at hid
    exact hnot.1 (h.known id hlt hid)

theorem Collects.numbered (h : Collects config trees session)
    (hroom : session.nextId < UInt32.size) : session.Numbered trees := by
  induction h with
  | start => exact ⟨.nil (Nat.le_refl 0), fun id _ hid => absurd DepthTable.getElem?_empty hid⟩
  | run h hrun ih =>
    have hbefore := hasRoom_of_run hrun hroom
    exact (ih hbefore.nextId_lt).run hbefore hrun

/-- Nothing is learnt of numbers that are in use. -/
theorem resolved_eq_none_of_lt {id : AccessId} (hid : id < session.nextId) :
    (session.resolved source)[id]? = none :=
  resolved_eq_none fun hmem =>
    absurd ((session.fresh_trees source).bounds id hmem).1 (Nat.not_le.2 hid)

theorem Leads.nextId_lt (h : session.Leads later) (hroom : later.nextId < UInt32.size) :
    session.nextId < UInt32.size := by
  induction h with
  | refl => exact hroom
  | tail _ hstep ih =>
    obtain ⟨host, rounds, source, report, hrun⟩ := hstep
    exact ih (hasRoom_of_run hrun hroom).nextId_lt

/-- What is known of numbers in use stays as it is. -/
theorem Leads.getElem?_eq (h : session.Leads later) (hroom : later.nextId < UInt32.size)
    {id : AccessId} (hid : id < session.nextId) :
    later.depths[id]? = session.depths[id]? ∧ id < later.nextId := by
  induction h with
  | refl => exact ⟨rfl, hid⟩
  | @tail middle later _ hstep ih =>
    obtain ⟨host, rounds, source, report, hrun⟩ := hstep
    have hbefore := hasRoom_of_run hrun hroom
    obtain ⟨hsame, hlt⟩ := ih hbefore.nextId_lt
    rw [depths_of_run hrun, getElem?_learn_resolved hbefore (Nat.lt_trans hlt hbefore.nextId_lt),
      resolved_eq_none_of_lt hlt, Option.none_or, (known_of_run hrun).1]
    exact ⟨hsame, Nat.lt_of_lt_of_le hlt (middle.le_nextId_prepare source)⟩

/-- What a session knows is extended and never rewritten, as long as low bits are enough for the
numbers of all accesses. Whatever texts it has run, and whatever they came to, the accesses of all
trees it has read have different numbers, all in use, and it knows depths of no other numbers. So a
text that is resolved adds depths only where there were none, at its own accesses; and whatever is
run after a text, each of its accesses has the depth it got when the text was resolved, or none if
it got none. -/
theorem depths_only_extended (h : Collects config trees session)
    (hroom : session.nextId < UInt32.size) :
    (Stmt.allIds trees).Nodup ∧
      (∀ id ∈ Stmt.allIds trees, id < session.nextId) ∧
      (∀ key ∈ session.depths.entries, key.toNat ∈ Stmt.allIds trees) ∧
      (∀ source program depths nextId, session.prepare source = (.ok (program, depths), nextId) →
        nextId < UInt32.size →
        (∀ id, depths[id]? ≠ none → id ∈ Stmt.allIds program ∧ session.depths[id]? = none) ∧
        (∀ id ∈ Stmt.allIds trees,
          (session.learn depths).depths[id]? = session.depths[id]?) ∧
        ∀ id ∈ Stmt.allIds program, (session.learn depths).depths[id]? = depths[id]?) ∧
      ∀ host rounds source report after later,
        session.run host rounds source = some (report, after) → after.Leads later →
          later.nextId < UInt32.size → ∀ id ∈ Stmt.allIds (session.trees source),
            later.depths[id]? = (session.resolved source)[id]? := by
  have hnumbered := h.numbered hroom
  have hnew : ∀ source, session.HasRoom [source] → ∀ id ∈ Stmt.allIds (session.trees source),
      id < UInt32.size ∧ session.depths[id]? = none := by
    intro source hsource id hid
    have hbounds := (session.fresh_trees source).bounds id hid
    have hlt := Nat.lt_trans hbounds.2 hsource.prepare_lt
    refine ⟨hlt, ?_⟩
    by_contra hknown
    exact absurd (hnumbered.fresh.bounds id (hnumbered.known id hlt hknown)).2
      (Nat.not_lt.2 hbounds.1)
  refine ⟨hnumbered.fresh.nodup, fun id hid => (hnumbered.fresh.bounds id hid).2,
    fun key hkey => hnumbered.known key.toNat key.toNat_lt_size ?_, ?_, ?_⟩
  · exact DepthTable.getElem?_toNat_ne_none hkey
  · intro source program depths nextId hprepare hnext
    have hsource : session.HasRoom [source] := by
      rw [hasRoom_singleton_iff, hprepare]
      exact hnext
    have htrees := trees_of_prepare hprepare
    have hresolved : session.resolved source = depths := by
      unfold resolved
      rw [hprepare]
    rw [← htrees, ← hresolved]
    have honly : ∀ id, (session.resolved source)[id]? ≠ none →
        id ∈ Stmt.allIds (session.trees source) := fun id hid => by
      by_contra hnot
      exact hid (resolved_eq_none hnot)
    refine ⟨fun id hid => ⟨honly id hid, (hnew source hsource id (honly id hid)).2⟩,
      fun id hid => ?_, fun id hid => ?_⟩
    · have hlt := (hnumbered.fresh.bounds id hid).2
      rw [getElem?_learn_resolved hsource (Nat.lt_trans hlt hroom), resolved_eq_none_of_lt hlt,
        Option.none_or]
    · obtain ⟨hlt, hnone⟩ := hnew source hsource id hid
      rw [getElem?_learn_resolved hsource hlt, hnone, Option.or_none]
  · intro host rounds source report after later hrun hlater hnext id hid
    have hafter := hlater.nextId_lt hnext
    have hsource := hasRoom_of_run hrun hafter
    obtain ⟨hlt, hnone⟩ := hnew source hsource id hid
    have hin : id < after.nextId := by
      rw [(known_of_run hrun).1]
      exact ((session.fresh_trees source).bounds id hid).2
    rw [(hlater.getElem?_eq hnext hin).1, depths_of_run hrun,
      getElem?_learn_resolved hsource hlt, hnone, Option.or_none]

set_option maxRecDepth 4096 in
/-- A block whose variable is known at depth 0, then a text that breaks the rules of scoping, and
one in which only the second declaration is well-formed: the first keeps a number for itself. -/
theorem depths_only_extended_over_rejections :
    ∃ trees session, Collects .default trees session ∧
      Stmt.allIds trees = [0, 1, 3] ∧ session.nextId = 4 ∧
      (∀ key ∈ session.depths.entries, key.toNat = 0 ∨ key.toNat = 1 ∨ key.toNat = 3) ∧
        session.depths[0]? = some 0 := by
  have hcollects : ∃ trees session, Collects .default trees session ∧
      Stmt.allIds trees = [0, 1, 3] ∧ session.nextId = 4 ∧ session.depths[0]? = some 0 := by
    let host : Host := ⟨fun _ => .unset, fun _ => 0⟩
    refine ⟨_, _, @Collects.run _ _ _ _ "print a + ; print a;" host 50 _
      (@Collects.run _ _ _ _ "{ var b = b; }" host 50 _
        (@Collects.run _ _ _ _ "{ var a = 1; print a; }" host 50 _ .start rfl) rfl) rfl,
      rfl, rfl, rfl⟩
  obtain ⟨trees, session, hcollects, hids, hnext, hdepth⟩ := hcollects
  have hroom : session.nextId < UInt32.size := by
    rw [hnext]
    decide
  obtain ⟨-, -, hknown, -⟩ := depths_only_extended hcollects hroom
  refine ⟨trees, session, hcollects, hids, hnext, fun key hkey => ?_, hdepth⟩
  have hmem := hknown key hkey
  rw [hids] at hmem
  simpa using hmem

end Session

end Lox
