/-
# The depths that a session knows

With the resolver a session collects the depths of the accesses of all its programs. No access of a
later program has a number that an earlier one has. As long as the low bits tell all these numbers
apart, whatever a session learns of a new program leaves the depths of the old ones as they are.
`Informed` says what it knows then: at each access of each program, the depth is that of the place
of the access. A setting that knows this is all that an execution needs (`Setting.KnowsAll`).
-/

import Lox.Proofs.Grammar.Alike
import Lox.Proofs.Scope.Resolution
import Lox.Proofs.Session.History

namespace Lox

/-! ## Depths under low bits -/

namespace DepthTable

variable {table : DepthTable} {depths : BindingDepths} {id : AccessId}

theorem getElem?_empty : (∅ : DepthTable)[id]? = none := Std.TreeMap.getElem?_emptyc

theorem getElem?_toNat_ne_none {key : UInt32} (h : key ∈ table.entries) :
    table[key.toNat]? ≠ none := by
  have hkey : table[key.toNat]? = table.entries[key]? :=
    congrArg (table.entries[·]?) UInt32.ofNat_toNat
  rw [hkey]
  exact Option.isSome_iff_ne_none.1 (Std.TreeMap.mem_iff_isSome_getElem?.1 h)

/-- Low bits tell numbers apart that fit into them. -/
theorem ofNat_inj_of_lt {id' : AccessId} (hid : id < UInt32.size) (hid' : id' < UInt32.size)
    (h : UInt32.ofNat id = UInt32.ofNat id') : id = id' := by
  have hnat := congrArg UInt32.toNat h
  rwa [UInt32.toNat_ofNat_of_lt' hid, UInt32.toNat_ofNat_of_lt' hid'] at hnat

/-- Where low bits tell all numbers apart, depths that are put in cover those of the same accesses
and no others. -/
theorem getElem?_learn (hdepths : ∀ id, depths[id]? ≠ none → id < UInt32.size)
    (hid : id < UInt32.size) : (table.learn depths)[id]? = depths[id]?.or table[id]? := by
  show (table.entries.insertMany _)[UInt32.ofNat id]? = _
  have hlt : ∀ entry ∈ depths.toList, entry.1 < UInt32.size := fun entry hentry =>
    hdepths entry.1 (by
      rw [Std.TreeMap.mem_toList_iff_getElem?_eq_some.1 hentry]
      exact Option.some_ne_none _)
  cases hdepth : depths[id]? with
  | some depth =>
    apply Std.TreeMap.getElem?_insertMany_list_of_mem
    · exact Std.LawfulEqCmp.compare_eq_iff_eq.2 rfl
    · refine List.pairwise_map.2 (Std.TreeMap.distinct_keys_toList.imp_of_mem ?_)
      intro entry entry' hentry hentry' hdistinct heq
      have hkey := Std.LawfulEqCmp.compare_eq_iff_eq.1 heq
      exact hdistinct (Nat.compare_eq_eq.2
        (ofNat_inj_of_lt (hlt entry hentry) (hlt entry' hentry') hkey))
    · have hmem := Std.TreeMap.mem_toList_iff_getElem?_eq_some.2 hdepth
      exact List.mem_map.2 ⟨_, hmem, rfl⟩
  | none =>
    rw [Option.none_or]
    apply Std.TreeMap.getElem?_insertMany_list_of_contains_eq_false
    rw [Bool.eq_false_iff]
    intro hcontains
    obtain ⟨_, hmem, hkey⟩ := List.mem_map.1 (List.contains_iff_mem.1 hcontains)
    obtain ⟨entry, hentry, rfl⟩ := List.mem_map.1 hmem
    obtain rfl := ofNat_inj_of_lt (hlt entry hentry) hid hkey
    rw [Std.TreeMap.mem_toList_iff_getElem?_eq_some.1 hentry] at hdepth
    cases hdepth

end DepthTable

/-! ## Numbers that are given out -/

/-- The first number for variable accesses that is not in use once a text has been read. -/
def Program.nextIdAfter (nextId : AccessId) (source : String) : AccessId :=
  match Token.scan source with
  | .error _ => nextId
  | .ok tokens => (ofTokens tokens nextId).2

theorem Program.le_nextIdAfter (nextId : AccessId) (source : String) :
    nextId ≤ nextIdAfter nextId source := by
  unfold nextIdAfter
  split
  · exact Nat.le_refl _
  · exact le_nextId_ofTokens _ _

theorem Program.le_foldl_nextIdAfter (nextId : AccessId) (sources : List String) :
    nextId ≤ sources.foldl nextIdAfter nextId := by
  induction sources generalizing nextId with
  | nil => exact Nat.le_refl _
  | cons source sources ih => exact Nat.le_trans (le_nextIdAfter nextId source) (ih _)

/-- The next number moves along with the first one, whatever texts are read. -/
theorem Program.foldl_nextIdAfter_add (nextId extra : AccessId) (sources : List String) :
    sources.foldl nextIdAfter (nextId + extra) = sources.foldl nextIdAfter nextId + extra := by
  induction sources generalizing nextId with
  | nil => rfl
  | cons source sources ih =>
    have hnext : nextIdAfter (nextId + extra) source = nextIdAfter nextId source + extra := by
      unfold nextIdAfter
      split
      · rfl
      · rename_i tokens _
        have htokens : List.Forall₂ (Token.Alike Eq) tokens tokens :=
          List.forall₂_same.2 fun token _ => .refl rfl
        exact nextId_ofTokens_alike htokens rfl nextId extra
    rw [List.foldl_cons, hnext, ih]
    rfl

namespace Session

variable {session session' next : Session} {source : String} {sources : List String}

theorem nextId_prepare (session : Session) (source : String) :
    (session.prepare source).2 = Program.nextIdAfter session.nextId source := by
  unfold prepare Program.nextIdAfter
  cases Token.scan source with
  | error errors => rfl
  | ok tokens =>
    dsimp only
    generalize Program.ofTokens tokens session.nextId = read
    obtain ⟨errors | program, nextId⟩ := read
    · rfl
    · dsimp only
      split
      · cases Program.bindingDepths program <;> rfl
      · rfl

theorem le_nextId_prepare (session : Session) (source : String) :
    session.nextId ≤ (session.prepare source).2 := by
  rw [nextId_prepare]
  exact Program.le_nextIdAfter _ _

/-- Low bits are enough for all numbers that are in use once some more texts have been read: fewer
than `2 ^ 32` are. -/
def HasRoom (session : Session) (sources : List String) : Prop :=
  sources.foldl Program.nextIdAfter session.nextId < UInt32.size

instance (session : Session) (sources : List String) : Decidable (session.HasRoom sources) :=
  inferInstanceAs (Decidable (_ < _))

theorem hasRoom_singleton_iff :
    session.HasRoom [source] ↔ (session.prepare source).2 < UInt32.size := by
  rw [nextId_prepare]
  exact Iff.rfl

namespace HasRoom

theorem nextId_lt (h : session.HasRoom sources) : session.nextId < UInt32.size :=
  Nat.lt_of_le_of_lt (Program.le_foldl_nextIdAfter _ _) h

theorem of_append {later : List String} (h : session.HasRoom (sources ++ later)) :
    session.HasRoom sources := by
  unfold HasRoom at h
  rw [List.foldl_append] at h
  exact Nat.lt_of_le_of_lt (Program.le_foldl_nextIdAfter _ _) h

theorem head (h : session.HasRoom (source :: sources)) : session.HasRoom [source] :=
  @of_append session [source] sources h

theorem prepare_lt (h : session.HasRoom (source :: sources)) :
    (session.prepare source).2 < UInt32.size :=
  hasRoom_singleton_iff.1 h.head

/-- Fewer numbers in use leave more room. -/
theorem of_le (h : session'.HasRoom sources) (hle : session.nextId ≤ session'.nextId) :
    session.HasRoom sources := by
  obtain ⟨extra, hextra⟩ := Nat.exists_eq_add_of_le hle
  unfold HasRoom at h ⊢
  rw [hextra, Program.foldl_nextIdAfter_add] at h
  exact Nat.lt_of_le_of_lt (Nat.le_add_right _ _) h

/-- What is left of the room once the first text has been read. -/
theorem tail (h : session.HasRoom (source :: sources))
    (hnext : next.nextId = (session.prepare source).2) : next.HasRoom sources := by
  unfold HasRoom
  rw [hnext, nextId_prepare]
  exact h

end HasRoom

end Session

/-! ## What is known -/

/-- The depths known are those at the accesses of some programs, in which nothing is wrong, and the
numbers below `nextId` are all that are in use. -/
structure Informed (programs : List (List Stmt)) (nextId : AccessId) (depths : DepthTable) :
    Prop where
  /-- The accesses of the programs have numbers in use. -/
  ids : ∀ program ∈ programs, ∀ id ∈ Stmt.allIds program, id < nextId
  /-- Depths are known of numbers in use. -/
  known : ∀ id < UInt32.size, depths[id]? ≠ none → id < nextId
  /-- At every site nothing is wrong and the depth is known. -/
  sites : ∀ program ∈ programs, ∀ site ∈ Program.sites program, site.error? = none ∧
    ∀ id, site.id? = some id → depths[id]? = site.depth?

/-- Depths that are found in a program are those of numbers that low bits are enough for. -/
theorem lt_size_of_fresh {program : List Stmt} {nextId next : AccessId} {depths : BindingDepths}
    (hfresh : Fresh nextId (Stmt.allIds program) next) (hroom : next < UInt32.size)
    (hnew : ∀ id, id ∉ Stmt.allIds program → depths[id]? = none) (id : AccessId)
    (hid : depths[id]? ≠ none) : id < UInt32.size := by
  have hmem : id ∈ Stmt.allIds program := by
    by_contra hnot
    exact hid (hnew id hnot)
  exact Nat.lt_trans (hfresh.bounds id hmem).2 hroom

namespace Informed

variable {programs : List (List Stmt)} {program : List Stmt} {nextId next : AccessId}
  {session : Session} {table : DepthTable} {depths : BindingDepths}

theorem skip (h : Informed programs nextId table) (hle : nextId ≤ next) :
    Informed programs next table :=
  ⟨fun program hprogram id hid => Nat.lt_of_lt_of_le (h.ids program hprogram id hid) hle,
    fun id hlt hid => Nat.lt_of_lt_of_le (h.known id hlt hid) hle, h.sites⟩

/-- A session learns the depths of one more program, as long as low bits are enough. -/
theorem learn (h : Informed programs nextId session.depths)
    (hfresh : Fresh nextId (Stmt.allIds program) next) (hroom : next < UInt32.size)
    (hwf : Stmt.AllWellFormed program) (hdepths : Program.bindingDepths program = .ok depths) :
    Informed (program :: programs) next (session.learn depths).depths := by
  obtain ⟨hsites, hnew⟩ := Program.sites_of_bindingDepths hwf hfresh hdepths
  have hmem : ∀ {program : List Stmt} {site : Site} {id : AccessId},
      site ∈ Program.sites program → site.id? = some id → id ∈ Stmt.allIds program := by
    intro program site id hsite hid
    rw [← Program.ids_sites]
    exact List.mem_filterMap.2 ⟨site, hsite, hid⟩
  have hget : ∀ id < UInt32.size,
      (session.learn depths).depths[id]? = depths[id]?.or session.depths[id]? :=
    fun id hid => DepthTable.getElem?_learn (lt_size_of_fresh hfresh hroom hnew) hid
  refine ⟨?_, fun id hlt hid => ?_, ?_⟩
  · intro program' hprogram' id hid
    rcases List.mem_cons.1 hprogram' with rfl | hprogram'
    · exact (hfresh.bounds id hid).2
    · exact Nat.lt_of_lt_of_le (h.ids program' hprogram' id hid) hfresh.le
  · rw [hget id hlt] at hid
    by_cases hmem : id ∈ Stmt.allIds program
    · exact (hfresh.bounds id hmem).2
    · rw [hnew id hmem, Option.none_or] at hid
      exact Nat.lt_of_lt_of_le (h.known id hlt hid) hfresh.le
  · intro program' hprogram' site hsite
    rcases List.mem_cons.1 hprogram' with rfl | hprogram'
    · refine ⟨(hsites site hsite).1, fun id hid => ?_⟩
      have hbounds := hfresh.bounds id (hmem hsite hid)
      have hlt := Nat.lt_trans hbounds.2 hroom
      have hold : session.depths[id]? = none := by
        by_contra hsome
        exact absurd (h.known id hlt hsome) (Nat.not_lt.2 hbounds.1)
      rw [hget id hlt, hold, Option.or_none]
      exact (hsites site hsite).2 id hid
    · refine ⟨(h.sites program' hprogram' site hsite).1, fun id hid => ?_⟩
      have hin := h.ids program' hprogram' id (hmem hsite hid)
      have hlt := Nat.lt_trans (Nat.lt_of_lt_of_le hin hfresh.le) hroom
      have hnot : id ∉ Stmt.allIds program := fun hid' =>
        absurd (hfresh.bounds id hid').1 (Nat.not_le.2 hin)
      rw [hget id hlt, hnew id hnot, Option.none_or]
      exact (h.sites program' hprogram' site hsite).2 id hid

end Informed

namespace Session

variable {host : Host} {session session' : Session} {source : String} {rounds : Nat}
  {report : Report}

/-- The run of a text knows the depths of its own program as well. -/
theorem informed_of_begin? {programs : List (List Stmt)} {run : Run}
    (hresolver : session.config.useResolver = true)
    (h : Informed programs session.nextId session.depths)
    (hroom : (session.prepare source).2 < UInt32.size)
    (hbegin : session.begin? host source = some run) :
    Informed (run.program :: programs) (session.prepare source).2 run.setting.depths := by
  unfold begin? at hbegin
  split at hbegin
  · rename_i program depths nextId hprepare
    cases hbegin
    obtain ⟨tokens, -, hprogram, hdepths⟩ := prepare_eq_ok_iff.1 hprepare
    rw [if_pos hresolver] at hdepths
    rw [hprepare] at hroom ⊢
    exact h.learn (Program.fresh_of_ofTokens hprogram) hroom
      (Program.wellFormed_of_ofTokens hprogram) hdepths
  · cases hbegin

/-- With the resolver, nothing is wrong with a program that is executed. -/
theorem error?_eq_none_of_begin? {run : Run} (hresolver : session.config.useResolver = true)
    (hbegin : session.begin? host source = some run) :
    ∀ site ∈ Program.sites run.program, site.error? = none := by
  unfold begin? at hbegin
  split at hbegin
  · rename_i program depths nextId hprepare
    cases hbegin
    obtain ⟨tokens, -, hprogram, hdepths⟩ := prepare_eq_ok_iff.1 hprepare
    rw [if_pos hresolver] at hdepths
    exact fun site hsite => ((Program.sites_of_bindingDepths
      (Program.wellFormed_of_ofTokens hprogram) (Program.fresh_of_ofTokens hprogram) hdepths).1 site
        hsite).1
  · cases hbegin

/-- After a text was run, a session knows what the run did, and no number is in use again. -/
theorem known_of_run (h : session.run host rounds source = some (report, session')) :
    session'.nextId = (session.prepare source).2 ∧
      session'.depths =
        ((session.begin? host source).elim session.depths fun run => run.setting.depths) := by
  rcases exists_run_iff.1 ⟨rounds, h⟩ with ⟨_, hfailure, -, rfl⟩ | ⟨_, _, _, hsome, -, -, rfl⟩
  · rw [begin?_eq_none hfailure]
    exact ⟨rfl, rfl⟩
  · rw [hsome]
    exact ⟨rfl, rfl⟩

/-- There was room for a text that was run, if there is now. -/
theorem hasRoom_of_run (h : session.run host rounds source = some (report, session'))
    (hroom : session'.nextId < UInt32.size) : session.HasRoom [source] :=
  hasRoom_singleton_iff.2 ((known_of_run h).1 ▸ hroom)

end Session

namespace History

variable {host : Host} {config : Config} {past : List Run} {session : Session} {source : String}
  {run : Run}

/-- With the resolver, a session knows the depths of all its programs, as long as low bits are
enough. -/
theorem informed (h : History host config past session) (hresolver : config.useResolver = true)
    (hroom : session.nextId < UInt32.size) :
    Informed (past.map Run.program) session.nextId session.depths := by
  induction h with
  | start =>
    refine ⟨fun program hprogram => ?_, fun id _ hid => ?_, fun program hprogram => ?_⟩
    · cases hprogram
    · exact absurd DepthTable.getElem?_empty hid
    · cases hprogram
  | @run past session session' source rounds report h hrun ih =>
    obtain ⟨hnextId, hdepths⟩ := Session.known_of_run hrun
    rw [hnextId] at hroom ⊢
    rw [hdepths]
    have hinformed := ih (Nat.lt_of_le_of_lt (session.le_nextId_prepare source) hroom)
    cases hbegin : session.begin? host source with
    | none => exact hinformed.skip (session.le_nextId_prepare source)
    | some run =>
      rw [← h.config_eq] at hresolver
      exact Session.informed_of_begin? hresolver hinformed hroom hbegin

/-- With the resolver, a run knows the depths of its program and of all programs before. -/
theorem informed_of_begin? (h : History host config past session)
    (hresolver : config.useResolver = true) (hroom : session.HasRoom [source])
    (hbegin : session.begin? host source = some run) :
    Informed ((run :: past).map Run.program) (session.prepare source).2 run.setting.depths := by
  have hconfig := hresolver
  rw [← h.config_eq] at hconfig
  exact Session.informed_of_begin? hconfig (h.informed hresolver hroom.nextId_lt) hroom.prepare_lt
    hbegin

/-- With the resolver, nothing is wrong with any program so far. -/
theorem error?_eq_none (h : History host config past session)
    (hresolver : config.useResolver = true) {origin : Run} (horigin : origin ∈ past) :
    ∀ site ∈ Program.sites origin.program, site.error? = none := by
  induction h with
  | start => cases horigin
  | @run past session _ source _ _ h _ ih =>
    rcases List.mem_append.1 horigin with horigin | horigin
    · rw [← h.config_eq] at hresolver
      exact Session.error?_eq_none_of_begin? hresolver (Option.mem_toList.1 horigin)
    · exact ih horigin

theorem error?_eq_none_of_begin? (h : History host config past session)
    (hresolver : config.useResolver = true) (hbegin : session.begin? host source = some run)
    {origin : Run} (horigin : origin ∈ run :: past) :
    ∀ site ∈ Program.sites origin.program, site.error? = none := by
  rcases List.mem_cons.1 horigin with rfl | horigin
  · rw [← h.config_eq] at hresolver
    exact Session.error?_eq_none_of_begin? hresolver hbegin
  · exact h.error?_eq_none hresolver horigin

end History

/-- With the resolver, a setting knows the depth of every access in the programs of some runs, each
at the place where it stands. -/
def Setting.KnowsAll (setting : Setting) (runs : List Run) : Prop :=
  setting.config.useResolver = true → ∀ run ∈ runs, ∀ site ∈ Program.sites run.program, ∀ id,
    site.id? = some id → setting.depths[id]? = site.depth?

/-- As long as low bits are enough for the numbers of all accesses, a run knows the depths in its
own program and in all programs before. -/
theorem History.knowsAll {host : Host} {config : Config} {past : List Run} {session : Session}
    {source : String} {run : Run} (h : History host config past session)
    (hroom : session.HasRoom [source]) (hbegin : session.begin? host source = some run) :
    run.setting.KnowsAll (run :: past) := by
  intro hresolver origin horigin site hsite
  rw [(h.setting_eq hbegin).1] at hresolver
  have hinformed := h.informed_of_begin? hresolver hroom hbegin
  exact (hinformed.sites origin.program (List.mem_map_of_mem horigin) site hsite).2

end Lox
