/-
# Texts run together

Texts that are accepted on their own can be run one by one, or joined by line breaks as one text. It
makes no difference, as long as all but the last succeed: the same is printed, the result is that of
the last text, and the session behaves in the same way ever after
(`Session.joined_runs_as_separate`). Nothing that a run keeps to itself, such as the depths of its
accesses, can be told from what it leaves to the next, and nothing gets lost between two runs but
what has been printed.

What differs are the numbers of accesses, and the lines of tokens: in the texts joined, each text
begins behind the lines of those before it. Of the numbers nothing can be seen; and where each text
is run behind as many line breaks as come before it in the whole, the lines are the same, too.
-/

import Lox.Proofs.Grammar.Joined
import Lox.Proofs.Session.Alike

namespace Lox

variable {lines : Nat → Nat → Prop}

/-! ## Programs in parts -/

namespace Program

theorem sites_append (program program' : List Stmt) :
    sites (program ++ program') = sites program ++ sites program' := by
  unfold sites
  induction program with
  | nil => rfl
  | cons s ss ih =>
    rw [List.cons_append, Stmt.allSites, Stmt.allSites, List.append_assoc]
    exact congrArg (s.sites .top ++ ·) ih

/-- What comes behind statements that succeed is executed in the state that they lead to. -/
theorem execute_append {setting : Setting} {rounds : Nat} {program : List Stmt}
    {state reached : State} (h : execute setting rounds program state = some (.ok (), reached))
    (program' : List Stmt) :
    execute setting rounds (program ++ program') state =
      execute setting rounds program' reached := by
  induction program generalizing state with
  | nil =>
    cases h
    rfl
  | cons s ss ih =>
    rw [List.cons_append]
    unfold execute at h
    conv_lhs => unfold execute
    split at h
    · cases h
    · rename_i completion middle hrun
      exact ih h
    · cases h

end Program

/-- A text is accepted on its own: it can be scanned, it is a program of the grammar, and if the
resolver is used, nothing is wrong with its scopes. -/
def Config.Accepts (config : Config) (source : String) : Prop :=
  ∃ prepared, ((Session.start config).prepare source).1 = .ok prepared

/-- A line is where it was, or it is a line of one of some texts and now of the texts joined. -/
def MovedLine (sources : List String) (line line' : Nat) : Prop :=
  line' = line ∨ JoinedLine sources line line'

namespace Session

variable {host : Host} {session joint middle : Session} {source : String} {sources : List String}
  {rounds : Nat} {before : String} {parts : List (List Stmt)}

/-- A text that can be scanned, that is a program of the grammar and, if the resolver is used, whose
depths are known, is prepared. -/
theorem prepare_of_ofTokens {tokens : List Token} {program : List Stmt} {depths : BindingDepths}
    {nextId : AccessId} (hscan : Token.scan source = .ok tokens)
    (hprogram : Program.ofTokens tokens session.nextId = (.ok program, nextId))
    (hdepths : if session.config.useResolver then Program.bindingDepths program = .ok depths
      else depths = ∅) :
    session.prepare source = (.ok (program, depths), nextId) := by
  unfold prepare
  rw [hscan]
  dsimp only
  rw [hprogram]
  dsimp only
  split
  · rename_i hresolver
    rw [if_pos hresolver] at hdepths
    rw [hdepths]
  · rename_i hresolver
    rw [if_neg hresolver] at hdepths
    rw [hdepths]

/-- A text that is accepted on its own is accepted in each session of the configuration, and so is a
text that is prepared alike. -/
theorem prepare_of_accepts {source' : String} (h : session.config.Accepts source)
    (hsource : PreparesAlike lines source source') :
    ∃ program depths nextId, session.prepare source' = (.ok (program, depths), nextId) := by
  obtain ⟨prepared, hprepared⟩ := h
  have halike := hsource (start session.config) session rfl
  rw [hprepared] at halike
  generalize hprepare : session.prepare source' = prepared' at halike
  obtain ⟨result, nextId⟩ := prepared'
  cases halike with
  | @ok _ prepared' _ =>
    obtain ⟨program, depths⟩ := prepared'
    exact ⟨program, depths, nextId, rfl⟩

/-- A text that is accepted can be scanned to tokens that are a program. -/
theorem exists_ofTokens_of_accepts {config : Config} (h : config.Accepts source) :
    ∃ tokens program depths nextId, Token.scan source = .ok tokens ∧
      Program.ofTokens tokens 0 = (.ok program, nextId) ∧
        if config.useResolver then Program.bindingDepths program = .ok depths else depths = ∅ := by
  have hself := @preparesAlike_self Eq (fun _ => rfl) source
  obtain ⟨program, depths, nextId, hprepare⟩ := @prepare_of_accepts Eq (start config) _ _ h hself
  obtain ⟨tokens, hscan, hprogram, hdepths⟩ := prepare_eq_ok_iff.1 hprepare
  exact ⟨tokens, program, depths, nextId, hscan, hprogram, hdepths⟩

theorem readable_of_accepts {config : Config} (h : config.Accepts source) :
    Program.Readable source := by
  obtain ⟨tokens, program, -, nextId, hscan, hprogram, -⟩ := exists_ofTokens_of_accepts h
  exact ⟨tokens, hscan, _, program, nextId, hprogram⟩

/-- With the resolver, nothing is wrong with what texts say that are accepted on their own. -/
theorem errors_eq_nil_of_accepts {config : Config} (hresolver : config.useResolver = true)
    (haccepted : ∀ source ∈ sources, config.Accepts source)
    (hsaid : List.Forall₂ (Program.Says lines) sources parts) :
    (Program.sites parts.flatten).filterMap Site.error? = [] := by
  induction hsaid with
  | nil => rfl
  | @cons source part sources parts hsaid _ ih =>
    obtain ⟨haccepts, hothers⟩ := List.forall_mem_cons.1 haccepted
    obtain ⟨tokens, program, depths, nextId, hscan, hprogram, hdepths⟩ :=
      exists_ofTokens_of_accepts haccepts
    rw [if_pos hresolver, Program.bindingDepths_eq (Program.wellFormed_of_ofTokens hprogram)]
      at hdepths
    rw [List.flatten_cons, Program.sites_append, List.filterMap_append, ih hothers,
      List.append_nil]
    split at hdepths
    · rename_i hnone
      exact (Program.errors_eq_nil_iff ((hsaid _ _ _ _ hscan hprogram).sites .top)).1 hnone
    · cases hdepths

/-- Texts that are accepted on their own are accepted when they are joined by line breaks. -/
theorem prepare_intercalate (haccepted : ∀ source ∈ sources, session.config.Accepts source) :
    ∃ parts depths nextId,
      session.prepare ("\n".intercalate sources) = (.ok (parts.flatten, depths), nextId) ∧
        ∀ {lines : Nat → Nat → Prop} {others : List String}, lines 1 1 →
          List.Forall₂ (Token.Spells lines) others (Token.pieces [] sources) →
            List.Forall₂ (Program.Says lines) others parts := by
  obtain ⟨tokens, parts, nextId, hscan, hprogram, hsaid⟩ := Program.exists_ofTokens_intercalate
    (fun source hsource => readable_of_accepts (haccepted source hsource)) session.nextId
  by_cases hresolver : session.config.useResolver = true
  · have hspells := @Token.spells_pieces (fun _ _ => True) sources [] fun _ _ _ => trivial
    have herrors := errors_eq_nil_of_accepts hresolver haccepted (hsaid trivial hspells)
    have hdepths := Program.bindingDepths_eq (Program.wellFormed_of_ofTokens hprogram)
    rw [if_pos herrors] at hdepths
    refine ⟨parts, (Program.sites parts.flatten).foldl Site.record ∅, nextId,
      prepare_of_ofTokens hscan hprogram ?_, hsaid⟩
    rw [if_pos hresolver]
    exact hdepths
  · refine ⟨parts, ∅, nextId, prepare_of_ofTokens hscan hprogram ?_, hsaid⟩
    rw [if_neg hresolver]

/-! ## Texts behind line breaks -/

/-- A text is prepared alike behind any number of line breaks. -/
theorem preparesAlike_lowered (h : Program.Readable source) (count : Nat) :
    PreparesAlike (fun _ _ => True) source (lowered count source) := by
  obtain ⟨tokens, hscan, -⟩ := h
  have hcount : (List.replicate count '\n').count '\n' = count := List.count_replicate_self
  have halike := @Token.forall₂_lowered (fun _ _ => True) _ _ hscan (List.replicate count '\n')
    fun _ _ => trivial
  rw [hcount] at halike
  exact preparesAlike_of_scan hscan (Token.scan_lowered hscan hcount) halike trivial

/-- As many numbers are given out behind any number of line breaks. -/
theorem nextIdAfter_lowered (h : Program.Readable source) (count : Nat) (nextId : AccessId) :
    Program.nextIdAfter nextId (lowered count source) = Program.nextIdAfter nextId source := by
  obtain ⟨tokens, hscan, -⟩ := h
  have hcount : (List.replicate count '\n').count '\n' = count := List.count_replicate_self
  have halike := @Token.forall₂_lowered (fun _ _ => True) _ _ hscan (List.replicate count '\n')
    fun _ _ => trivial
  rw [hcount] at halike
  unfold Program.nextIdAfter
  rw [hscan, Token.scan_lowered hscan hcount]
  exact Program.nextId_ofTokens_alike halike trivial nextId 0

theorem foldl_nextIdAfter_inPlace (h : ∀ source ∈ sources, Program.Readable source) (count : Nat)
    (nextId : AccessId) :
    (inPlace count sources).foldl Program.nextIdAfter nextId =
      sources.foldl Program.nextIdAfter nextId := by
  induction sources generalizing count nextId with
  | nil => rfl
  | cons source sources ih =>
    obtain ⟨hsource, hsources⟩ := List.forall_mem_cons.1 h
    refine (ih hsources _ _).trans (congrArg (sources.foldl Program.nextIdAfter) ?_)
    exact nextIdAfter_lowered hsource count nextId

theorem HasRoom.inPlace (h : session.HasRoom sources)
    (hreadable : ∀ source ∈ sources, Program.Readable source) (count : Nat) :
    session.HasRoom (inPlace count sources) := by
  unfold HasRoom
  rw [foldl_nextIdAfter_inPlace hreadable]
  exact h

theorem preparesAlike_inPlace (h : ∀ source ∈ sources, Program.Readable source) (count : Nat) :
    List.Forall₂ (PreparesAlike fun _ _ => True) sources (inPlace count sources) := by
  induction sources generalizing count with
  | nil => exact .nil
  | cons source sources ih =>
    obtain ⟨hsource, hsources⟩ := List.forall_mem_cons.1 h
    exact .cons (preparesAlike_lowered hsource count) (ih hsources _)

theorem accepts_of_preparesAlike {config : Config} {sources' : List String}
    (h : List.Forall₂ (PreparesAlike lines) sources sources')
    (haccepted : ∀ source ∈ sources, config.Accepts source) :
    ∀ source ∈ sources', config.Accepts source := by
  induction h with
  | nil => exact haccepted
  | cons hsource _ ih =>
    rw [List.forall_mem_cons] at haccepted ⊢
    obtain ⟨program, depths, nextId, hprepare⟩ :=
      @prepare_of_accepts lines (start config) _ _ haccepted.1 hsource
    exact ⟨⟨(program, depths), by rw [hprepare]⟩, ih haccepted.2⟩

/-- Runs that succeed have no lines to differ in. -/
theorem eq_of_forall_ok {reports reports' : List Report}
    (h : List.Forall₂ (Report.Alike lines) reports reports')
    (hok : ∀ report ∈ reports, report.result = .ok ()) : reports' = reports := by
  induction h with
  | nil => rfl
  | cons hreport _ ih =>
    obtain ⟨hsuccess, hothers⟩ := List.forall_mem_cons.1 hok
    rw [ih hothers, Report.eq_of_ok hreport.result hreport.output hsuccess]

/-- Texts that succeed one after another do so behind any numbers of line breaks. -/
theorem exists_runAll_inPlace {config : Config} {past : List Run}
    (h : History host config past session) (hreadable : ∀ source ∈ sources, Program.Readable source)
    (hroom : session.HasRoom sources) {reports : List Report}
    (hruns : session.runAll host rounds sources = some (reports, middle))
    (hok : ∀ report ∈ reports, report.result = .ok ()) :
    ∃ middle', session.runAll host rounds (inPlace 0 sources) = some (reports, middle') := by
  have hself := @History.alike_self (fun _ _ => True) _ _ _ _ h hroom.nextId_lt fun _ => trivial
  have hrel := hself.rel_runAll (preparesAlike_inPlace hreadable 0) hroom
    (hroom.inPlace hreadable 0) host rounds
  rw [hruns] at hrel
  generalize hruns' : session.runAll host rounds (inPlace 0 sources) = outcome at hrel
  cases hrel with
  | @some _ outcome hrel =>
    obtain ⟨reports', middle'⟩ := outcome
    obtain rfl := eq_of_forall_ok hrel.1 hok
    exact ⟨middle', rfl⟩

/-! ## Running part after part -/

/-- A text is run in a session as its part is executed in the session that has all texts. -/
theorem Alike.rel_execute_part {state : State} {part : List Stmt}
    (h : session.Alike lines before { joint with state }) (haccepts : joint.config.Accepts source)
    (hroom : session.HasRoom [source]) (hsaid : Program.Says lines source part)
    (hknows : joint.Knows part) (host : Host) (rounds : Nat) :
    Option.Rel (ComesTo lines before joint) (session.run host rounds source)
      (Program.execute ⟨joint.config, joint.depths, host⟩ rounds part state) := by
  have hconfig : session.config = joint.config := h.config
  rw [← hconfig] at haccepts
  obtain ⟨program, depths, nextId, hprepare⟩ :=
    prepare_of_accepts haccepts (@preparesAlike_self Eq (fun _ => rfl) source)
  obtain ⟨tokens, hscan, hprogram, -⟩ := prepare_eq_ok_iff.1 hprepare
  have hlt := hroom.prepare_lt
  rw [hprepare] at hlt
  have hrel : Option.Rel (ComesTo lines before { joint with state })
    (session.run host rounds source)
      (Program.execute ⟨joint.config, joint.depths, host⟩ rounds part state) :=
    h.rel_execute host rounds hprepare hlt (hsaid _ _ _ _ hscan hprogram) hknows
  generalize session.run host rounds source = separate at hrel ⊢
  generalize Program.execute ⟨joint.config, joint.depths, host⟩ rounds part state = outcome
    at hrel ⊢
  cases hrel with
  | none => exact .none
  | some hcomes => exact .some ⟨hcomes.result, hcomes.output, hcomes.drained, hcomes.alike⟩

theorem knows_append {program program' : List Stmt} (h : joint.Knows (program ++ program')) :
    joint.Knows program ∧ joint.Knows program' := by
  unfold Knows at h
  rw [Program.sites_append] at h
  exact ⟨fun site hsite => h site (List.mem_append_left _ hsite),
    fun site hsite => h site (List.mem_append_right _ hsite)⟩

/-- Where all texts but the last succeed when they are run one by one, the last one comes to the
same as the parts of all of them together. -/
theorem Alike.rel_execute_parts {earlier : List String} {final : String} {state : State}
    {reports : List Report} (h : session.Alike lines before { joint with state })
    (haccepted : ∀ source ∈ earlier ++ [final], joint.config.Accepts source)
    (hroom : session.HasRoom (earlier ++ [final]))
    (hsaid : List.Forall₂ (Program.Says lines) (earlier ++ [final]) parts)
    (hknows : joint.Knows parts.flatten)
    (hearlier : session.runAll host rounds earlier = some (reports, middle))
    (hok : ∀ report ∈ reports, report.result = .ok ()) :
    Option.Rel (ComesTo lines (before ++ String.join (reports.map Report.output)) joint)
      (middle.run host rounds final)
      (Program.execute ⟨joint.config, joint.depths, host⟩ rounds parts.flatten state) := by
  induction earlier generalizing session before state parts reports with
  | nil =>
    cases hearlier
    cases hsaid with
    | cons hsaid hnone =>
      cases hnone
      rw [List.flatten_cons, List.flatten_nil, List.append_nil] at hknows ⊢
      rw [List.map_nil, String.join_nil, String.append_empty]
      exact h.rel_execute_part (haccepted final List.mem_cons_self) hroom hsaid hknows host rounds
  | cons source earlier ih =>
    cases hsaid with
    | @cons _ part _ parts hsaid hothers =>
      obtain ⟨haccepts, haccepted⟩ := List.forall_mem_cons.1 haccepted
      rw [List.flatten_cons] at hknows ⊢
      obtain ⟨hknows, hknowsOthers⟩ := knows_append hknows
      unfold runAll at hearlier
      split at hearlier
      · cases hearlier
      · rename_i report next hrun
        split at hearlier
        · cases hearlier
        · rename_i reports' last hrest
          cases hearlier
          obtain ⟨hreport, hok⟩ := List.forall_mem_cons.1 hok
          have hrel := h.rel_execute_part haccepts hroom.head hsaid hknows host rounds
          rw [hrun] at hrel
          generalize hexecute : Program.execute ⟨joint.config, joint.depths, host⟩ rounds part
            state = outcome at hrel
          cases hrel with
          | @some _ outcome hcomes =>
            obtain ⟨result, reached⟩ := outcome
            have hresult := hcomes.result
            rw [hreport] at hresult
            cases result with
            | error fault => cases hresult
            | ok _ =>
              have hrestRoom := hroom.tail (known_of_run hrun).1
              have hlast := ih hcomes.alike haccepted hrestRoom hothers hknowsOthers hrest hok
              rw [Program.execute_append hexecute, List.map_cons, String.join_cons,
                ← String.append_assoc, ← hcomes.output]
              exact hlast

/-- A text that was run when others had been reported about came to the same as one text did alone:
the same was printed, the results differ at most in lines, and so do the reports about whatever
texts are run later, on any host, as long as low bits are enough for the numbers of all accesses. -/
structure AsOneByOne (lines : Nat → Nat → Prop) (reports : List Report)
    (separate joined : Report × Session) : Prop where
  output : joined.1.output = String.join (reports.map Report.output) ++ separate.1.output
  result : ResultAlike (Failure.Alike lines) Eq separate.1.result joined.1.result
  later : ∀ (host : Host) (rounds : Nat) (sources : List String),
    separate.2.HasRoom sources → joined.2.HasRoom sources →
    Option.Rel (List.Forall₂ (Report.Alike lines))
      ((separate.2.runAll host rounds sources).map Prod.fst)
      ((joined.2.runAll host rounds sources).map Prod.fst)

/-- With equal lines, nothing differs at all. -/
theorem AsOneByOne.exact {reports : List Report} {separate joined : Report × Session}
    (h : AsOneByOne Eq reports separate joined) :
    joined.1 = ⟨separate.1.result, String.join (reports.map Report.output) ++ separate.1.output⟩ ∧
      ∀ (host : Host) (rounds : Nat) (sources : List String),
        separate.2.HasRoom sources → joined.2.HasRoom sources →
        (joined.2.runAll host rounds sources).map Prod.fst =
          (separate.2.runAll host rounds sources).map Prod.fst := by
  have hreport : Report.Alike Eq
      ⟨separate.1.result, String.join (reports.map Report.output) ++ separate.1.output⟩ joined.1 :=
    ⟨h.result, h.output.symm⟩
  exact ⟨hreport.eq.symm, fun host rounds sources hroom hroom' =>
    Report.eq_of_rel (h.later host rounds sources hroom hroom')⟩

/-- Texts do the same one by one as a text that says the same. -/
theorem Alike.rel_run_parts (h : session.Alike lines "" session)
    (hlines : ∀ line, lines line line) {earlier : List String} {final text : String}
    (haccepted : ∀ source ∈ earlier ++ [final], session.config.Accepts source)
    (hroom : session.HasRoom (earlier ++ [final])) (hroom' : session.HasRoom [text])
    {depths : BindingDepths} {nextId : AccessId}
    (hprepare : session.prepare text = (.ok (parts.flatten, depths), nextId))
    (hsaid : List.Forall₂ (Program.Says lines) (earlier ++ [final]) parts) {reports : List Report}
    (hearlier : session.runAll host rounds earlier = some (reports, middle))
    (hok : ∀ report ∈ reports, report.result = .ok ()) :
    Option.Rel (AsOneByOne lines reports) (middle.run host rounds final)
      (session.run host rounds text) := by
  have hlt := hroom'.prepare_lt
  rw [hprepare] at hlt
  obtain ⟨htidy, hknows, hle, hold⟩ := learn_of_prepare h.tidy hprepare hlt
  have hready : session.Alike lines ""
      { session.learn depths with nextId, state := session.state } :=
    h.extend rfl rfl h.tidy htidy rfl rfl (Nat.le_refl _) hle (fun _ _ => rfl) hold
  have hrel : Option.Rel
      (ComesTo lines ("" ++ String.join (reports.map Report.output))
        { session.learn depths with nextId })
      (middle.run host rounds final)
      (Program.execute ⟨session.config, (session.learn depths).depths, host⟩ rounds parts.flatten
        session.state) :=
    hready.rel_execute_parts haccepted hroom hsaid hknows hearlier hok
  rw [run_of_prepare host rounds hprepare]
  generalize middle.run host rounds final = separate at hrel ⊢
  generalize Program.execute ⟨session.config, (session.learn depths).depths, host⟩ rounds
    parts.flatten session.state = outcome at hrel ⊢
  cases hrel with
  | none => exact .none
  | some hcomes =>
    have houtput := hcomes.output
    rw [String.empty_append] at houtput
    refine .some ⟨houtput, hcomes.result, fun host' rounds' later hlater hlater' => ?_⟩
    exact (hcomes.alike.drain hcomes.drained).rel_reports hlines hlater hlater' host' rounds'

/-- Texts that are accepted on their own do the same joined by line breaks as one by one, as long as
all but the last succeed and low bits are enough for the numbers of all accesses. Within any number
of rounds, the joined text comes to an end exactly if the last text does. Then it has printed what
all of them have printed, one after another, its result is that of the last text but for lines, and
whatever texts are run later, on any host, come to reports that differ at most in lines. A line that
differs is one of the texts, which has moved down by as many lines as the texts before it have. So
nothing differs at all from what the texts come to one by one when each of them stands behind as
many line breaks as come before it in the whole. -/
theorem joined_runs_as_separate {config : Config} {past : List Run}
    (hsession : History host config past session) {earlier : List String} {final : String}
    (haccepted : ∀ source ∈ earlier ++ [final], config.Accepts source)
    (hroom : session.HasRoom (earlier ++ [final]))
    (hroom' : session.HasRoom ["\n".intercalate (earlier ++ [final])]) {reports : List Report}
    (hearlier : session.runAll host rounds earlier = some (reports, middle))
    (hok : ∀ report ∈ reports, report.result = .ok ()) :
    Option.Rel (AsOneByOne (MovedLine (earlier ++ [final])) reports)
      (middle.run host rounds final)
      (session.run host rounds ("\n".intercalate (earlier ++ [final]))) ∧
    ∃ middle', session.runAll host rounds (inPlace 0 earlier) = some (reports, middle') ∧
      Option.Rel
        (fun separate joined : Report × Session =>
          joined.1 =
            ⟨separate.1.result, String.join (reports.map Report.output) ++ separate.1.output⟩ ∧
          ∀ (host' : Host) (rounds' : Nat) (later : List String),
            separate.2.HasRoom later → joined.2.HasRoom later →
            (joined.2.runAll host' rounds' later).map Prod.fst =
              (separate.2.runAll host' rounds' later).map Prod.fst)
        (middle'.run host rounds (lowered (totalLines earlier) final))
        (session.run host rounds ("\n".intercalate (earlier ++ [final]))) := by
  have hlines : ∀ line, MovedLine (earlier ++ [final]) line line := fun _ => .inl rfl
  rw [← hsession.config_eq] at haccepted
  have hreadable := fun source hsource => readable_of_accepts (haccepted source hsource)
  obtain ⟨parts, depths, nextId, hprepare, hsaid⟩ := prepare_intercalate haccepted
  refine ⟨?_, ?_⟩
  · have hspells := @Token.spells_pieces (MovedLine (earlier ++ [final])) (earlier ++ [final]) []
      fun _ _ hline => .inr hline
    exact (hsession.alike_self hroom.nextId_lt hlines).rel_run_parts hlines haccepted hroom hroom'
      hprepare (hsaid (hlines 1) hspells) hearlier hok
  · obtain ⟨middle', hearlier'⟩ := exists_runAll_inPlace hsession
      (fun source hsource => hreadable source (List.mem_append_left _ hsource)) hroom.of_append
      hearlier hok
    have hspells := Token.spells_inPlace
      (fun source hsource => (hreadable source hsource).exists_scan) []
    have hplaced := accepts_of_preparesAlike (preparesAlike_inPlace hreadable 0) haccepted
    have hplacedRoom := hroom.inPlace hreadable 0
    have hall : inPlace 0 (earlier ++ [final]) =
        inPlace 0 earlier ++ [lowered (totalLines earlier) final] := by
      rw [inPlace_append, Nat.zero_add]
      rfl
    rw [List.count_nil, hall] at hspells
    rw [hall] at hplaced hplacedRoom
    have hrel := (hsession.alike_self hroom.nextId_lt fun _ => rfl).rel_run_parts (fun _ => rfl)
      hplaced hplacedRoom hroom' hprepare (hsaid rfl hspells) hearlier' hok
    refine ⟨middle', hearlier', ?_⟩
    generalize middle'.run host rounds _ = separate at hrel ⊢
    generalize session.run host rounds _ = joined at hrel ⊢
    cases hrel with
    | none => exact .none
    | some hsame => exact .some hsame.exact

/-- The last of three texts calls a function of the second one, which is stopped: on the only line
of the second text, and on the third of the three texts joined. The first text ends in a comment,
which the line break ends. -/
theorem joined_runs_as_separate_until_fault :
    ∃ session reports middle, History ⟨fun _ => .unset, fun _ => 0⟩ .default [] session ∧
      (∀ source ∈ ["print 1;\n// one", "fun f(x) { return -x; }"] ++ ["f(nil);"],
        Config.default.Accepts source) ∧
      session.runAll ⟨fun _ => .unset, fun _ => 0⟩ 50
        ["print 1;\n// one", "fun f(x) { return -x; }"] = some (reports, middle) ∧
      (∀ report ∈ reports, report.result = .ok ()) ∧
      ∃ joined, session.run ⟨fun _ => .unset, fun _ => 0⟩ 50
          ("\n".intercalate
            (["print 1;\n// one", "fun f(x) { return -x; }"] ++ ["f(nil);"])) =
            some joined ∧
        joined.1 = ⟨.error (.runtime ⟨⟨.minus, "-", none, 3⟩, .operandNotNumber⟩), "1\n"⟩ := by
  have haccepted : ∀ source ∈ ["print 1;\n// one", "fun f(x) { return -x; }"] ++ ["f(nil);"],
      Config.default.Accepts source :=
    List.forall_mem_cons.2 ⟨⟨_, rfl⟩, List.forall_mem_cons.2 ⟨⟨_, rfl⟩,
      List.forall_mem_singleton.2 ⟨_, rfl⟩⟩⟩
  have hruns : ∃ reports middle,
      (start .default).runAll ⟨fun _ => .unset, fun _ => 0⟩ 50
        ["print 1;\n// one", "fun f(x) { return -x; }"] = some (reports, middle) ∧
      (∀ report ∈ reports, report.result = .ok ()) ∧
      String.join (reports.map Report.output) = "1\n" :=
    ⟨_, _, rfl, List.forall_mem_cons.2 ⟨rfl, List.forall_mem_singleton.2 rfl⟩, rfl⟩
  have hplaced : ∃ middle separate,
      ((start .default).runAll ⟨fun _ => .unset, fun _ => 0⟩ 50
        (inPlace 0 ["print 1;\n// one", "fun f(x) { return -x; }"])).map Prod.snd =
          some middle ∧
      middle.run ⟨fun _ => .unset, fun _ => 0⟩ 50 (lowered 3 "f(nil);") = some separate ∧
      separate.1 = ⟨.error (.runtime ⟨⟨.minus, "-", none, 3⟩, .operandNotNumber⟩), ""⟩ :=
    ⟨_, _, rfl, rfl, rfl⟩
  obtain ⟨reports, middle, hearlier, hok, hprinted⟩ := hruns
  obtain ⟨placed, separate, hplaced, hrun, hseparate⟩ := hplaced
  obtain ⟨-, middle', hearlier', hjoined⟩ :=
    joined_runs_as_separate .start haccepted (by decide) (by decide) hearlier hok
  rw [hearlier'] at hplaced
  cases hplaced
  have hlines : totalLines ["print 1;\n// one", "fun f(x) { return -x; }"] = 3 := rfl
  rw [hlines, hrun] at hjoined
  generalize hrun' : (start .default).run _ 50 _ = outcome at hjoined
  cases hjoined with
  | @some _ joined hsame =>
    obtain ⟨hreport, -⟩ := hsame
    rw [hprinted, hseparate] at hreport
    exact ⟨start .default, reports, middle, .start, haccepted, hearlier, hok, joined, hrun',
      hreport⟩

end Session

end Lox
