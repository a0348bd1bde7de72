/-
# What programs learn of the environment

The environment of the process reaches a program at one point only: a `host` expression that is
evaluated to a text, where commands are allowed, and where the text is the command to look up a
variable. `Run.LooksUp` are the names that are looked up in a run. If two environments agree on the
names that are looked up in the first, and the clock shows the same, then all texts come to the same
in both, round by round; and a run that never ends comes to the same code in the same states
(`Session.depends_on_names_looked_up`). Where commands are not allowed the environments need not
agree on anything.
-/

import Lox.Proofs.Session.Run

namespace Lox

/-! ## Commands -/

/-- The name that a text given to the host has looked up in the environment, if it is a command to
do so. A name with NUL in it is not looked up. -/
def Host.sought? (code : String) : Option String :=
  let (command, argument) := Text.splitWord (Text.trim code.toList)
  if String.ofList command = "env" ∧ argument ≠ [] ∧ '\x00' ∉ argument then
    some (String.ofList argument)
  else
    none

namespace Host

variable {host host' : Host}

theorem env_eq {name : String}
    (h : name.isEmpty = false → '\x00' ∉ name.toList →
      host.environment name = host'.environment name) :
    host.env name = host'.env name := by
  unfold env
  cases hempty : name.isEmpty with
  | true => exact (if_pos rfl).trans (if_pos rfl).symm
  | false =>
    have hnamed : host.variableNamed name = host'.variableNamed name := by
      unfold variableNamed
      by_cases hnul : name.toList.contains '\x00' = true
      · exact (if_pos hnul).trans (if_pos hnul).symm
      · have heq := h hempty fun hmem => hnul (List.contains_iff_mem.2 hmem)
        rw [heq]
    rw [hnamed]

/-- A text does the same on two hosts that agree on what it looks up. -/
theorem obey_eq {allowed : Bool} {code : String}
    (h : allowed = true → ∀ name, sought? code = some name →
      host.environment name = host'.environment name) :
    host.obey allowed code = host'.obey allowed code := by
  unfold obey
  cases allowed with
  | false => exact (if_pos rfl).trans (if_pos rfl).symm
  | true =>
    have hagree := h rfl
    unfold sought? at hagree
    generalize Text.splitWord (Text.trim code.toList) = parts at hagree ⊢
    obtain ⟨command, argument⟩ := parts
    dsimp only at hagree ⊢
    by_cases henv : String.ofList command = "env"
    · have heq : host.env (String.ofList argument) = host'.env (String.ofList argument) := by
        refine env_eq fun hempty hnul => hagree _ (if_pos ⟨henv, ?_, ?_⟩)
        · rintro rfl
          cases hempty
        · rwa [String.toList_ofList] at hnul
      rw [heq]
    · rw [if_neg henv, if_neg henv]

end Host

/-! ## Code -/

/-- A setting on another host. -/
def Setting.on (setting : Setting) (host : Host) : Setting := { setting with host }

/-- A run on another host. -/
def Run.on (run : Run) (host : Host) : Run := { run with setting := run.setting.on host }

/-- Apart from `host` expressions, code does the same wherever the clock shows the same. -/
theorem Code.execute_on {setting : Setting} {host : Host} (hclock : setting.host.clock = host.clock)
    {code : Code} (hcode : ∀ keyword e, code ≠ .expression (.host keyword e)) :
    execute (setting.on host) code = execute setting code := by
  have hnow : now (setting.on host) = now setting := by
    unfold now
    rw [hclock]
    rfl
  have hperform : perform (setting.on host) = perform setting := by
    funext caller called arguments
    cases called with
    | function declaration closure => rfl
    | builtin builtin =>
      unfold perform
      rw [hnow]
  cases code with
  | expression e =>
    cases e with
    | host keyword e => exact absurd rfl (hcode keyword e)
    | call callee paren es =>
      show evaluateCall (setting.on host) callee paren es = evaluateCall setting callee paren es
      unfold evaluateCall
      rw [hperform]
      rfl
    | _ => rfl
  | arguments es => cases es <;> rfl
  | statement s => rfl
  | body ss => cases ss <;> rfl

/-- What becomes of an expression with what the host has answered. -/
def Code.answered (keyword : Token) : Except Host.Failure Value → Step Value
  | .ok answer => pure answer
  | .error failure => Routine.fail ⟨keyword, .host failure⟩

theorem Code.execute_host {setting : Setting} {keyword : Token} {e : Expr} :
    execute setting (.expression (.host keyword e)) = value e >>= fun code =>
      answered keyword (setting.host.obey setting.config.allowHost code.display) :=
  rfl

theorem Code.not_makes_answered {setting : Setting} {keyword : Token}
    {result : Except Host.Failure Value} {state : State} {made : Code × State} :
    ¬ Routine.Makes (execute setting) (answered keyword result) state made := by
  cases result <;> exact CallTree.not_makes_done

namespace Run

/-- A run looks up a name in the environment: it comes to a `host` expression that is evaluated to a
command to do so. -/
def LooksUp (run : Run) (name : String) : Prop :=
  ∃ keyword e state value reached,
    run.Comes (.expression (.host keyword e), state) ∧
      run.Answers (.expression e) state (.ok value, reached) ∧
        Host.sought? value.display = some name

/-- A host that shows a run all that it gets to see of its own one. -/
structure Shows (run : Run) (host : Host) : Prop where
  /-- The clock shows the same. -/
  clock : run.setting.host.clock = host.clock
  /-- Names that are looked up refer to the same. -/
  environment : run.setting.config.allowHost = true → ∀ name, run.LooksUp name →
    run.setting.host.environment name = host.environment name

namespace Shows

variable {run : Run} {host : Host}

/-- Whatever a run comes to execute does the same on a host that shows it the same. -/
theorem follows (h : run.Shows host) : run.FollowedIn (run.setting.on host) := by
  intro call hcomes
  obtain ⟨code, state⟩ := call
  by_cases hhost : ∃ keyword e, code = .expression (.host keyword e)
  · obtain ⟨keyword, e, rfl⟩ := hhost
    show CallTree.Follows _ _ (Code.execute run.setting (.expression (.host keyword e)) state)
      (Code.execute (run.setting.on host) (.expression (.host keyword e)) state)
    rw [Code.execute_host, Code.execute_host]
    refine Routine.follows_bind (fun made hmade => hcomes.tail ?_) fun value reached hvalue => ?_
    · show Routine.Makes _ (Code.execute run.setting (.expression (.host keyword e))) state made
      rw [Code.execute_host]
      exact Routine.makes_bind.2 (.inl hmade)
    · have hobey : run.setting.host.obey run.setting.config.allowHost value.display =
          host.obey run.setting.config.allowHost value.display :=
        Host.obey_eq fun hallowed name hname =>
          h.environment hallowed name ⟨keyword, e, state, value, reached, hcomes,
            Routine.ends_call.1 hvalue, hname⟩
      show CallTree.Follows _ _ _ (Code.answered keyword
        (host.obey run.setting.config.allowHost value.display) reached)
      rw [← hobey]
      exact CallTree.follows_self fun made hmade => absurd hmade Code.not_makes_answered
  · have heq : Code.execute (run.setting.on host) code = Code.execute run.setting code :=
      Code.execute_on h.clock fun keyword e hcode => hhost ⟨keyword, e, hcode⟩
    show CallTree.Follows _ _ _ (Code.execute (run.setting.on host) code state)
    rw [heq]
    exact CallTree.follows_self fun made hmade => hcomes.tail hmade

/-- So the run comes to the same code there, in the same states, whether it ends or not. -/
theorem comes_iff (h : run.Shows host) {made : Code × State} :
    (run.on host).Comes made ↔ run.Comes made :=
  h.follows.comes_iff

end Shows

end Run

/-! ## Sessions -/

namespace Session

variable {host host' : Host} {session session' : Session} {source : String} {sources : List String}
  {rounds : Nat} {run : Run}

/-- The runs that texts begin in a session when they are run one after another, as long as each
ends. -/
inductive Begins (host : Host) : Session → List String → Run → Prop where
  | first {session : Session} {source : String} {sources : List String} {run : Run}
      (hbegin : session.begin? host source = some run) :
      Begins host session (source :: sources) run
  | later {session after : Session} {source : String} {sources : List String} {run : Run}
      {rounds : Nat} {report : Report}
      (hrun : session.run host rounds source = some (report, after))
      (h : Begins host after sources run) : Begins host session (source :: sources) run

/-- On another host a text begins the same run there. -/
theorem begin?_on (session : Session) (host host' : Host) (source : String) :
    session.begin? host' source = (session.begin? host source).map (·.on host') := by
  unfold begin?
  split <;> rfl

/-- A text comes to the same on a host that shows the run of the text the same. -/
theorem run_eq (hshows : ∀ run, session.begin? host source = some run → run.Shows host')
    (rounds : Nat) : session.run host' rounds source = session.run host rounds source := by
  unfold begin? at hshows
  unfold Session.run execute
  split
  · rfl
  · rename_i program depths nextId hprepare
    rw [hprepare] at hshows
    have heq := (hshows _ rfl).follows.execute_eq rounds
    unfold Setting.on at heq
    dsimp only at heq ⊢
    have hstate : (session.learn depths).state = session.state := rfl
    have hconfig : (session.learn depths).config = session.config := rfl
    rw [hstate, hconfig, heq]

namespace Begins

/-- The runs are executed as the session says, on the host. -/
theorem setting (h : session.Begins host sources run) :
    run.setting.config = session.config ∧ run.setting.host = host := by
  induction h with
  | first hbegin => exact setting_of_begin? hbegin
  | later hrun _ ih => exact ⟨ih.1.trans (config_of_run hrun), ih.2⟩

theorem extend {before : List String} (h : session.Begins host before run)
    (hbefore : before <+: sources) : session.Begins host sources run := by
  obtain ⟨behind, rfl⟩ := hbefore
  induction h with
  | first hbegin => exact .first hbegin
  | later hrun _ ih => exact .later hrun ih

/-- The runs begin on another host as well, if it shows all of them the same. -/
theorem on (h : session.Begins host sources run)
    (hshows : ∀ run, session.Begins host sources run → run.Shows host') :
    session.Begins host' sources (run.on host') := by
  induction h with
  | @first session source sources run hbegin =>
    refine .first ?_
    rw [begin?_on session host, hbegin]
    rfl
  | later hrun _ ih =>
    have hrun' := (run_eq (fun run hbegin => hshows run (.first hbegin)) _).trans hrun
    exact .later hrun' (ih fun run hbegins => hshows run (.later hrun hbegins))

end Begins

/-- Texts come to the same on another host that shows all their runs the same. -/
theorem runAll_eq (hshows : ∀ run, session.Begins host sources run → run.Shows host')
    (rounds : Nat) : session.runAll host' rounds sources = session.runAll host rounds sources := by
  induction sources generalizing session with
  | nil => rfl
  | cons source sources ih =>
    unfold runAll
    rw [run_eq fun run hbegin => hshows run (.first hbegin)]
    split
    · rfl
    · rename_i report after hrun
      rw [ih fun run hbegins => hshows run (.later hrun hbegins)]

/-- Programs learn of the environment only what names refer to that they look up. If the clock shows
the same on two hosts, and names refer to the same on both that are looked up in the runs on the
first, where commands are allowed at all, then texts that are run one after another come to the same
on both, in any number of rounds, as far as they end. A run that does not end comes to the same code
on both, in states in which the same has been printed. -/
theorem depends_on_names_looked_up (hclock : host.clock = host'.clock)
    (hagree : session.config.allowHost = true → ∀ run name, session.Begins host sources run →
      run.LooksUp name → host.environment name = host'.environment name) :
    (∀ before, before <+: sources → ∀ rounds,
      session.runAll host' rounds before = session.runAll host rounds before) ∧
    ∀ run, session.Begins host sources run →
      session.Begins host' sources (run.on host') ∧
        ∀ made, (run.on host').Comes made ↔ run.Comes made := by
  have hshows : ∀ run, session.Begins host sources run → run.Shows host' := by
    intro run hbegins
    obtain ⟨hconfig, hhost⟩ := hbegins.setting
    refine ⟨hhost ▸ hclock, fun hallowed name hname => ?_⟩
    rw [hhost]
    rw [hconfig] at hallowed
    exact hagree hallowed run name hbegins hname
  refine ⟨fun before hbefore rounds => ?_, fun run hbegins => ?_⟩
  · exact runAll_eq (fun run hbegins => hshows run (hbegins.extend hbefore)) rounds
  · exact ⟨hbegins.on hshows, fun made => (hshows run hbegins).comes_iff⟩

/-- A program that prints one variable does not learn of any other. -/
theorem depends_on_names_looked_up_home :
    ∃ host host' : Host, host.environment "PATH" ≠ host'.environment "PATH" ∧
      (start ⟨true, 10000, true⟩).runAll host' 50 ["print host(\"env HOME\");"] =
        (start ⟨true, 10000, true⟩).runAll host 50 ["print host(\"env HOME\");"] ∧
      ((start ⟨true, 10000, true⟩).runAll host 50 ["print host(\"env HOME\");"]).map Prod.fst =
        some [⟨.ok (), "/root\n"⟩] := by
  let host : Host := ⟨fun name => if name = "HOME" then .text "/root" else .unset, fun _ => 0⟩
  let host' : Host :=
    ⟨fun name => if name = "HOME" then .text "/root" else .text "/bin", fun _ => 0⟩
  have hclock : host.clock = host'.clock := rfl
  have hagree : ∀ run name,
      (start ⟨true, 10000, true⟩).Begins host ["print host(\"env HOME\");"] run →
        run.LooksUp name → host.environment name = host'.environment name := by
    rintro run name hbegins ⟨keyword, e, state, value, reached, ⟨first, hfirst, hreaches⟩, hvalue,
      hname⟩
    cases hbegins with
    | later _ hbegins => cases hbegins
    | first hbegin =>
      have hprogram : ((start ⟨true, 10000, true⟩).begin? host "print host(\"env HOME\");").map
          Run.program = some [.print ⟨.print, "print", none, 1⟩
            (.host ⟨.host, "host", none, 1⟩ (.literal (.string "env HOME")))] := by rfl
      rw [hbegin] at hprogram
      have hprogram := Option.some.inj hprogram
      have hclosed : ∀ made : Code × State,
          CallTree.Reaches (fun call : Code × State => Code.execute run.setting call.1 call.2) first
            made →
          made.1 = .statement (.print ⟨.print, "print", none, 1⟩
              (.host ⟨.host, "host", none, 1⟩ (.literal (.string "env HOME")))) ∨
            made.1 = .expression (.host ⟨.host, "host", none, 1⟩ (.literal (.string "env HOME"))) ∨
              made.1 = .expression (.literal (.string "env HOME")) := by
        intro made hreaches
        induction hreaches with
        | refl =>
          obtain ⟨s, hs, hcode, -⟩ := Run.makes_steps hfirst
          rw [hprogram, List.mem_singleton] at hs
          exact .inl (hs ▸ hcode)
        | @tail call made _ hmakes ih =>
          obtain ⟨code, state⟩ := call
          have hmakes : Routine.Makes (Code.execute run.setting)
            (Code.execute run.setting code) state
            made := hmakes
          rcases ih with rfl | rfl | rfl
          · rcases Routine.makes_bind.1 hmakes with h | ⟨_, _, -, h⟩
            · cases Routine.makes_call.1 h
              exact .inr (.inl rfl)
            · exact absurd h CallTree.not_makes_done
          · rw [Code.execute_host] at hmakes
            rcases Routine.makes_bind.1 hmakes with h | ⟨_, _, -, h⟩
            · cases Routine.makes_call.1 h
              exact .inr (.inr rfl)
            · exact absurd h Code.not_makes_answered
          · exact absurd hmakes CallTree.not_makes_done
      rcases hclosed _ hreaches with h | h | h
      · cases h
      · cases h
        cases Routine.ends_pure.1 hvalue
        have hsought : Host.sought? "env HOME" = some "HOME" := by rfl
        obtain rfl := Option.some.inj (hsought.symm.trans hname)
        rfl
      · cases h
  exact ⟨host, host', by decide,
    (depends_on_names_looked_up hclock fun _ => hagree).1 _ (List.prefix_refl _) 50, rfl⟩

end Session

end Lox
