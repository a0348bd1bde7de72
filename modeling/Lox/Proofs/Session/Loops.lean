/-
# `for` loops in sessions

Whatever statement the parser makes of a `for` loop, wherever the loop stands and whenever the
statement is executed, it does what `Loop.run` says (`History.for_does_what_loop_says`), as long as
low bits are enough to tell accesses apart (`History.for_fails_without_room`). With the resolver,
the loop said in words knows other depths of its accesses than the statement that the parser makes
of the loop, because there is no block around its body and its increment; `Loop.sites` says where
its accesses stand.
-/

import Lox.Proofs.Execution.Loop
import Lox.Proofs.Grammar.Completeness
import Lox.Proofs.Grammar.Progress
import Lox.Proofs.Grammar.Renamed
import Lox.Proofs.Scope.Standing
import Lox.Proofs.Session.Nesting
import Lox.Proofs.Session.Spending

namespace Lox

/-- Statements are not in an initializer. -/
theorem Lies.initializes_eq_none {program : List Stmt} {p : Place} {c : Code}
    (h : Lies program p c) (hstatement : c.isStatement = true) : p.initializes = none := by
  have hall : ∀ at' : Place × Code, Relation.ReflTransGen
      (fun outer inner : Place × Code => Part outer.1 outer.2 inner.1 inner.2)
      (.top, .body program) at' → at'.2.isStatement = true → at'.1.initializes = none := by
    intro at' hreach
    induction hreach with
    | refl => exact fun _ => rfl
    | tail _ hpart ih => exact hpart.initializes_eq_none ih
  exact hall (p, c) h hstatement

namespace Loop

/-- A loop with every access numbered zero. -/
def unnumbered (loop : Loop) : Loop where
  first := loop.first.map Stmt.unnumbered
  condition := loop.condition.map Expr.unnumbered
  increment := loop.increment.map Expr.unnumbered
  body := loop.body.unnumbered

/-- Some tokens are a `for` loop with these parts. -/
inductive Written : List Token → Loop → Prop
  | for {keyword opening semicolon closing : Token} {us vs ws xs : List Token}
      {first : Option Stmt} {condition increment : Option Expr} {body : Stmt} {dangling : Bool}
      (hkeyword : keyword.kind = .for) (hopening : opening.kind = .leftParen)
      (hfirst : Grammar.Derives .initializer us first)
      (hcondition : Grammar.Derives .optional vs condition)
      (hsemicolon : semicolon.kind = .semicolon)
      (hincrement : Grammar.Derives .optional ws increment)
      (hclosing : closing.kind = .rightParen)
      (hbody : Grammar.Derives (.statement dangling) xs body) :
      Written (keyword :: opening :: (us ++ (vs ++ semicolon :: (ws ++ closing :: xs))))
        ⟨first, condition, increment, body⟩

/-- The grammar derives such tokens, with the statement that the loop is read as. -/
theorem Written.derives {tokens : List Token} {loop : Loop} (h : Written tokens loop) :
    ∃ dangling, Grammar.Derives (.statement dangling) tokens loop.tree := by
  cases h with
  | «for» hkeyword hopening hfirst hcondition hsemicolon hincrement hclosing hbody =>
    exact ⟨_, .for hkeyword hopening hfirst hcondition hsemicolon hincrement hclosing hbody⟩

end Loop

/-! ## What the parser makes of loops -/

/-- In reading a program out of some tokens, the parser comes to a `for` loop, takes some of the
tokens for it and makes a statement of them. -/
def Program.ReadsFor (tokens : List Token) (nextId : AccessId) (taken : List Token) (s : Stmt) :
    Prop :=
  ∃ place reached : Cursor, ComesToRead tokens nextId (.statement, place) ∧
    place.peek.1.kind = .for ∧
    Routine.Ends (Phrase.read ()) (Phrase.read () .statement) place (.ok s, reached) ∧
    taken = ((closed tokens).take reached.current).drop place.current

/-- A statement that begins with `for` is derived as a loop. -/
theorem Grammar.Derives.exists_written {ts : List Token} {tree : Stmt} {dangling : Bool}
    (h : Derives (.statement dangling) ts tree) {keyword : Token} (hkeyword : keyword.kind = .for)
    (hhead : ts.head? = some keyword) : ∃ parts, Loop.Written ts parts := by
  cases h with
  | «for» hfor hopening hfirst hcondition hsemicolon hincrement hclosing hbody =>
    exact ⟨_, .for hfor hopening hfirst hcondition hsemicolon hincrement hclosing hbody⟩
  | print hkind | ifThen hkind | ifElse hkind | «while» hkind | «return» hkind | block hkind =>
    obtain rfl := Option.some.inj hhead
    rw [hkeyword] at hkind
    cases hkind
  | expression hvalue =>
    obtain ⟨first, us, rfl, hfirst⟩ := hvalue.starts
    obtain rfl := Option.some.inj hhead
    rw [hkeyword] at hfirst
    exact absurd hfirst (by decide)

/-- Tokens are derived as one statement only. -/
theorem Grammar.Derives.statement_unique {ts : List Token} {tree tree' : Stmt}
    {dangling dangling' : Bool} (h : Derives (.statement dangling) ts tree)
    (h' : Derives (.statement dangling') ts tree') : tree = tree' := by
  obtain ⟨program, next, hprogram, hunnumbered⟩ :=
    Program.exists_ofTokens_append (.moreDeclarations (.statement h) .noDeclarations) 0 0
  obtain ⟨program', next', hprogram', hunnumbered'⟩ :=
    Program.exists_ofTokens_append (.moreDeclarations (.statement h') .noDeclarations) 0 0
  cases hprogram.symm.trans hprogram'
  exact (List.cons.inj (hunnumbered.symm.trans hunnumbered')).1

namespace Program

variable {tokens taken : List Token} {nextId : AccessId} {s : Stmt}

/-- What a reader has taken is what a cursor has moved past. -/
theorem drop_take_closed {place reached : Cursor} {reader reader' : Reader} {ts : List Token}
    (h : place.Shows (closed tokens).toArray (opened tokens) reader)
    (h' : reached.Shows (closed tokens).toArray (opened tokens) reader')
    (hts : reader.rest = ts ++ reader'.rest) :
    ((closed tokens).take reached.current).drop place.current = ts := by
  obtain ⟨later, hlater⟩ := (closesBehind tokens).isPrefix
  have hclosed : closed tokens = opened tokens ++ ([closing tokens] ++ later) :=
    hlater.symm.trans (List.append_assoc _ _ _)
  have hlength := congrArg List.length hts
  rw [h.rest, h'.rest, List.length_append, List.length_drop, List.length_drop] at hlength
  have hle := h.le
  have hle' := h'.le
  rw [hclosed, List.take_append_of_le_length hle', List.drop_take, ← h.rest, hts]
  exact List.take_left' (by omega)

/-- What the parser takes for a loop is written as one, and it makes the statement of it that it
should. -/
theorem ReadsFor.written (h : ReadsFor tokens nextId taken s) :
    (∃ parts, Loop.Written taken parts) ∧
      ∀ parts, Loop.Written taken parts → s.unnumbered = parts.tree := by
  obtain ⟨place, reached, hcomes, hfor, hends, rfl⟩ := h
  have hcloses := closesBehind tokens
  have hshows := Phrase.shows_of_comes hcloses (shows_start tokens nextId) hcomes
  obtain ⟨result, reached', reader, hends', hread, hreached⟩ :=
    Phrase.exists_ends_alongside hcloses hshows .statement
  cases hends.unique hends'
  obtain ⟨ts, hts, dangling, hderives, -⟩ := Phrase.derived_of_read (kind_closing tokens) hread
  rw [drop_take_closed hshows hreached hts]
  refine ⟨?_, fun parts hwritten => ?_⟩
  · obtain ⟨keyword, us, rfl, -⟩ := hderives.starts
    rw [hshows.peek_eq hcloses, hts] at hfor
    exact hderives.exists_written hfor rfl
  · obtain ⟨dangling', hderives'⟩ := hwritten.derives
    exact hderives.statement_unique hderives'

end Program

namespace Loop

/-- A loop as it can be written: its initializer is one, and its body is no declaration. -/
structure Sensible (loop : Loop) : Prop where
  plain : ∀ first ∈ loop.first, Plain first
  declared : loop.body.declared = []

theorem plain_of_derives {tokens : List Token} {initializer : Option Stmt}
    (h : Grammar.Derives .initializer tokens initializer) : ∀ first ∈ initializer, Plain first := by
  cases h with
  | noInitializer => exact nofun
  | variableInitializer _ h =>
    rintro _ ⟨⟩
    cases h <;> trivial
  | expressionInitializer =>
    rintro _ ⟨⟩
    trivial

theorem plain_of_unnumbered {first : Stmt} (h : Plain first.unnumbered) : Plain first := by
  cases first with
  | expression | var => trivial
  | «return» keyword value => cases value <;> exact h.elim
  | _ => exact h.elim

theorem Written.sensible {tokens : List Token} {loop : Loop} (h : Written tokens loop.unnumbered) :
    loop.Sensible := by
  obtain ⟨first, condition, increment, body⟩ := loop
  cases h with
  | «for» hkeyword hopening hfirst hcondition hsemicolon hincrement hclosing hbody =>
    have hdeclared := hbody.wellFormed.1
    rw [Stmt.declared_unnumbered] at hdeclared
    refine ⟨fun s hs => ?_, hdeclared⟩
    exact plain_of_unnumbered (plain_of_derives hfirst _ (Option.mem_map_of_mem _ hs))

/-! ## Loops and trees -/

/-- Two loops that are the same but for the numbers of accesses. -/
structure Alike (loop loop' : Loop) : Prop where
  first : Option.Rel (Stmt.Alike AnyIds Eq) loop.first loop'.first
  condition : Option.Rel (Expr.Alike AnyIds Eq) loop.condition loop'.condition
  increment : Option.Rel (Expr.Alike AnyIds Eq) loop.increment loop'.increment
  body : loop.body.Alike AnyIds Eq loop'.body

theorem Alike.sensible {loop loop' : Loop} (h : loop.Alike loop') (h' : loop'.Sensible) :
    loop.Sensible := by
  obtain ⟨first, condition, increment, body⟩ := loop
  obtain ⟨first', condition', increment', body'⟩ := loop'
  obtain ⟨hfirst, -, -, hbody⟩ := h
  refine ⟨?_, (Stmt.declared_eq_of_alike hbody).trans h'.declared⟩
  cases hfirst with
  | none => exact nofun
  | @some first first' hfirst =>
    have hplain : Plain first' := h'.plain first' rfl
    rintro _ ⟨⟩
    cases hfirst with
    | expression | varNil | varValue => trivial
    | _ => exact hplain.elim

/-- Loops that are the same once every access is numbered zero are the same but for numbers. -/
theorem alike_of_unnumbered {loop loop' : Loop} (h : loop.unnumbered = loop'.unnumbered) :
    loop.Alike loop' := by
  obtain ⟨first, condition, increment, body⟩ := loop
  obtain ⟨first', condition', increment', body'⟩ := loop'
  obtain ⟨hfirst, hcondition, hincrement, hbody⟩ := Loop.mk.inj h
  have hoptional : ∀ {value value' : Option Expr},
      value.map Expr.unnumbered = value'.map Expr.unnumbered →
        Option.Rel (Expr.Alike AnyIds Eq) value value' := by
    rintro (_ | e) (_ | e') h
    · exact .none
    · cases h
    · cases h
    · exact .some (Expr.alike_of_unnumbered (Option.some.inj h))
  refine ⟨?_, hoptional hcondition, hoptional hincrement, Stmt.alike_of_unnumbered hbody⟩
  cases first with
  | none =>
    cases first' with
    | none => exact .none
    | some first' => cases hfirst
  | some first =>
    cases first' with
    | none => cases hfirst
    | some first' => exact .some (Stmt.alike_of_unnumbered (Option.some.inj hfirst))

private theorem exists_of_unnumbered_round {s body' : Stmt} {increment' : Option Expr}
    (h : s.unnumbered = Grammar.round body' increment') :
    ∃ body increment, s = Grammar.round body increment ∧ body.unnumbered = body' ∧
      increment.map Expr.unnumbered = increment' := by
  cases increment' with
  | none => exact ⟨s, none, rfl, h, rfl⟩
  | some increment' =>
    obtain ⟨inner, rfl, hinner⟩ := Stmt.exists_of_unnumbered_block h
    obtain ⟨body, rest, rfl, hbody, hrest⟩ := Stmt.exists_of_allUnnumbered_cons hinner
    obtain ⟨last, others, rfl, hlast, hothers⟩ := Stmt.exists_of_allUnnumbered_cons hrest
    obtain ⟨increment, rfl, hincrement⟩ := Stmt.exists_of_unnumbered_expression hlast
    obtain rfl := Stmt.eq_nil_of_allUnnumbered hothers
    exact ⟨body, some increment, rfl, hbody, congrArg some hincrement⟩

private theorem exists_of_unnumbered_while {s : Stmt} {parts : Loop}
    (h : s.unnumbered = tree { parts with first := none }) :
    ∃ condition increment body, s = tree ⟨none, condition, increment, body⟩ ∧
      condition.map Expr.unnumbered = parts.condition ∧
      increment.map Expr.unnumbered = parts.increment ∧ body.unnumbered = parts.body := by
  obtain ⟨_, condition', increment', body'⟩ := parts
  obtain ⟨condition, rounds, rfl, hcondition, hrounds⟩ := Stmt.exists_of_unnumbered_while h
  obtain ⟨body, increment, rfl, hbody, hincrement⟩ := exists_of_unnumbered_round hrounds
  cases condition' with
  | none =>
    obtain rfl := Expr.eq_literal_of_unnumbered hcondition
    exact ⟨none, increment, body, rfl, rfl, hincrement, hbody⟩
  | some condition' =>
    exact ⟨some condition, increment, body, rfl, congrArg some hcondition, hincrement, hbody⟩

/-- What is the statement that a loop is read as, once every access is numbered zero, is read from
the loop with other numbers. -/
theorem exists_of_unnumbered_tree {s : Stmt} {parts : Loop} (h : s.unnumbered = parts.tree) :
    ∃ loop, s = tree loop ∧ loop.unnumbered = parts := by
  obtain ⟨first', condition', increment', body'⟩ := parts
  cases first' with
  | none =>
    obtain ⟨condition, increment, body, rfl, rfl, rfl, rfl⟩ :=
      @exists_of_unnumbered_while s ⟨none, condition', increment', body'⟩ h
    exact ⟨⟨none, condition, increment, body⟩, rfl, rfl⟩
  | some first' =>
    obtain ⟨inner, rfl, hinner⟩ := Stmt.exists_of_unnumbered_block h
    obtain ⟨first, rest, rfl, rfl, hrest⟩ := Stmt.exists_of_allUnnumbered_cons hinner
    obtain ⟨rounds, others, rfl, hrounds, hothers⟩ := Stmt.exists_of_allUnnumbered_cons hrest
    obtain rfl := Stmt.eq_nil_of_allUnnumbered hothers
    obtain ⟨condition, increment, body, rfl, rfl, rfl, rfl⟩ :=
      @exists_of_unnumbered_while rounds ⟨none, condition', increment', body'⟩ hrounds
    exact ⟨⟨some first, condition, increment, body⟩, rfl, rfl⟩

/-- A loop that is written somewhere can be numbered anew, with numbers that are not in use. -/
theorem Written.exists_numbered {tokens : List Token} {parts : Loop} (h : Written tokens parts)
    (nextId : AccessId) :
    ∃ (loop : Loop) (next : AccessId), loop.unnumbered = parts ∧
      Fresh nextId loop.tree.ids next := by
  obtain ⟨dangling, hderives⟩ := h.derives
  obtain ⟨program, next, hprogram, hunnumbered⟩ := Program.exists_ofTokens_append
    (.moreDeclarations (.statement hderives) .noDeclarations) 0 nextId
  obtain ⟨s, rest, rfl, hs, hrest⟩ := Stmt.exists_of_allUnnumbered_cons hunnumbered
  obtain rfl := Stmt.eq_nil_of_allUnnumbered hrest
  obtain ⟨loop, rfl, hloop⟩ := exists_of_unnumbered_tree hs
  have hfresh := Program.fresh_of_ofTokens hprogram
  rw [Stmt.allIds, Stmt.allIds, List.append_nil] at hfresh
  exact ⟨loop, next, hloop, hfresh⟩

/-! ## Where the accesses of a loop stand -/

/-- The sites of the rounds of a loop: there is no scope around body and increment. -/
def roundSites (p : Place) (loop : Loop) : List Site :=
  loop.condition.elim [] (Expr.sites p) ++ loop.body.sites p ++
    loop.increment.elim [] (Expr.sites p)

/-- The sites of a loop. With an initializer it has one scope of its own. -/
def sites (p : Place) (loop : Loop) : List Site :=
  match loop.first with
  | none => loop.roundSites p
  | some first =>
    first.sites (p.enter [first]) ++ loop.roundSites ((p.enter [first]).declaring first.declared)

/-- The accesses of a loop are those of the statement that it is read as. -/
theorem ids_sites (p : Place) (loop : Loop) :
    (loop.sites p).filterMap Site.id? = loop.tree.ids := by
  obtain ⟨first, condition, increment, body⟩ := loop
  cases first <;> cases condition <;> cases increment <;>
    simp [sites, roundSites, tree, Grammar.loop, Grammar.round, Stmt.ids, Stmt.allIds, Expr.ids,
      Stmt.ids_sites, Expr.ids_sites]

section Nested

variable {setting setting' : Setting} (hconfig : setting.config = setting'.config)
  {marks : List Bool} {p p' : Place} (hp : p.Thinned marks p') {loop loop' : Loop}
  (halike : loop.Alike loop') (hsensible : loop.Sensible)
include hconfig hp halike hsensible

theorem Alike.nested_rounds (hwf : (tree { loop with first := none }).WellFormed)
    (hinitializes : p.initializes = none)
    (hknown : AccessesKnown setting.Knows (Stmt.sites p (tree { loop with first := none })))
    (hknown' : AccessesKnown setting'.Knows (loop'.roundSites p')) :
    loop.RoundsRecast (setting.nesting setting') marks loop' := by
  obtain ⟨-, hcondition, hincrement, hbody⟩ := halike
  obtain ⟨-, hdeclared⟩ := hsensible
  obtain ⟨_, condition, increment, body⟩ := loop
  obtain ⟨_, condition', increment', body'⟩ := loop'
  dsimp only at hdeclared
  obtain ⟨hcond, hround⟩ := known_append hknown
  obtain ⟨hknown', hinc'⟩ := known_append hknown'
  obtain ⟨hcond', hbody'⟩ := known_append hknown'
  have hcondition' : Option.Rel (Expr.Recast (setting.nesting setting') marks) condition
      condition' := by
    cases hcondition with
    | none => exact .none
    | some hcondition => exact .some (hcondition.nested hconfig hp hcond hcond')
  cases hincrement with
  | none =>
    exact ⟨hcondition', .none,
      hbody.nested hconfig hp hwf.2.2 (fun _ => hdeclared) hround hbody'⟩
  | @some increment increment' hincrement =>
    have hinner : (p.enter [body, .expression increment]).Thinned (true :: marks) p' := by
      have hnone : Stmt.allDeclared [body, .expression increment] = [] :=
        congrArg (· ++ []) hdeclared
      refine ⟨?_, hinitializes.symm.trans hp.initializes, fun _ => rfl⟩
      unfold Place.enter
      rw [hnone]
      exact .missing hp.scopes
    obtain ⟨hs, hrest⟩ := known_append hround
    rw [hdeclared, Place.declaring_nil] at hrest
    exact ⟨hcondition', .some (hincrement.nested hconfig hinner (known_append hrest).1 hinc'),
      hbody.nested hconfig hinner hwf.2.2.1 (fun _ => hdeclared) hs hbody'⟩

/-- Where each setting knows the depths of the accesses, a loop said in words is the loop as it is
read recast. -/
theorem Alike.nested (hwf : loop.tree.WellFormed) (hinitializes : p.initializes = none)
    (hknown : AccessesKnown setting.Knows (loop.tree.sites p))
    (hknown' : AccessesKnown setting'.Knows (loop'.sites p')) :
    loop.Recast (setting.nesting setting') marks loop' := by
  obtain ⟨first, condition, increment, body⟩ := loop
  obtain ⟨first', condition', increment', body'⟩ := loop'
  cases halike.first with
  | none => exact ⟨.none, halike.nested_rounds hconfig hp hsensible hwf hinitializes hknown hknown'⟩
  | @some first first' hfirst =>
    let rounds : Stmt := tree ⟨none, condition, increment, body⟩
    have hdeclared : Stmt.allDeclared [first, rounds] = Stmt.allDeclared [first'] :=
      congrArg (· ++ []) (Stmt.declared_eq_of_alike hfirst)
    have hinner := hp.enter hdeclared
    have hbehind : Place.Thinned (false :: marks)
      ((p.enter [first, rounds]).declaring first.declared)
        ((p'.enter [first']).declaring first'.declared) := by
      rw [← Stmt.declared_eq_of_alike hfirst]
      exact hinner.declaring fun hmiss => absurd hmiss (head?_false_cons_ne _)
    obtain ⟨hs, hrest⟩ := known_append hknown
    obtain ⟨hs', hrounds'⟩ := known_append hknown'
    refine ⟨.some (hfirst.nested hconfig hinner hwf.1
      (fun hmiss => absurd hmiss (head?_false_cons_ne _)) hs hs'), ?_⟩
    exact halike.nested_rounds hconfig hbehind hsensible hwf.2.1
      ((p.enter [first, rounds]).initializes_declaring _) (known_append hrest).1 hrounds'

end Nested

/-- A setting for a loop said in words, where some runs have led to a place: it may know other
depths than the setting of the latest run, namely those of all programs so far and those of the
loop, each access at the place where it stands. -/
structure Resolved (loop : Loop) (runs : List Run) (place : Place) (setting setting' : Setting) :
    Prop where
  config : setting.config = setting'.config
  host : setting.host = setting'.host
  programs : setting'.KnowsAll runs
  loop : AccessesKnown setting'.Knows (loop.sites place)

/-- Two outcomes of what has begun in one state are the same, but for frames without variables that
are there only in the first. The frames from before are there in both, with the same variables. The
results are the same, the same has been printed, and the same values are everywhere, where a
function stands for the same function in the frames that are there. -/
def SameButFrames (setting setting' : Setting) (before : State)
    (outcome outcome' : Outcome State Fault Completion) : Prop :=
  ∃ flags, List.replicate before.store.frames.size false <+: flags ∧
    ResultAlike Eq (Completion.Recast (setting.nesting setting') flags) outcome.1 outcome'.1 ∧
      outcome.2.Recast (setting.nesting setting')
        ⟨flags, List.replicate before.environment.length false⟩ outcome'.2

end Loop

namespace History

variable {host : Host} {config : Config} {past : List Run} {session : Session} {source : String}
  {run : Run} {place : Place} {state : State}

/-- No access of a run loses its variable further out than where it stands. -/
theorem not_stray (h : History host config past session)
    (hbegin : session.begin? host source = some run) (hown : run.setting.KnowsAll (run :: past))
    {code : Code}
    (hmoment : Moment (run :: past) place code state) {fault : Fault} {reached : State}
    (hanswers : run.Answers code state (.error fault, reached)) : ¬ fault.Stray := by
  intro hstray
  obtain ⟨last, hends⟩ := hmoment.comes_latest.ends_error hanswers
  have hfails := Session.fails_runtime_iff.2 ⟨run, last, hbegin, hends⟩
  have hknown : ∀ run, session.begin? host source = some run →
      run.setting.KnowsAll (run :: past) := by
    intro run' hbegin'
    cases hbegin.symm.trans hbegin'
    exact hown
  rcases hstray with ⟨depth, name, hcause⟩ | ⟨depth, name, hcause⟩
  all_goals
    have hprecluded : fault.cause.Precluded := by
      rw [hcause]
      trivial
    rcases h.precluded_of_fails hknown hfails hprecluded with ⟨-, hother, -⟩ | ⟨-, hother⟩
    · cases hcause.symm.trans hother
    · cases hcause.symm.trans hother

/-- What a statement comes to in a run and what corresponds to it are the same but for frames, since
no access loses its variable further out. -/
theorem sameButFrames_of_outcomes (h : History host config past session)
    (hbegin : session.begin? host source = some run) (hown : run.setting.KnowsAll (run :: past))
    {s : Stmt}
    (hmoment : Moment (run :: past) place (.statement s) state) {setting : Setting}
    {outcome outcome' : Outcome State Fault Completion}
    (hanswers : run.Answers (.statement s) state outcome)
    (houtcome : (Code.recast (run.setting.nesting setting)).Outcomes
      ⟨List.replicate state.store.frames.size false,
        List.replicate state.environment.length false⟩
      (fun markings => Completion.Recast (run.setting.nesting setting) markings.frames) outcome
      outcome') :
    Loop.SameButFrames run.setting setting state outcome outcome' := by
  cases houtcome with
  | @ok later completion completion' reached reached' hle hvalues hstates =>
    obtain ⟨flags, scopes⟩ := later
    obtain ⟨hflags, rfl⟩ := hle
    exact ⟨flags, hflags, .ok hvalues, hstates⟩
  | @error later fault fault' reached reached' hle hproblems hstates =>
    obtain ⟨flags, scopes⟩ := later
    obtain ⟨hflags, rfl⟩ := hle
    have hnear : ¬ fault.Stray := h.not_stray hbegin hown hmoment hanswers
    exact ⟨flags, hflags, .error (hproblems.resolve_right hnear), hstates⟩

/-- There is a setting that knows the depths of a loop at a place, if its accesses are numbered anew
and low bits are enough for all numbers. -/
theorem exists_resolved (h : History host config past session)
    (hbegin : session.begin? host source = some run) {loop : Loop} {next : AccessId}
    (hfresh : Fresh (session.prepare source).2 loop.tree.ids next) (hroom : next < UInt32.size)
    (place : Place) : ∃ setting, loop.Resolved (run :: past) place run.setting setting := by
  have hbefore : session.HasRoom [source] :=
    Session.hasRoom_singleton_iff.2 (Nat.lt_of_le_of_lt hfresh.le hroom)
  rw [← loop.ids_sites place] at hfresh
  have hnew : ∀ id ∉ (loop.sites place).filterMap Site.id?,
      ((loop.sites place).foldl Site.record ∅)[id]? = none := fun id hid =>
    (Site.getElem?_foldl_record_of_not_mem hid).trans Std.TreeMap.getElem?_emptyc
  have hget : ∀ id < UInt32.size,
      (run.setting.depths.learn ((loop.sites place).foldl Site.record ∅))[id]? =
        ((loop.sites place).foldl Site.record ∅)[id]?.or run.setting.depths[id]? :=
    fun id hid => DepthTable.getElem?_learn (fun id hid => by
      by_contra hsize
      refine hid (hnew id fun hmem => hsize (Nat.lt_trans (hfresh.bounds id hmem).2 hroom))) hid
  refine ⟨{ run.setting with
    depths := run.setting.depths.learn ((loop.sites place).foldl Site.record ∅) }, rfl, rfl, ?_, ?_⟩
  · intro hresolver origin horigin site hsite id hid
    have hold := h.knowsAll hbefore hbegin hresolver origin horigin site hsite id hid
    rw [(h.setting_eq hbegin).1] at hresolver
    have hinformed := h.informed_of_begin? hresolver hbefore hbegin
    have hmem : id ∈ Stmt.allIds origin.program := by
      rw [← Program.ids_sites]
      exact List.mem_filterMap.2 ⟨site, hsite, hid⟩
    have hlt := hinformed.ids _ (List.mem_map_of_mem horigin) _ hmem
    refine (hget id (Nat.lt_trans hlt hbefore.prepare_lt)).trans ?_
    rw [hnew id fun hmem => absurd hlt (Nat.not_lt.2 (hfresh.bounds _ hmem).1), Option.none_or]
    exact hold
  · intro site hsite access haccess hresolver
    rw [(h.setting_eq hbegin).1] at hresolver
    have hinformed := h.informed_of_begin? hresolver hbefore hbegin
    have hid := Site.id?_of_access? haccess
    have hbounds := hfresh.bounds _ (List.mem_filterMap.2 ⟨site, hsite, hid⟩)
    have hlt := Nat.lt_trans hbounds.2 hroom
    have hnone : run.setting.depths[access.2.1]? = none := by
      by_contra hsome
      exact absurd (hinformed.known _ hlt hsome) (Nat.not_lt.2 hbounds.1)
    refine (hget _ hlt).trans ?_
    rw [hnone, Option.or_none, Site.getElem?_foldl_record hfresh.nodup hsite hid
      Std.TreeMap.getElem?_emptyc]
    exact Site.depth?_of_access? haccess

/-- A `for` loop does what it says, wherever it stands and whenever it is executed, in each mode.
Whatever tokens the parser takes for a `for` loop, in reading any program, they are the parts of a
loop. As long as low bits are enough for the numbers of all accesses, the statement that the parser
makes of them ends exactly if the loop said in words does: the initializer is executed once, in a
frame that all rounds share; then the condition is evaluated and, as long as it holds, the body is
executed, and the increment is evaluated if the body has ended normally. Both come to the same
result, print the same and leave the same variables in all frames from before; they differ only in
frames without variables, which blocks around body and increment open. With numbers of its own for
its accesses, there is a setting for the loop said in words in which they are resolved for their own
nesting, if low bits are enough for these numbers as well. -/
theorem for_does_what_loop_says (h : History host config past session)
    (hbegin : session.begin? host source = some run) (hroom : session.HasRoom [source])
    {tokens taken : List Token} {nextId : AccessId} {s : Stmt}
    (hread : Program.ReadsFor tokens nextId taken s)
    (hmoment : Moment (run :: past) place (.statement s) state) :
    (∃ parts, Loop.Written taken parts) ∧
    ∀ parts, Loop.Written taken parts →
      (∃ (loop : Loop) (next : AccessId), loop.unnumbered = parts ∧
        Fresh (session.prepare source).2 loop.tree.ids next ∧
          (next < UInt32.size →
            ∃ setting, loop.Resolved (run :: past) place run.setting setting)) ∧
      ∀ (loop : Loop) (setting : Setting), loop.unnumbered = parts →
        loop.Resolved (run :: past) place run.setting setting →
        (∀ outcome, run.Answers (.statement s) state outcome →
          ∃ outcome', loop.Ends setting state outcome' ∧
            Loop.SameButFrames run.setting setting state outcome outcome') ∧
        ∀ outcome', loop.Ends setting state outcome' →
          ∃ outcome, run.Answers (.statement s) state outcome ∧
            Loop.SameButFrames run.setting setting state outcome outcome' := by
  obtain ⟨hwritten, hs⟩ := hread.written
  refine ⟨hwritten, fun parts hwritten => ?_⟩
  obtain ⟨loop, next, hparts, hfresh⟩ := hwritten.exists_numbered (session.prepare source).2
  refine ⟨⟨loop, next, hparts, hfresh, fun hroom =>
    h.exists_resolved hbegin hfresh hroom place⟩, ?_⟩
  rintro loop setting rfl hresolved
  have hbegun := h.begun hbegin
  have hown := h.knowsAll hroom hbegin
  have hself := h.recast_self hbegin hown hresolved.config hresolved.programs hmoment
  obtain ⟨origin, horigin, hlies⟩ := hmoment.lies
  obtain ⟨read, rfl, hsame⟩ := Loop.exists_of_unnumbered_tree (hs _ hwritten)
  have halike := Loop.alike_of_unnumbered hsame
  have hsensible := halike.sensible hwritten.sensible
  have hplace : place.Thinned (List.replicate state.environment.length false) place :=
    .refl AllKept.replicate
      ((hbegun.sees hmoment).scopes_length_le.trans_eq List.length_replicate.symm)
  have hrecast := halike.nested hresolved.config hplace hsensible
    (hbegun.wellFormed_code hmoment).1 (hlies.initializes_eq_none rfl)
    (hown.accesses horigin hlies) hresolved.loop
  have hsetting := Setting.recasts_nesting hresolved.config hresolved.host
  constructor
  · intro outcome hanswers
    obtain ⟨outcome', hends, houtcome⟩ :=
      Loop.ends_of_ends_tree hsetting hsensible.plain hrecast hself hanswers
    exact ⟨outcome', hends, h.sameButFrames_of_outcomes hbegin hown hmoment hanswers houtcome⟩
  · intro outcome' hends
    obtain ⟨outcome, hanswers, houtcome⟩ :=
      Loop.ends_tree_of_ends hsetting hsensible.plain hrecast hself hends
    exact ⟨outcome, hanswers, h.sameButFrames_of_outcomes hbegin hown hmoment hanswers houtcome⟩

end History

/-! ## A loop with one round -/

namespace Loop

/-- The tokens of `for (var i = true; i; i = false) print i;`, or of the same loop with another
variable printed. -/
def onceTokens (printed : String) : List Token :=
  [⟨.for, "for", none, 1⟩, ⟨.leftParen, "(", none, 1⟩, ⟨.var, "var", none, 1⟩, .identifier "i" 1,
    ⟨.equal, "=", none, 1⟩, ⟨.true, "true", none, 1⟩, ⟨.semicolon, ";", none, 1⟩,
    .identifier "i" 1, ⟨.semicolon, ";", none, 1⟩, .identifier "i" 1, ⟨.equal, "=", none, 1⟩,
    ⟨.false, "false", none, 1⟩, ⟨.rightParen, ")", none, 1⟩, ⟨.print, "print", none, 1⟩,
    .identifier printed 1, ⟨.semicolon, ";", none, 1⟩]

/-- The loop that they are. -/
def once (printed : String) : Loop where
  first := some (.var (.identifier "i" 1) (some (.literal (.bool true))))
  condition := some (.read 10 (.identifier "i" 1))
  increment := some (.assign 11 (.identifier "i" 1) (.literal (.bool false)))
  body := .print ⟨.print, "print", none, 1⟩ (.read 12 (.identifier printed 1))

/-- The statement that the parser makes of them, with numbers from `nextId` on. -/
def onceRead (nextId : AccessId) (printed : String) : Stmt :=
  .block [.var (.identifier "i" 1) (some (.literal (.bool true))),
    .while (.read nextId (.identifier "i" 1))
      (.block [.print ⟨.print, "print", none, 1⟩ (.read (nextId + 3) (.identifier printed 1)),
        .expression (.assign (nextId + 2) (.identifier "i" 1) (.literal (.bool false)))])]

theorem written_once (printed : String) :
    Written (onceTokens printed) (once printed).unnumbered := by
  have hread (name : String) : Grammar.Derives (.expression .assignment) [.identifier name 1]
      (.read 0 (.identifier name 1)) := .of_call (.noCall (.read rfl))
  have htrue : Grammar.Derives (.expression .assignment) [⟨.true, "true", none, 1⟩]
      (.literal (.bool true)) := .of_call (.noCall (.trueLiteral rfl))
  have hfalse : Grammar.Derives (.expression .assignment) [⟨.false, "false", none, 1⟩]
      (.literal (.bool false)) := .of_call (.noCall (.falseLiteral rfl))
  have hvar : Grammar.Derives .varDecl [.identifier "i" 1, ⟨.equal, "=", none, 1⟩,
      ⟨.true, "true", none, 1⟩, ⟨.semicolon, ";", none, 1⟩]
      (.var (.identifier "i" 1) (some (.literal (.bool true)))) := .initialized rfl rfl htrue rfl
  have hincrement : Grammar.Derives (.expression .assignment) [.identifier "i" 1,
      ⟨.equal, "=", none, 1⟩, ⟨.false, "false", none, 1⟩]
      (.assign 0 (.identifier "i" 1) (.literal (.bool false))) := .assign rfl rfl hfalse
  have hbody : Grammar.Derives (.statement false) [⟨.print, "print", none, 1⟩,
      .identifier printed 1, ⟨.semicolon, ";", none, 1⟩]
        (.print ⟨.print, "print", none, 1⟩ (.read 0 (.identifier printed 1))) :=
    .print rfl (hread printed) rfl
  exact @Written.for ⟨.for, "for", none, 1⟩ ⟨.leftParen, "(", none, 1⟩
    ⟨.semicolon, ";", none, 1⟩ ⟨.rightParen, ")", none, 1⟩ _ _ _ _ _ _ _ _ _ rfl rfl
    (@Grammar.Derives.variableInitializer ⟨.var, "var", none, 1⟩ _ _ rfl hvar)
    (.present (hread "i")) rfl (.present hincrement) rfl hbody

/-- The parser comes to read the loop where the program starts, and takes all tokens for it. -/
theorem readsFor_once (nextId : AccessId) (printed : String) :
    Program.ReadsFor (onceTokens printed ++ [.endOfInput 1]) nextId (onceTokens printed)
      (onceRead nextId printed) := by
  let place := Program.cursor (onceTokens printed ++ [.endOfInput 1]) nextId
  have hdeclaration : CallTree.Makes
      (fun call : Phrase × Cursor => Phrase.read () call.1 call.2)
      (Phrase.read () .program place) (.declaration, place) := .call
  have hstatement : CallTree.Makes
      (fun call : Phrase × Cursor => Phrase.read () call.1 call.2)
      (Phrase.read () .declaration place) (.statement, place) := .jump
  have hends : Routine.Ends (Phrase.read (Token.endOfInput 1))
      (Phrase.read (Token.endOfInput 1) .statement) (Reader.mk (onceTokens printed) nextId)
      (.ok (onceRead nextId printed), Reader.mk [] (nextId + 4)) :=
    Routine.exists_run_iff_ends.1 ⟨150, rfl⟩
  have hshows := Program.shows_start (onceTokens printed ++ [.endOfInput 1]) nextId
  obtain ⟨_, reached, _, hread, hends', hreached⟩ :=
    Phrase.exists_ends_alongside (Program.closesBehind _) hshows .statement
  cases hends.unique hends'
  exact ⟨place, reached, hdeclaration.comes.tail hstatement, rfl, hread,
    (Program.drop_take_closed hshows hreached rfl).symm⟩

theorem ofTokens_once (nextId : AccessId) (printed : String) :
    Program.ofTokens (onceTokens printed ++ [.endOfInput 1]) nextId =
      (.ok [onceRead nextId printed], nextId + 4) :=
  @Program.ofTokens_eq_of_run _ [] _ _ [onceRead nextId printed] 150 rfl

end Loop

/-- The loop prints once, read as a statement and said in words. -/
theorem History.for_does_what_loop_says_once :
    Token.scan "for (var i = true; i; i = false) print i;" =
        .ok (Loop.onceTokens "i" ++ [.endOfInput 1]) ∧
      Program.ReadsFor (Loop.onceTokens "i" ++ [.endOfInput 1]) 0 (Loop.onceTokens "i")
        (Loop.onceRead 0 "i") ∧
      ∃ run setting, (Session.start .default).begin? ⟨fun _ => .unset, fun _ => 0⟩
          "for (var i = true; i; i = false) print i;" = some run ∧
        Moment [run] .top (.statement (Loop.onceRead 0 "i")) run.state ∧
        (Loop.once "i").Resolved [run] .top run.setting setting ∧
        ∃ outcome outcome' : Outcome State Fault Completion,
          run.Answers (.statement (Loop.onceRead 0 "i")) run.state outcome ∧
          (Loop.once "i").Ends setting run.state outcome' ∧
          outcome.2.output = "true\n" ∧ outcome'.2.output = "true\n" := by
  let host : Host := ⟨fun _ => .unset, fun _ => 0⟩
  let depths : BindingDepths := ((∅ : BindingDepths).insert 0 0).insert 3 1 |>.insert 2 1
  let known : BindingDepths := ((∅ : BindingDepths).insert 10 0).insert 11 0 |>.insert 12 0
  let session : Session := .start .default
  let run : Run := ⟨⟨.default, session.depths.learn depths, host⟩, [Loop.onceRead 0 "i"], .initial⟩
  let setting : Setting := { run.setting with depths := run.setting.depths.learn known }
  have hbegin : session.begin? host "for (var i = true; i; i = false) print i;" = some run :=
    Session.begin?_eq_some host rfl (Loop.ofTokens_once 0 "i") rfl
  have hresolved : (Loop.once "i").Resolved [run] .top run.setting setting := by
    refine ⟨rfl, rfl, fun _ origin horigin => ?_, ?_⟩
    · obtain rfl := List.mem_singleton.1 horigin
      exact List.forall_mem_cons.2 ⟨by rintro _ ⟨⟩; rfl, List.forall_mem_cons.2
        ⟨by rintro _ ⟨⟩; rfl, List.forall_mem_singleton.2 (by rintro _ ⟨⟩; rfl)⟩⟩
    · exact List.forall_mem_cons.2 ⟨by rintro _ ⟨⟩ _; rfl, List.forall_mem_cons.2
        ⟨by rintro _ ⟨⟩ _; rfl, List.forall_mem_singleton.2 (by rintro _ ⟨⟩ _; rfl)⟩⟩
  have hmakes : Routine.Makes (Code.execute run.setting) (Program.steps run.program) run.state
      (.statement (Loop.onceRead 0 "i"), run.state) := .call
  have hmoment : Moment [run] .top (.statement (Loop.onceRead 0 "i")) run.state := .program hmakes
  obtain ⟨outcome, hanswers, houtput⟩ : ∃ outcome,
      run.Answers (.statement (Loop.onceRead 0 "i")) run.state outcome ∧
        outcome.2.output = "true\n" :=
    ⟨_, ⟨20, rfl⟩, rfl⟩
  have hloop := History.start.for_does_what_loop_says hbegin (by decide)
    (Loop.readsFor_once 0 "i") hmoment
  obtain ⟨outcome', hends, flags, -, -, hstates⟩ :=
    ((hloop.2 _ (Loop.written_once "i")).2 (Loop.once "i") setting rfl hresolved).1 outcome hanswers
  exact ⟨rfl, Loop.readsFor_once 0 "i", run, setting, hbegin, hmoment, hresolved, outcome, outcome',
    hanswers, hends, houtput, hstates.output ▸ houtput⟩

namespace Loop

/-- A session in which the low bits are used up, and a depth is known for the access number three:
that of a variable in a block. -/
def spent : Session where
  config := .default
  nextId := UInt32.size
  depths := (∅ : DepthTable).learn ((∅ : BindingDepths).insert 3 0)
  state :=
    let declared := State.initial.define "x" (.number 1)
    { (declared.enter Store.globals).define "z" .nil with environment := Store.globals }

/-- The run of a loop in this session. -/
def spentRun : Run where
  setting :=
    { config := .default
      depths := spent.depths.learn
        (((∅ : BindingDepths).insert UInt32.size 0).insert (UInt32.size + 2) 1)
      host := ⟨fun _ => .unset, fun _ => 0⟩ }
  program := [onceRead UInt32.size "x"]
  state := spent.state

/-- A setting in which the loop said in words is resolved for its own nesting. -/
def spentKnown : Setting :=
  { spentRun.setting with
    depths := spentRun.setting.depths.learn (((∅ : BindingDepths).insert 10 0).insert 11 0) }

end Loop

/-- Where low bits are not enough, a loop may not do what it says. The number of the access in the
body has the low bits of one that a depth is known for, so that the global variable is looked for in
the block around body and increment. -/
theorem History.for_fails_without_room :
    Token.scan "for (var i = true; i; i = false) print x;" =
        .ok (Loop.onceTokens "x" ++ [.endOfInput 1]) ∧
      Program.ReadsFor (Loop.onceTokens "x" ++ [.endOfInput 1]) UInt32.size (Loop.onceTokens "x")
        (Loop.onceRead UInt32.size "x") ∧
      Loop.Written (Loop.onceTokens "x") (Loop.once "x").unnumbered ∧
      Loop.spent.begin? ⟨fun _ => .unset, fun _ => 0⟩ "for (var i = true; i; i = false) print x;" =
        some Loop.spentRun ∧
      (∃ past, History ⟨fun _ => .unset, fun _ => 0⟩ .default past Loop.spent ∧
        Moment (Loop.spentRun :: past) .top (.statement (Loop.onceRead UInt32.size "x"))
          Loop.spentRun.state) ∧
      AccessesKnown Loop.spentKnown.Knows ((Loop.once "x").sites .top) ∧
      ∃ reached reached' : State,
        Loop.spentRun.Answers (.statement (Loop.onceRead UInt32.size "x")) Loop.spentRun.state
          (.error ⟨.identifier "x" 1, .internal (.missingVariable 0 "x")⟩, reached) ∧
        (Loop.once "x").Ends Loop.spentKnown Loop.spentRun.state (.ok .normal, reached') ∧
        reached'.output = "1\n" := by
  have hfirst : (Session.start .default).run ⟨fun _ => .unset, fun _ => 0⟩ 50
      "var x = 1; { x; x; x; var z; z; }" = some (⟨.ok (), ""⟩, { Loop.spent with nextId := 4 }) :=
    rfl
  have hbegin : Loop.spent.begin? ⟨fun _ => .unset, fun _ => 0⟩
      "for (var i = true; i; i = false) print x;" = some Loop.spentRun :=
    Session.begin?_eq_some _ rfl (Loop.ofTokens_once UInt32.size "x") rfl
  have hmakes : Routine.Makes (Code.execute Loop.spentRun.setting)
      (Program.steps Loop.spentRun.program) Loop.spentRun.state
      (.statement (Loop.onceRead UInt32.size "x"), Loop.spentRun.state) := .call
  have hknown : AccessesKnown Loop.spentKnown.Knows ((Loop.once "x").sites .top) :=
    List.forall_mem_cons.2 ⟨by rintro _ ⟨⟩ _; rfl, List.forall_mem_cons.2
      ⟨by rintro _ ⟨⟩ _; rfl, List.forall_mem_singleton.2 (by rintro _ ⟨⟩ _; rfl)⟩⟩
  obtain ⟨past, hpast⟩ := (History.start.run hfirst).exists_spent (UInt32.size - 4)
  refine ⟨rfl, Loop.readsFor_once _ _, Loop.written_once _, hbegin, ⟨past, hpast, .program hmakes⟩,
    hknown, _, _, ⟨20, rfl⟩, ⟨3, 20, rfl⟩, rfl⟩

end Lox
