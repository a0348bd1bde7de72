/-
# Trees in which a local variable is renamed

A name can be written in place of another in some of the local scopes of a program: where one of
these scopes declares it, and where an access refers to such a declaration. Which scopes these are
is said by a mark for each scope around, the innermost first; outside every marked scope all names
stay as they are. `Stmt.Renamed` relates two trees that differ in this way, with what becomes of the
names as a parameter, a `Renaming`. Functions keep their names, also in marked scopes.

The numbers that accesses carry are no matter of spelling. `Renaming.static` says what becomes of
the name of an access by the place where it stands and by nothing else, so it can be told from the
program as it is written.
-/

import Lox.Proofs.Scope.Sites
import Lox.Proofs.Token.Renamed
import Lox.Proofs.Tree.Alike

namespace Lox

/-! ## Names -/

/-- How a name is written in a scope, which may be marked or not. -/
def Respelling.spell (ρ : Respelling) (mark : Bool) (name : String) : String :=
  if mark = true ∧ name = ρ.old then ρ.new else name

/-- A name as it is written in a scope. -/
def Token.respelled (ρ : Respelling) (mark : Bool) (name : Token) : Token :=
  { name with lexeme := ρ.spell mark name.lexeme }

/-- A name and how it is written in a scope. In marked scopes, the new name is no other variable. -/
structure Token.Renamed (ρ : Respelling) (mark : Bool) (name name' : Token) : Prop where
  fresh : mark = true → name.lexeme ≠ ρ.new
  eq : name' = name.respelled ρ mark

/-- Whether the scope at some depth is marked. What is at no depth is in no local scope. -/
def markAt (marks : List Bool) (depth : Option Nat) : Bool :=
  (depth.bind fun depth => marks[depth]?).getD false

namespace Respelling

variable (ρ : Respelling) {mark : Bool} {name name' : String}

@[simp]
theorem spell_false (name : String) : ρ.spell false name = name := if_neg fun h => nomatch h.1

/-- Where the new name is no other variable, different names stay different. -/
theorem eq_of_spell_eq {mark' : Bool} (hname : mark' = true → name ≠ ρ.new)
    (hname' : mark = true → name' ≠ ρ.new) (h : ρ.spell mark name = ρ.spell mark' name') :
    name = name' := by
  unfold spell at h
  split at h
  · rename_i hold
    split at h
    · rename_i hold'
      exact hold.2.trans hold'.2.symm
    · exact absurd h.symm (hname' hold.1)
  · split at h
    · rename_i hold'
      exact absurd h (hname hold'.1)
    · exact h

end Respelling

namespace Token

variable {ρ : Respelling} {name : Token}

@[simp]
theorem respelled_false : name.respelled ρ false = name := by
  unfold respelled
  rw [ρ.spell_false]

theorem Renamed.lexeme {name' : Token} {mark : Bool} (h : name.Renamed ρ mark name') :
    name'.lexeme = ρ.spell mark name.lexeme :=
  congrArg Token.lexeme h.eq

end Token

theorem markAt_zero (marks : List Bool) : markAt marks (some 0) = marks.headD false := by
  cases marks <;> rfl

theorem markAt_succ (marks : List Bool) (depth : Option Nat) :
    markAt marks (depth.map (· + 1)) = markAt marks.tail depth := by
  cases depth with
  | none => rfl
  | some depth => cases marks <;> rfl

theorem markAt_eq_false {marks : List Bool} (h : ∀ mark ∈ marks, mark = false)
    (depth : Option Nat) : markAt marks depth = false := by
  unfold markAt
  cases hmark : depth.bind fun depth => marks[depth]? with
  | none => rfl
  | some mark =>
    obtain ⟨depth, -, hget⟩ := Option.bind_eq_some_iff.1 hmark
    exact h mark (List.mem_of_getElem? hget)

/-! ## Trees -/

/-- Which names stand for each other in two trees. -/
structure Renaming where
  /-- Two accesses stand for each other at a place of the first tree, in scopes with these marks. -/
  accesses : Place → List Bool → AccessId → Token → AccessId → Token → Prop
  /-- Two declarations stand for each other in a scope with this mark. -/
  declares : Bool → Token → Token → Prop

section Trees

variable (r : Renaming)

mutual

/-- Two expressions that differ at most in the variables they access, at a place of the first and in
scopes with some marks. -/
inductive Expr.Renamed (p : Place) (marks : List Bool) : Expr → Expr → Prop
  | literal {value : Constant} : Expr.Renamed p marks (.literal value) (.literal value)
  | read {id id' : AccessId} {name name' : Token} (h : r.accesses p marks id name id' name') :
      Expr.Renamed p marks (.read id name) (.read id' name')
  | assign {id id' : AccessId} {name name' : Token} {value value' : Expr}
      (h : r.accesses p marks id name id' name') (hvalue : Expr.Renamed p marks value value') :
      Expr.Renamed p marks (.assign id name value) (.assign id' name' value')
  | unary {operator : Token} {operand operand' : Expr}
      (hoperand : Expr.Renamed p marks operand operand') :
      Expr.Renamed p marks (.unary operator operand) (.unary operator operand')
  | binary {left left' right right' : Expr} {operator : Token}
      (hleft : Expr.Renamed p marks left left') (hright : Expr.Renamed p marks right right') :
      Expr.Renamed p marks (.binary left operator right) (.binary left' operator right')
  | logical {left left' right right' : Expr} {operator : Token}
      (hleft : Expr.Renamed p marks left left') (hright : Expr.Renamed p marks right right') :
      Expr.Renamed p marks (.logical left operator right) (.logical left' operator right')
  | conditional {condition condition' whenTrue whenTrue' whenFalse whenFalse' : Expr}
      (hcondition : Expr.Renamed p marks condition condition')
      (hwhenTrue : Expr.Renamed p marks whenTrue whenTrue')
      (hwhenFalse : Expr.Renamed p marks whenFalse whenFalse') :
      Expr.Renamed p marks (.conditional condition whenTrue whenFalse)
        (.conditional condition' whenTrue' whenFalse')
  | call {callee callee' : Expr} {paren : Token} {arguments arguments' : List Expr}
      (hcallee : Expr.Renamed p marks callee callee')
      (harguments : Expr.AllRenamed p marks arguments arguments') :
      Expr.Renamed p marks (.call callee paren arguments) (.call callee' paren arguments')
  | group {inner inner' : Expr} (hinner : Expr.Renamed p marks inner inner') :
      Expr.Renamed p marks (.group inner) (.group inner')
  | host {keyword : Token} {code code' : Expr} (hcode : Expr.Renamed p marks code code') :
      Expr.Renamed p marks (.host keyword code) (.host keyword code')

/-- The same of expressions one by one. -/
inductive Expr.AllRenamed (p : Place) (marks : List Bool) : List Expr → List Expr → Prop
  | nil : Expr.AllRenamed p marks [] []
  | cons {e e' : Expr} {es es' : List Expr} (h : Expr.Renamed p marks e e')
      (hs : Expr.AllRenamed p marks es es') : Expr.AllRenamed p marks (e :: es) (e' :: es')

end

mutual

/-- Two statements that differ at most in the variables they access and in the names of variables
that they declare, at a place of the first and in scopes with some marks. -/
inductive Stmt.Renamed : Place → List Bool → Stmt → Stmt → Prop
  | block {p : Place} {marks : List Bool} {mark : Bool} {body body' : List Stmt}
      (hbody : Stmt.AllRenamed (p.enter body) (mark :: marks) body body') :
      Stmt.Renamed p marks (.block body) (.block body')
  | expression {p : Place} {marks : List Bool} {value value' : Expr}
      (hvalue : value.Renamed r p marks value') :
      Stmt.Renamed p marks (.expression value) (.expression value')
  | function {p : Place} {marks : List Bool} {mark : Bool} {name : Token}
      {parameters parameters' : List Token} {body body' : List Stmt}
      (hname : r.declares (marks.headD false) name name)
      (hparameters : List.Forall₂ (r.declares mark) parameters parameters')
      (hbody : Stmt.AllRenamed (p.enterFunction name parameters body) (mark :: marks) body body') :
      Stmt.Renamed p marks (.function name parameters body) (.function name parameters' body')
  | ifThen {p : Place} {marks : List Bool} {condition condition' : Expr} {whenTrue whenTrue' : Stmt}
      (hcondition : condition.Renamed r p marks condition')
      (hwhenTrue : Stmt.Renamed p marks whenTrue whenTrue') :
      Stmt.Renamed p marks (.ifThen condition whenTrue) (.ifThen condition' whenTrue')
  | ifElse {p : Place} {marks : List Bool} {condition condition' : Expr}
      {whenTrue whenTrue' whenFalse whenFalse' : Stmt}
      (hcondition : condition.Renamed r p marks condition')
      (hwhenTrue : Stmt.Renamed p marks whenTrue whenTrue')
      (hwhenFalse : Stmt.Renamed p marks whenFalse whenFalse') :
      Stmt.Renamed p marks (.ifElse condition whenTrue whenFalse)
        (.ifElse condition' whenTrue' whenFalse')
  | print {p : Place} {marks : List Bool} {keyword : Token} {value value' : Expr}
      (hvalue : value.Renamed r p marks value') :
      Stmt.Renamed p marks (.print keyword value) (.print keyword value')
  | returnNil {p : Place} {marks : List Bool} {keyword : Token} :
      Stmt.Renamed p marks (.return keyword none) (.return keyword none)
  | returnValue {p : Place} {marks : List Bool} {keyword : Token} {value value' : Expr}
      (hvalue : value.Renamed r p marks value') :
      Stmt.Renamed p marks (.return keyword (some value)) (.return keyword (some value'))
  | varNil {p : Place} {marks : List Bool} {name name' : Token}
      (hname : r.declares (marks.headD false) name name') :
      Stmt.Renamed p marks (.var name none) (.var name' none)
  | varValue {p : Place} {marks : List Bool} {name name' : Token} {value value' : Expr}
      (hname : r.declares (marks.headD false) name name')
      (hvalue : value.Renamed r (p.initializing name.lexeme) marks value') :
      Stmt.Renamed p marks (.var name (some value)) (.var name' (some value'))
  | while {p : Place} {marks : List Bool} {condition condition' : Expr} {body body' : Stmt}
      (hcondition : condition.Renamed r p marks condition')
      (hbody : Stmt.Renamed p marks body body') :
      Stmt.Renamed p marks (.while condition body) (.while condition' body')

/-- The same of statements one by one. -/
inductive Stmt.AllRenamed : Place → List Bool → List Stmt → List Stmt → Prop
  | nil {p : Place} {marks : List Bool} : Stmt.AllRenamed p marks [] []
  | cons {p : Place} {marks : List Bool} {s s' : Stmt} {ss ss' : List Stmt}
      (h : Stmt.Renamed p marks s s') (hs : Stmt.AllRenamed (p.declaring s.declared) marks ss ss') :
      Stmt.AllRenamed p marks (s :: ss) (s' :: ss')

end

end Trees

/-- The names that are declared are written as a respelling says. -/
def Renaming.Spells (ρ : Respelling) (r : Renaming) : Prop :=
  ∀ mark name name', r.declares mark name name' → name'.lexeme = ρ.spell mark name.lexeme

theorem Stmt.Renamed.declared_eq {ρ : Respelling} {r : Renaming} (hspells : r.Spells ρ) {p : Place}
    {marks : List Bool} {s s' : Stmt} (h : s.Renamed r p marks s') :
    s'.declared = s.declared.map (ρ.spell (marks.headD false)) := by
  cases h with
  | function hname _ _ | varNil hname | varValue hname _ =>
    exact congrArg ([·]) (hspells _ _ _ hname)
  | _ => rfl

theorem Stmt.AllRenamed.allDeclared_eq {ρ : Respelling} {r : Renaming} (hspells : r.Spells ρ)
    {p : Place} {marks : List Bool} {ss ss' : List Stmt} (h : AllRenamed r p marks ss ss') :
    allDeclared ss' = (allDeclared ss).map (ρ.spell (marks.headD false)) := by
  induction ss generalizing p ss' with
  | nil =>
    cases h
    rfl
  | cons s ss ih =>
    cases h with
    | cons h hs =>
      exact (congrArg₂ (· ++ ·) (h.declared_eq hspells) (ih hs)).trans List.map_append.symm

theorem Renaming.Spells.lexemes_eq {ρ : Respelling} {r : Renaming} (hspells : r.Spells ρ)
    {mark : Bool} {names names' : List Token} (h : List.Forall₂ (r.declares mark) names names') :
    names'.map Token.lexeme = (names.map Token.lexeme).map (ρ.spell mark) := by
  induction h with
  | nil => rfl
  | cons h _ ih => exact congrArg₂ List.cons (hspells _ _ _ h) ih

/-- A variable is renamed in some scopes of a program that does not mention the new name: where the
scopes declare it, and at the accesses whose place says that they refer to such a declaration. -/
def Renaming.static (ρ : Respelling) : Renaming where
  accesses p marks _ name _ name' :=
    name.lexeme ≠ ρ.new ∧ name' = name.respelled ρ (markAt marks (p.depthOf? name.lexeme))
  declares mark name name' := name.lexeme ≠ ρ.new ∧ name' = name.respelled ρ mark

theorem Renaming.spells_static (ρ : Respelling) : (static ρ).Spells ρ :=
  fun _ _ _ h => congrArg Token.lexeme h.2

/-- One program is another with a variable renamed in some of its local scopes, by a name that it
does not mention. In none of these scopes a function is declared under the old name. -/
def Program.Renames (ρ : Respelling) (program program' : List Stmt) : Prop :=
  Stmt.AllRenamed (.static ρ) .top [] program program'

/-! ## The same tree with other numbers -/

/-- All names stay as they are, in scopes none of which is marked. -/
def Renaming.same : Renaming where
  accesses _ marks _ name _ name' := (∀ mark ∈ marks, mark = false) ∧ name' = name
  declares mark name name' := mark = false ∧ name' = name

theorem headD_eq_false {marks : List Bool} (hmarks : ∀ mark ∈ marks, mark = false) :
    marks.headD false = false := by
  cases marks with
  | nil => rfl
  | cons mark marks => exact hmarks mark List.mem_cons_self

theorem Renaming.spells_same (ρ : Respelling) : same.Spells ρ := by
  rintro _ _ name ⟨rfl, rfl⟩
  exact (ρ.spell_false name.lexeme).symm

mutual

theorem Expr.Alike.renamed {marks : List Bool} (hmarks : ∀ mark ∈ marks, mark = false) (p : Place)
    {e e' : Expr} (h : e.Alike AnyIds Eq e') : e.Renamed .same p marks e' := by
  cases e with
  | literal value =>
    cases h
    exact .literal
  | read id name =>
    cases h with
    | read _ hname => exact .read ⟨hmarks, hname.eq.symm⟩
  | assign id name value =>
    cases h with
    | assign _ hname hvalue => exact .assign ⟨hmarks, hname.eq.symm⟩ (hvalue.renamed hmarks p)
  | unary operator operand =>
    cases h with
    | unary hoperator hoperand =>
      cases hoperator.eq
      exact .unary (hoperand.renamed hmarks p)
  | binary left operator right =>
    cases h with
    | binary hleft hoperator hright =>
      cases hoperator.eq
      exact .binary (hleft.renamed hmarks p) (hright.renamed hmarks p)
  | logical left operator right =>
    cases h with
    | logical hleft hoperator hright =>
      cases hoperator.eq
      exact .logical (hleft.renamed hmarks p) (hright.renamed hmarks p)
  | conditional condition whenTrue whenFalse =>
    cases h with
    | conditional hcondition hwhenTrue hwhenFalse =>
      exact .conditional (hcondition.renamed hmarks p) (hwhenTrue.renamed hmarks p)
        (hwhenFalse.renamed hmarks p)
  | call callee paren arguments =>
    cases h with
    | call hcallee hparen harguments =>
      cases hparen.eq
      exact .call (hcallee.renamed hmarks p) (harguments.renamed hmarks p)
  | group inner =>
    cases h with
    | group hinner => exact .group (hinner.renamed hmarks p)
  | host keyword code =>
    cases h with
    | host hkeyword hcode =>
      cases hkeyword.eq
      exact .host (hcode.renamed hmarks p)

theorem Expr.AllAlike.renamed {marks : List Bool} (hmarks : ∀ mark ∈ marks, mark = false)
    (p : Place) {es es' : List Expr} (h : Expr.AllAlike AnyIds Eq es es') :
    Expr.AllRenamed .same p marks es es' := by
  cases es with
  | nil =>
    cases h
    exact .nil
  | cons e es =>
    cases h with
    | cons h hs => exact .cons (h.renamed hmarks p) (hs.renamed hmarks p)

end

mutual

theorem Stmt.Alike.renamed {marks : List Bool} (hmarks : ∀ mark ∈ marks, mark = false) (p : Place)
    {s s' : Stmt} (h : s.Alike AnyIds Eq s') : s.Renamed .same p marks s' := by
  have hinner : ∀ mark ∈ false :: marks, mark = false := List.forall_mem_cons.2 ⟨rfl, hmarks⟩
  have hhead := headD_eq_false hmarks
  cases s with
  | block body =>
    cases h with
    | block hbody => exact .block (hbody.renamed hinner _)
  | expression value =>
    cases h with
    | expression hvalue => exact .expression (hvalue.renamed hmarks p)
  | function name parameters body =>
    cases h with
    | function hname hparameters hbody =>
      cases hname.eq
      exact .function ⟨hhead, rfl⟩ (hparameters.imp fun _ _ h => ⟨rfl, h.eq.symm⟩)
        (hbody.renamed hinner _)
  | ifThen condition whenTrue =>
    cases h with
    | ifThen hcondition hwhenTrue =>
      exact .ifThen (hcondition.renamed hmarks p) (hwhenTrue.renamed hmarks p)
  | ifElse condition whenTrue whenFalse =>
    cases h with
    | ifElse hcondition hwhenTrue hwhenFalse =>
      exact .ifElse (hcondition.renamed hmarks p) (hwhenTrue.renamed hmarks p)
        (hwhenFalse.renamed hmarks p)
  | print keyword value =>
    cases h with
    | print hkeyword hvalue =>
      cases hkeyword.eq
      exact .print (hvalue.renamed hmarks p)
  | «return» keyword value =>
    cases h with
    | returnNil hkeyword =>
      cases hkeyword.eq
      exact .returnNil
    | returnValue hkeyword hvalue =>
      cases hkeyword.eq
      exact .returnValue (hvalue.renamed hmarks p)
  | var name initializer =>
    cases h with
    | varNil hname => exact .varNil ⟨hhead, hname.eq.symm⟩
    | varValue hname hvalue => exact .varValue ⟨hhead, hname.eq.symm⟩ (hvalue.renamed hmarks _)
  | «while» condition body =>
    cases h with
    | «while» hcondition hbody =>
      exact .while (hcondition.renamed hmarks p) (hbody.renamed hmarks p)

theorem Stmt.AllAlike.renamed {marks : List Bool} (hmarks : ∀ mark ∈ marks, mark = false)
    (p : Place) {ss ss' : List Stmt} (h : Stmt.AllAlike AnyIds Eq ss ss') :
    Stmt.AllRenamed .same p marks ss ss' := by
  cases ss with
  | nil =>
    cases h
    exact .nil
  | cons s ss =>
    cases h with
    | cons h hs => exact .cons (h.renamed hmarks p) (hs.renamed hmarks _)

end

/-! ## Other numbers on both sides -/

section Numbers

variable {ρ : Respelling} {p : Place} {marks : List Bool}

mutual

/-- Which numbers accesses carry does not matter for whether a variable is renamed. -/
theorem Expr.Renamed.alike {e e' f f' : Expr} (h : e.Renamed (.static ρ) p marks e')
    (hleft : f.Alike AnyIds Eq e) (hright : f'.Alike AnyIds Eq e') :
    f.Renamed (.static ρ) p marks f' := by
  cases e with
  | literal value =>
    cases h
    cases hleft
    cases hright
    exact .literal
  | read id name =>
    cases h with
    | read h =>
      cases hleft with
      | read _ hname =>
        cases hright with
        | read _ hname' =>
          cases hname.eq
          cases hname'.eq
          exact .read h
  | assign id name value =>
    cases h with
    | assign h hvalue =>
      cases hleft with
      | assign _ hname hleft =>
        cases hright with
        | assign _ hname' hright =>
          cases hname.eq
          cases hname'.eq
          exact .assign h (hvalue.alike hleft hright)
  | unary operator operand =>
    cases h with
    | unary hoperand =>
      cases hleft with
      | unary hoperator hleft =>
        cases hright with
        | unary hoperator' hright =>
          cases hoperator.eq
          cases hoperator'.eq
          exact .unary (hoperand.alike hleft hright)
  | binary left operator right =>
    cases h with
    | binary h₁ h₂ =>
      cases hleft with
      | binary hleft₁ hoperator hleft₂ =>
        cases hright with
        | binary hright₁ hoperator' hright₂ =>
          cases hoperator.eq
          cases hoperator'.eq
          exact .binary (h₁.alike hleft₁ hright₁) (h₂.alike hleft₂ hright₂)
  | logical left operator right =>
    cases h with
    | logical h₁ h₂ =>
      cases hleft with
      | logical hleft₁ hoperator hleft₂ =>
        cases hright with
        | logical hright₁ hoperator' hright₂ =>
          cases hoperator.eq
          cases hoperator'.eq
          exact .logical (h₁.alike hleft₁ hright₁) (h₂.alike hleft₂ hright₂)
  | conditional condition whenTrue whenFalse =>
    cases h with
    | conditional h₁ h₂ h₃ =>
      cases hleft with
      | conditional hleft₁ hleft₂ hleft₃ =>
        cases hright with
        | conditional hright₁ hright₂ hright₃ =>
          exact .conditional (h₁.alike hleft₁ hright₁) (h₂.alike hleft₂ hright₂)
            (h₃.alike hleft₃ hright₃)
  | call callee paren arguments =>
    cases h with
    | call hcallee harguments =>
      cases hleft with
      | call hleft hparen hlefts =>
        cases hright with
        | call hright hparen' hrights =>
          cases hparen.eq
          cases hparen'.eq
          exact .call (hcallee.alike hleft hright) (harguments.alike hlefts hrights)
  | group inner =>
    cases h with
    | group hinner =>
      cases hleft with
      | group hleft =>
        cases hright with
        | group hright => exact .group (hinner.alike hleft hright)
  | host keyword code =>
    cases h with
    | host hcode =>
      cases hleft with
      | host hkeyword hleft =>
        cases hright with
        | host hkeyword' hright =>
          cases hkeyword.eq
          cases hkeyword'.eq
          exact .host (hcode.alike hleft hright)
termination_by structural e

theorem Expr.AllRenamed.alike {es es' fs fs' : List Expr}
    (h : Expr.AllRenamed (.static ρ) p marks es es') (hleft : Expr.AllAlike AnyIds Eq fs es)
    (hright : Expr.AllAlike AnyIds Eq fs' es') : Expr.AllRenamed (.static ρ) p marks fs fs' := by
  cases es with
  | nil =>
    cases h
    cases hleft
    cases hright
    exact .nil
  | cons e es =>
    cases h with
    | cons h hs =>
      cases hleft with
      | cons hleft hlefts =>
        cases hright with
        | cons hright hrights => exact .cons (h.alike hleft hright) (hs.alike hlefts hrights)
termination_by structural es

end

mutual

theorem Stmt.Renamed.alike {p : Place} {marks : List Bool} {s s' t t' : Stmt}
    (h : s.Renamed (.static ρ) p marks s') (hleft : t.Alike AnyIds Eq s)
    (hright : t'.Alike AnyIds Eq s') : t.Renamed (.static ρ) p marks t' := by
  cases s with
  | block body =>
    cases h with
    | block hbody =>
      cases hleft with
      | block hleft =>
        cases hright with
        | block hright =>
          have hbody := hbody.alike hleft hright
          unfold Place.enter at hbody
          rw [← Stmt.allDeclared_eq_of_alike hleft] at hbody
          exact .block hbody
  | expression value =>
    cases h with
    | expression hvalue =>
      cases hleft with
      | expression hleft =>
        cases hright with
        | expression hright => exact .expression (hvalue.alike hleft hright)
  | function name parameters body =>
    cases h with
    | function hname hparameters hbody =>
      cases hleft with
      | function hname₁ hparameters₁ hleft =>
        cases hright with
        | function hname₂ hparameters₂ hright =>
          cases hname₁.eq
          cases hname₂.eq
          obtain rfl := Token.eq_of_alike hparameters₁
          obtain rfl := Token.eq_of_alike hparameters₂
          have hbody := hbody.alike hleft hright
          unfold Place.enterFunction at hbody
          rw [← Stmt.allDeclared_eq_of_alike hleft] at hbody
          exact .function hname hparameters hbody
  | ifThen condition whenTrue =>
    cases h with
    | ifThen hcondition hwhenTrue =>
      cases hleft with
      | ifThen hleft₁ hleft₂ =>
        cases hright with
        | ifThen hright₁ hright₂ =>
          exact .ifThen (hcondition.alike hleft₁ hright₁) (hwhenTrue.alike hleft₂ hright₂)
  | ifElse condition whenTrue whenFalse =>
    cases h with
    | ifElse hcondition hwhenTrue hwhenFalse =>
      cases hleft with
      | ifElse hleft₁ hleft₂ hleft₃ =>
        cases hright with
        | ifElse hright₁ hright₂ hright₃ =>
          exact .ifElse (hcondition.alike hleft₁ hright₁) (hwhenTrue.alike hleft₂ hright₂)
            (hwhenFalse.alike hleft₃ hright₃)
  | print keyword value =>
    cases h with
    | print hvalue =>
      cases hleft with
      | print hkeyword hleft =>
        cases hright with
        | print hkeyword' hright =>
          cases hkeyword.eq
          cases hkeyword'.eq
          exact .print (hvalue.alike hleft hright)
  | «return» keyword value =>
    cases h with
    | returnNil =>
      cases hleft with
      | returnNil hkeyword =>
        cases hright with
        | returnNil hkeyword' =>
          cases hkeyword.eq
          cases hkeyword'.eq
          exact .returnNil
    | returnValue hvalue =>
      cases hleft with
      | returnValue hkeyword hleft =>
        cases hright with
        | returnValue hkeyword' hright =>
          cases hkeyword.eq
          cases hkeyword'.eq
          exact .returnValue (hvalue.alike hleft hright)
  | var name initializer =>
    cases h with
    | varNil hname =>
      cases hleft with
      | varNil hname₁ =>
        cases hright with
        | varNil hname₂ =>
          cases hname₁.eq
          cases hname₂.eq
          exact .varNil hname
    | varValue hname hvalue =>
      cases hleft with
      | varValue hname₁ hleft =>
        cases hright with
        | varValue hname₂ hright =>
          cases hname₁.eq
          cases hname₂.eq
          exact .varValue hname (hvalue.alike hleft hright)
  | «while» condition body =>
    cases h with
    | «while» hcondition hbody =>
      cases hleft with
      | «while» hleft₁ hleft₂ =>
        cases hright with
        | «while» hright₁ hright₂ =>
          exact .while (hcondition.alike hleft₁ hright₁) (hbody.alike hleft₂ hright₂)
termination_by structural s

theorem Stmt.AllRenamed.alike {p : Place} {marks : List Bool} {ss ss' ts ts' : List Stmt}
    (h : Stmt.AllRenamed (.static ρ) p marks ss ss') (hleft : Stmt.AllAlike AnyIds Eq ts ss)
    (hright : Stmt.AllAlike AnyIds Eq ts' ss') : Stmt.AllRenamed (.static ρ) p marks ts ts' := by
  cases ss with
  | nil =>
    cases h
    cases hleft
    cases hright
    exact .nil
  | cons s ss =>
    cases h with
    | cons h hs =>
      cases hleft with
      | cons hleft hlefts =>
        cases hright with
        | cons hright hrights =>
          rw [← Stmt.declared_eq_of_alike hleft] at hs
          exact .cons (h.alike hleft hright) (hs.alike hlefts hrights)
termination_by structural ss

end

end Numbers

end Lox
