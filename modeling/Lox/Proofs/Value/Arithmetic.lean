/-
# Arithmetic

The operators between values, against the integers. `Exact` says what the operators of arithmetic
mean for integers of any size, without computing a quotient; `Fits` says which integers a number can
be. An operator gives the number that the exact result is, or a fault: never another number. Which
fault, and what becomes of operands that are not numbers, is said kind by kind.
-/

import Lox.Value.Operator

namespace Lox

namespace Operator

/-! ## The integers that are numbers -/

/-- An integer that a number can be. -/
def Fits (result : Int) : Prop :=
  -9223372036854775808 ≤ result ∧ result ≤ 9223372036854775807

instance (result : Int) : Decidable (Fits result) := inferInstanceAs (Decidable (_ ∧ _))

theorem fits_toInt (n : Int64) : Fits n.toInt := by
  have hle := n.le_toInt
  have hlt := n.toInt_lt
  unfold Fits
  omega

/-- A number is made of an integer just if the integer fits, and it is that integer. -/
theorem number?_eq_some_iff {result : Int} {n : Int64} :
    number? result = some n ↔ n.toInt = result := by
  have hmin : Int64.minValue.toInt = -9223372036854775808 := rfl
  have hmax : Int64.maxValue.toInt = 9223372036854775807 := rfl
  unfold number?
  rw [hmin, hmax]
  split
  case isTrue hfits =>
    have hof : (Int64.ofInt result).toInt = result :=
      Int64.toInt_ofInt_of_le (by omega) (by omega)
    rw [Option.some.injEq, ← Int64.toInt_inj, hof, eq_comm]
  case isFalse hnot =>
    have hfits := fits_toInt n
    constructor
    · intro h
      cases h
    · intro h
      rw [h] at hfits
      exact absurd hfits hnot

theorem number?_eq_none_iff {result : Int} : number? result = none ↔ ¬ Fits result := by
  have hmin : Int64.minValue.toInt = -9223372036854775808 := rfl
  have hmax : Int64.maxValue.toInt = 9223372036854775807 := rfl
  unfold number? Fits
  rw [hmin, hmax]
  split <;> simp [*]

/-- The integers that fit are those that some number is. -/
theorem exists_toInt_eq_iff {result : Int} : (∃ n : Int64, n.toInt = result) ↔ Fits result := by
  constructor
  · rintro ⟨n, rfl⟩
    exact fits_toInt n
  · intro hfits
    cases hnumber : number? result with
    | none => exact absurd hfits (number?_eq_none_iff.1 hnumber)
    | some n => exact ⟨n, number?_eq_some_iff.1 hnumber⟩

/-! ## One result in arithmetic -/

section

variable {operator : Token} {result : Int}

@[simp] theorem arithmetic_eq_number_iff {n : Int64} :
    arithmetic operator result = .ok (.number n) ↔ n.toInt = result := by
  rw [← number?_eq_some_iff]
  unfold arithmetic
  split <;> simp [*]

@[simp] theorem arithmetic_eq_overflow_iff :
    arithmetic operator result = .error ⟨operator, .overflow operator.lexeme⟩ ↔ ¬ Fits result := by
  rw [← number?_eq_none_iff]
  unfold arithmetic
  split <;> simp [*]

@[simp] theorem arithmetic_ne_divisionByZero :
    arithmetic operator result ≠ .error ⟨operator, .divisionByZero⟩ := by
  unfold arithmetic
  split <;> simp

/-- There is a number for the result, or the result overflows. -/
theorem arithmetic_cases :
    (∃ n, arithmetic operator result = .ok (.number n)) ∨
      arithmetic operator result = .error ⟨operator, .overflow operator.lexeme⟩ := by
  unfold arithmetic
  split
  · exact .inl ⟨_, rfl⟩
  · exact .inr rfl

end

/-! ## The exact results -/

/-- The operators of arithmetic between two operands. -/
def arithmeticOperators : List Token.Kind :=
  [.plus, .plusEqual, .minus, .minusEqual, .star, .slash]

/-- What the operators of arithmetic mean for integers. A quotient leaves a remainder smaller than
the divisor and on the dividend's side of zero, so that its fraction is cut off toward zero; nothing
is a quotient by zero. -/
inductive Exact : Token.Kind → Int → Int → Int → Prop
  | plus (a b : Int) : Exact .plus a b (a + b)
  | plusEqual (a b : Int) : Exact .plusEqual a b (a + b)
  | minus (a b : Int) : Exact .minus a b (a - b)
  | minusEqual (a b : Int) : Exact .minusEqual a b (a - b)
  | star (a b : Int) : Exact .star a b (a * b)
  | slash {a b quotient remainder : Int} (division : a = b * quotient + remainder)
      (smaller : remainder.natAbs < b.natAbs) (side : 0 ≤ a * remainder) :
      Exact .slash a b quotient

/-- A quotient is what division toward zero gives, and there is one unless the divisor is zero. -/
theorem exact_slash_iff {a b quotient : Int} :
    Exact .slash a b quotient ↔ b ≠ 0 ∧ a.tdiv b = quotient := by
  constructor
  · intro h
    cases h with
    | @slash _ _ _ remainder division smaller side =>
      have hb : b ≠ 0 := by omega
      refine ⟨hb, ?_⟩
      rcases Int.lt_trichotomy a 0 with hneg | hzero | hpos
      · have hside : remainder ≤ 0 := Int.nonpos_of_mul_nonneg_right side hneg
        exact ((Int.tdiv_tmod_unique' (by omega) hb).2 ⟨by omega, by omega, hside⟩).1
      · have hdvd : b ∣ remainder := ⟨-quotient, by rw [Int.mul_neg]; omega⟩
        have hremainder := Int.eq_zero_of_dvd_of_natAbs_lt_natAbs hdvd smaller
        have hleast : 0 < b.natAbs := Int.natAbs_pos.2 hb
        exact ((Int.tdiv_tmod_unique (r := remainder) (by omega) hb).2
          ⟨by omega, by omega, by omega⟩).1
      · have hside : 0 ≤ remainder := Int.nonneg_of_mul_nonneg_right side hpos
        exact ((Int.tdiv_tmod_unique (by omega) hb).2 ⟨by omega, hside, by omega⟩).1
  · rintro ⟨hb, rfl⟩
    have hsmaller : (a.tmod b).natAbs < b.natAbs := by
      rw [Int.natAbs_tmod]
      exact Nat.mod_lt _ (by omega)
    refine .slash (Int.mul_tdiv_add_tmod a b).symm hsmaller ?_
    rcases Int.le_total 0 a with hpos | hneg
    · exact Int.mul_nonneg hpos (Int.tmod_nonneg b hpos)
    · have hmod : 0 ≤ (-a).tmod b := Int.tmod_nonneg b (by omega)
      rw [Int.neg_tmod] at hmod
      exact Int.mul_nonneg_of_nonpos_of_nonpos hneg (by omega)

/-- The least number by minus one is the only quotient of numbers that is too large to be one. -/
theorem not_fits_tdiv_iff (a b : Int64) :
    ¬ Fits (a.toInt.tdiv b.toInt) ↔ a = Int64.minValue ∧ b = -1 := by
  have ha := fits_toInt a
  have hmin : Int64.minValue.toInt = -9223372036854775808 := rfl
  have hminus : (-1 : Int64).toInt = -1 := rfl
  rw [← Int64.toInt_inj, ← Int64.toInt_inj, hmin, hminus]
  generalize a.toInt = dividend at ha
  generalize b.toInt = divisor
  unfold Fits at ha ⊢
  by_cases hone : divisor = 1
  · subst hone
    rw [Int.tdiv_one]
    omega
  by_cases hneg : divisor = -1
  · subst hneg
    rw [Int.tdiv_neg, Int.tdiv_one]
    omega
  have habs : (dividend.tdiv divisor).natAbs ≤ dividend.natAbs / 2 := by
    by_cases hzero : divisor = 0
    · rw [hzero, Int.tdiv_zero]
      exact Nat.zero_le _
    · rw [Int.natAbs_tdiv]
      exact Nat.div_le_div_left (by omega) (by omega)
  omega

/-! ## Numbers -/

/-- An operator of arithmetic does right by two numbers. Its outcome is the exact result, as a
number; where there is none, for it is a quotient by zero, the fault that says so; and where the
exact result is no number, an overflow. -/
structure ExactOrFault (operator : Token) (a b : Int64) : Prop where
  /-- A number comes out just if it is the exact result. -/
  number_iff : ∀ n : Int64, binary operator (.number a) (.number b) = .ok (.number n) ↔
    Exact operator.kind a.toInt b.toInt n.toInt
  /-- A number comes out just if there is an exact result that fits. -/
  fits_iff : (∃ n, binary operator (.number a) (.number b) = .ok (.number n)) ↔
    ∃ result, Exact operator.kind a.toInt b.toInt result ∧ Fits result
  /-- Only division fails for want of a result, and only by zero. -/
  zero_iff : binary operator (.number a) (.number b) = .error ⟨operator, .divisionByZero⟩ ↔
    operator.kind = .slash ∧ b = 0
  /-- It overflows just if there is an exact result that does not fit. -/
  overflow_iff :
    binary operator (.number a) (.number b) = .error ⟨operator, .overflow operator.lexeme⟩ ↔
      ∃ result, Exact operator.kind a.toInt b.toInt result ∧ ¬ Fits result
  /-- A quotient overflows for one pair of numbers. -/
  quotient_overflow_iff : operator.kind = .slash →
    (binary operator (.number a) (.number b) = .error ⟨operator, .overflow operator.lexeme⟩ ↔
      a = Int64.minValue ∧ b = -1)
  /-- Nothing else comes out. -/
  cases : (∃ n, binary operator (.number a) (.number b) = .ok (.number n)) ∨
    binary operator (.number a) (.number b) = .error ⟨operator, .divisionByZero⟩ ∨
    binary operator (.number a) (.number b) = .error ⟨operator, .overflow operator.lexeme⟩

/-- An operator whose exact result always exists and is what it passes to `arithmetic`. -/
theorem exactOrFault_of_total {operator : Token} {a b : Int64} {result : Int}
    (hbinary : binary operator (.number a) (.number b) = arithmetic operator result)
    (hkind : operator.kind ≠ .slash)
    (hexact : ∀ r, Exact operator.kind a.toInt b.toInt r ↔ r = result) :
    ExactOrFault operator a b where
  number_iff n := by simp [hbinary, hexact]
  fits_iff := by simp [hbinary, hexact, exists_toInt_eq_iff]
  zero_iff := by simp [hbinary, hkind]
  overflow_iff := by simp [hbinary, hexact]
  quotient_overflow_iff h := absurd h hkind
  cases := by
    rw [hbinary]
    exact arithmetic_cases.imp_right .inr

theorem exactOrFault_slash {operator : Token} (hkind : operator.kind = .slash) (a b : Int64) :
    ExactOrFault operator a b := by
  by_cases hb : b = 0
  · subst hb
    have hbinary : binary operator (.number a) (.number 0) =
        .error ⟨operator, .divisionByZero⟩ := by
      simp [binary, hkind, divide, onNumbers]
    constructor <;> simp [hbinary, hkind, exact_slash_iff]
  · have hnonzero : b.toInt ≠ 0 := fun h => hb (Int64.toInt_inj.1 h)
    have hbinary : binary operator (.number a) (.number b) =
        arithmetic operator (a.toInt.tdiv b.toInt) := by
      simp [binary, hkind, divide, onNumbers, hnonzero]
    constructor
    · simp [hbinary, hkind, exact_slash_iff, hnonzero, eq_comm]
    · simp [hbinary, hkind, exact_slash_iff, hnonzero, exists_toInt_eq_iff]
    · simp [hbinary, hb]
    · simp [hbinary, hkind, exact_slash_iff, hnonzero]
    · intro
      rw [hbinary, arithmetic_eq_overflow_iff, not_fits_tdiv_iff]
    · rw [hbinary]
      exact arithmetic_cases.imp_right .inr

example : binary ⟨.slash, "/", none, 1⟩ (.number Int64.minValue) (.number (-1)) =
    .error ⟨⟨.slash, "/", none, 1⟩, .overflow "/"⟩ := rfl

theorem exactOrFault {operator : Token} (hkind : operator.kind ∈ arithmeticOperators)
    (a b : Int64) : ExactOrFault operator a b := by
  simp only [arithmeticOperators, List.mem_cons, List.not_mem_nil, or_false] at hkind
  rcases hkind with h | h | h | h | h | h
  case inr.inr.inr.inr.inr => exact exactOrFault_slash h a b
  all_goals
    refine exactOrFault_of_total (by simp only [binary, h, add, onNumbers]; rfl)
      (by simp [h]) ?_
    intro r
    rw [h]
    constructor
    · intro hexact
      cases hexact
      rfl
    · rintro rfl
      constructor

/-- A minus sign before a number gives its exact opposite, unless the number is the least. -/
theorem unary_minus_number {operator : Token} (hkind : operator.kind = .minus) (a : Int64) :
    (∀ n, unary operator (.number a) = .ok (.number n) ↔ n.toInt = -a.toInt) ∧
      (unary operator (.number a) = .error ⟨operator, .overflow operator.lexeme⟩ ↔
        a = Int64.minValue) ∧
      ((∃ n, unary operator (.number a) = .ok (.number n)) ∨
        unary operator (.number a) = .error ⟨operator, .overflow operator.lexeme⟩) := by
  have hunary : unary operator (.number a) = arithmetic operator (-a.toInt) := by
    simp only [unary, hkind]
  have hmin : Int64.minValue.toInt = -9223372036854775808 := rfl
  have ha := fits_toInt a
  rw [hunary]
  refine ⟨fun n => arithmetic_eq_number_iff, ?_, arithmetic_cases⟩
  rw [arithmetic_eq_overflow_iff, ← Int64.toInt_inj, hmin]
  unfold Fits at ha ⊢
  omega

/-! ## Comparisons -/

/-- The operators that compare numbers. -/
def comparisons : List Token.Kind := [.greater, .greaterEqual, .less, .lessEqual]

/-- The order of the integers that a comparison asks for. -/
inductive Ordered : Token.Kind → Int → Int → Prop
  | greater {a b : Int} (h : b < a) : Ordered .greater a b
  | greaterEqual {a b : Int} (h : b ≤ a) : Ordered .greaterEqual a b
  | less {a b : Int} (h : a < b) : Ordered .less a b
  | lessEqual {a b : Int} (h : a ≤ b) : Ordered .lessEqual a b

theorem ordered_iff {kind : Token.Kind} {a b : Int} :
    Ordered kind a b ↔ (kind = .greater ∧ b < a) ∨ (kind = .greaterEqual ∧ b ≤ a) ∨
      (kind = .less ∧ a < b) ∨ (kind = .lessEqual ∧ a ≤ b) := by
  constructor
  · intro h
    cases h <;> simp [*]
  · rintro (⟨rfl, h⟩ | ⟨rfl, h⟩ | ⟨rfl, h⟩ | ⟨rfl, h⟩)
    · exact .greater h
    · exact .greaterEqual h
    · exact .less h
    · exact .lessEqual h

/-- Two comparisons of which one is the negation of the other. -/
inductive Opposite : Token.Kind → Token.Kind → Prop
  | greater : Opposite .greater .lessEqual
  | lessEqual : Opposite .lessEqual .greater
  | less : Opposite .less .greaterEqual
  | greaterEqual : Opposite .greaterEqual .less

/-- A comparison of numbers says how the integers are ordered. -/
theorem binary_comparison {operator : Token} (hkind : operator.kind ∈ comparisons) (a b : Int64)
    (answer : Bool) : binary operator (.number a) (.number b) = .ok (.bool answer) ↔
      (answer = true ↔ Ordered operator.kind a.toInt b.toInt) := by
  simp only [comparisons, List.mem_cons, List.not_mem_nil, or_false] at hkind
  rcases hkind with h | h | h | h
  all_goals cases answer <;> simp [binary, h, compare, onNumbers, ordered_iff]

/-! ## Operands that are not both numbers -/

/-- The operators of addition. -/
def additions : List Token.Kind := [.plus, .plusEqual]

theorem onNumbers_of_not_numbers {operator : Token} {left right : Value}
    {apply : Int → Int → Except Fault Value}
    (hnot : ¬ (left.type = .number ∧ right.type = .number)) :
    onNumbers operator left right apply = .error ⟨operator, .operandsNotNumbers⟩ := by
  unfold onNumbers
  split
  · exact absurd ⟨rfl, rfl⟩ hnot
  · rfl

theorem binary_of_addition {operator : Token} (hkind : operator.kind ∈ additions)
    (left right : Value) : binary operator left right = add operator left right := by
  simp only [additions, List.mem_cons, List.not_mem_nil, or_false] at hkind
  rcases hkind with h | h <;> simp only [binary, h]

/-- An addition wants numbers and strings. -/
theorem binary_of_not_addable {operator : Token} {left right : Value}
    (hkind : operator.kind ∈ additions)
    (hnot : ¬ (left.type ∈ [.number, .string] ∧ right.type ∈ [.number, .string])) :
    binary operator left right = .error ⟨operator, .operandsNotAddable⟩ := by
  rw [binary_of_addition hkind]
  unfold add
  split
  case h_5 => rfl
  all_goals simp [Value.type] at hnot

/-- What is no addition wants numbers. -/
theorem binary_of_not_numbers {operator : Token} {left right : Value}
    (hkind : operator.kind ∈ arithmeticOperators ∨ operator.kind ∈ comparisons)
    (hother : operator.kind ∉ additions)
    (hnot : ¬ (left.type = .number ∧ right.type = .number)) :
    binary operator left right = .error ⟨operator, .operandsNotNumbers⟩ := by
  simp only [arithmeticOperators, comparisons, additions, List.mem_cons, List.not_mem_nil, or_false,
    not_or] at hkind hother
  unfold binary
  split
  case h_3 | h_4 | h_5 | h_6 | h_7 | h_8 | h_9 | h_10 => exact onNumbers_of_not_numbers hnot
  all_goals simp_all

/-- Comparisons that are negations of each other give opposite answers, or both none. -/
theorem binary_opposite {operator opposite : Token} (h : Opposite operator.kind opposite.kind)
    (left right : Value) (answer : Bool) :
    binary operator left right = .ok (.bool answer) ↔
      binary opposite left right = .ok (.bool !answer) := by
  unfold binary
  generalize operator.kind = kind at h
  generalize opposite.kind = kind' at h
  cases h
  all_goals
    unfold compare onNumbers
    cases left <;> cases right <;> cases answer <;> simp

/-! ## Equality -/

/-- Values that are the same: alike in type and content, where functions are told apart by their
numbers alone. -/
inductive Same : Value → Value → Prop
  | nil : Same .nil .nil
  | bool (b : Bool) : Same (.bool b) (.bool b)
  | number (n : Int64) : Same (.number n) (.number n)
  | string (s : String) : Same (.string s) (.string s)
  | callable (identity : Nat) (called called' : Callable) :
    Same (.callable identity called) (.callable identity called')

theorem equals_iff_same {left right : Value} : left.equals right = true ↔ Same left right := by
  constructor
  · intro h
    unfold Value.equals at h
    split at h
    case h_1 => exact .nil
    case h_5 a _ b _ =>
      cases eq_of_beq h
      exact .callable ..
    case h_6 => cases h
    all_goals
      cases eq_of_beq h
      constructor
  · intro h
    cases h <;> simp [Value.equals]

theorem same_equivalence : Equivalence Same where
  refl value := by cases value <;> constructor
  symm h := by cases h <;> constructor
  trans h h' := by cases h <;> cases h' <;> constructor

/-- Values can always be compared for equality. -/
theorem binary_equalEqual {operator : Token} (hkind : operator.kind = .equalEqual)
    (left right : Value) : ∃ answer, binary operator left right = .ok (.bool answer) ∧
      (answer = true ↔ Same left right) := by
  refine ⟨left.equals right, ?_, equals_iff_same⟩
  unfold binary
  rw [hkind]

theorem binary_equalEqual_iff {operator : Token} (hkind : operator.kind = .equalEqual)
    {left right : Value} : binary operator left right = .ok (.bool true) ↔ Same left right := by
  rw [← equals_iff_same]
  simp [binary, hkind]

/-! ## Every operator -/

/-- What is to be said of an operator, kind by kind. A token that is no operator satisfies it for
want of a kind that is asked about. -/
structure Lawful (operator : Token) : Prop where
  /-- Arithmetic on numbers is exact, or a fault. -/
  arithmetic : operator.kind ∈ arithmeticOperators → ∀ a b, ExactOrFault operator a b
  /-- So is the minus sign before a number, which overflows at the least number alone. -/
  minus : operator.kind = .minus → ∀ a : Int64,
    (∀ n, unary operator (.number a) = .ok (.number n) ↔ n.toInt = -a.toInt) ∧
      (unary operator (.number a) = .error ⟨operator, .overflow operator.lexeme⟩ ↔
        a = Int64.minValue) ∧
      ((∃ n, unary operator (.number a) = .ok (.number n)) ∨
        unary operator (.number a) = .error ⟨operator, .overflow operator.lexeme⟩)
  /-- It wants a number. -/
  minus_other : operator.kind = .minus → ∀ operand : Value, operand.type ≠ .number →
    unary operator operand = .error ⟨operator, .operandNotNumber⟩
  /-- Comparisons of numbers agree with the order of the integers. -/
  comparison : operator.kind ∈ comparisons → ∀ (a b : Int64) (answer : Bool),
    binary operator (.number a) (.number b) = .ok (.bool answer) ↔
      (answer = true ↔ Ordered operator.kind a.toInt b.toInt)
  /-- They come in pairs of which one is the negation of the other. -/
  opposite : ∀ other : Token, Opposite operator.kind other.kind →
    ∀ (left right : Value) (answer : Bool), binary operator left right = .ok (.bool answer) ↔
      binary other left right = .ok (.bool !answer)
  /-- Strings are put one after another. -/
  strings : operator.kind ∈ additions → ∀ a b : String,
    binary operator (.string a) (.string b) = .ok (.string (a ++ b))
  /-- A number is put behind a string as it is printed. -/
  string_number : operator.kind ∈ additions → ∀ (a : String) (b : Int64),
    binary operator (.string a) (.number b) = .ok (.string (a ++ (Value.number b).display))
  /-- A string is not put behind a number. -/
  number_string : operator.kind ∈ additions → ∀ (a : Int64) (b : String),
    binary operator (.number a) (.string b) = .error ⟨operator, .stringAddedToNumber⟩
  /-- Nothing but numbers and strings is added. -/
  addition_other : operator.kind ∈ additions → ∀ left right : Value,
    ¬ (left.type ∈ [.number, .string] ∧ right.type ∈ [.number, .string]) →
      binary operator left right = .error ⟨operator, .operandsNotAddable⟩
  /-- All other arithmetic and all comparisons want two numbers. -/
  numbers_only : operator.kind ∈ arithmeticOperators ∨ operator.kind ∈ comparisons →
    operator.kind ∉ additions → ∀ left right : Value,
      ¬ (left.type = .number ∧ right.type = .number) →
        binary operator left right = .error ⟨operator, .operandsNotNumbers⟩
  /-- Any two values can be compared for equality, which is that of their type and content. -/
  equality : operator.kind = .equalEqual → ∀ left right : Value,
    ∃ answer, binary operator left right = .ok (.bool answer) ∧ (answer = true ↔ Same left right)
  /-- Equality is an equivalence relation. -/
  equality_equivalence : operator.kind = .equalEqual →
    Equivalence fun left right => binary operator left right = .ok (.bool true)
  /-- Inequality is its negation, and never fails either. -/
  inequality : operator.kind = .equalEqual → ∀ other : Token, other.kind = .bangEqual →
    ∀ (left right : Value) (answer : Bool), binary operator left right = .ok (.bool answer) ↔
      binary other left right = .ok (.bool !answer)

/-- Integer arithmetic is exact or a fault, never wrapped, and every pair of operands of any types
has the outcome laid down for it. -/
theorem lawful (operator : Token) : Lawful operator where
  arithmetic := exactOrFault
  minus := unary_minus_number
  minus_other hkind operand hother := by
    simp only [unary, hkind]
    cases operand with
    | number n => exact absurd rfl hother
    | _ => rfl
  comparison := binary_comparison
  opposite _ := binary_opposite
  strings hkind a b := by
    rw [binary_of_addition hkind]
    rfl
  string_number hkind a b := by
    rw [binary_of_addition hkind]
    rfl
  number_string hkind a b := by
    rw [binary_of_addition hkind]
    rfl
  addition_other hkind _ _ := binary_of_not_addable hkind
  numbers_only hkind hother _ _ := binary_of_not_numbers hkind hother
  equality := binary_equalEqual
  equality_equivalence hkind := by
    simp only [binary_equalEqual_iff hkind]
    exact same_equivalence
  inequality hkind other hother left right answer := by
    simp [binary, hkind, hother]

end Operator

end Lox
