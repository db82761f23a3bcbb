import Mathlib
import MachineScript.Library.Standard

/-!
Contract: what the four functions of arithmetic give.

Owns:
- the exact results that sums, products, differences and quotients of integers
  are compared with;
- one step of the fold over the arguments, and from it the whole fold: integers
  are exact up to the first partial result beyond 64 bits, and from the first
  float on all that counts is that the rest are numbers;
- when a call fails, and of which kind its result is when it does not.

Does not own: the values of results that are floats.
-/

namespace MachineScript

/-- An integer or a float. -/
inductive Value.IsNumber : Value → Prop where
  | int (number : Int64) : IsNumber (.int number)
  | float (number : Float) : IsNumber (.float number)

namespace Library

section Folding

variable (function : String) (operation : Operation) {onInts : Int → Int → Int}
  {arguments rest : List Value} {ints : List Int64} {value argument : Value} {exact : Int}

/-! ## Exact results -/

/-- A signed integer of 64 bits can hold it. -/
def Fits (exact : Int) : Prop :=
  Int64.minValue.toInt ≤ exact ∧ exact ≤ Int64.maxValue.toInt

/-- Integers combined from the left, without any bounds. -/
def combined (onInts : Int → Int → Int) : List Int64 → Int
  | [] => 0
  | first :: rest => (rest.map Int64.toInt).foldl onInts first.toInt

/-- Every result on the way from a first integer through others fits. -/
def PartialsFit (onInts : Int → Int → Int) (start : Int) (ints : List Int64) : Prop :=
  ∀ front, front <+: ints → Fits ((front.map Int64.toInt).foldl onInts start)

/-- Some of the arguments in front are integers whose combination does not fit. -/
def Overflows (onInts : Int → Int → Int) (arguments : List Value) : Prop :=
  ∃ ints : List Int64, ints.map Value.int <+: arguments ∧ ¬Fits (combined onInts ints)

def overflow (function : String) : LibraryError :=
  .type function "a result within integer range" "an overflow"

theorem Fits.of_int64 (number : Int64) : Fits number.toInt :=
  ⟨number.minValue_le_toInt, number.toInt_le⟩

theorem Fits.exists_int64 (fits : Fits exact) :
    ∃ number : Int64, number.toInt = exact ∧ Number.int64? exact = some number := by
  refine ⟨Int64.ofInt exact, ?_, if_pos fits⟩
  obtain ⟨above, below⟩ := fits
  rw [Int64.toInt_minValue] at above
  rw [Int64.toInt_maxValue] at below
  exact Int64.toInt_ofInt_of_le above (by omega)

theorem partialsFit_nil (number : Int64) : PartialsFit onInts number.toInt [] := by
  intro front isPrefix
  rw [List.prefix_nil.mp isPrefix]
  exact .of_int64 number

theorem partialsFit_cons {start first : Int64} :
    PartialsFit onInts start.toInt (first :: ints)
      ↔ PartialsFit onInts (onInts start.toInt first.toInt) ints := by
  constructor
  · intro all front isPrefix
    exact all (first :: front) ((List.prefix_cons_inj first).mpr isPrefix)
  · rintro all (_ | ⟨head, front⟩) isPrefix
    · exact .of_int64 start
    · obtain ⟨rfl, shorter⟩ := List.cons_prefix_cons.mp isPrefix
      exact all front shorter

/-- The combinations of the integers in front are the results on the way through all of them. -/
theorem partialsFit_iff {first : Int64} :
    PartialsFit onInts first.toInt ints
      ↔ ∀ front, front <+: first :: ints → Fits (combined onInts front) := by
  constructor
  · rintro all (_ | ⟨head, front⟩) isPrefix
    · exact .of_int64 0
    · obtain ⟨rfl, shorter⟩ := List.cons_prefix_cons.mp isPrefix
      exact all front shorter
  · intro all front isPrefix
    exact all (first :: front) ((List.prefix_cons_inj first).mpr isPrefix)

theorem combined_add (ints : List Int64) : combined (· + ·) ints = (ints.map Int64.toInt).sum := by
  cases ints with
  | nil => rfl
  | cons first others => rw [combined, List.map_cons, List.sum_eq_foldl, List.foldl_cons, zero_add]

theorem combined_mul (nonempty : ints ≠ []) :
    combined (· * ·) ints = (ints.map Int64.toInt).prod := by
  cases ints with
  | nil => exact absurd rfl nonempty
  | cons first others => rw [combined, List.map_cons, List.prod_eq_foldl, List.foldl_cons, one_mul]

/-! ## One step -/

theorem expectNumber_of_isNumber (isNumber : value.IsNumber) (function : String) :
    ∃ number, expectNumber function value = .ok number := by
  cases isNumber with
  | int number => exact ⟨_, rfl⟩
  | float number => exact ⟨number, rfl⟩

theorem expectNumber_of_not_isNumber (other : ¬value.IsNumber) (function : String) :
    expectNumber function value = .error (.type function "a number" value.typeName) := by
  cases value with
  | int number => exact absurd (.int number) other
  | float number => exact absurd (.float number) other
  | nil | bool | str | handle => rfl

theorem combine_of_fits {left right : Int64}
    (fits : Fits (operation.onInts left.toInt right.toInt)) :
    ∃ number : Int64, number.toInt = operation.onInts left.toInt right.toInt
      ∧ combine function operation (.int left) (.int right) = .ok (.int number) := by
  obtain ⟨number, exact, found⟩ := fits.exists_int64
  refine ⟨number, exact, ?_⟩
  rw [combine, found]

theorem combine_of_not_fits {left right : Int64}
    (beyond : ¬Fits (operation.onInts left.toInt right.toInt)) :
    combine function operation (.int left) (.int right) = .error (overflow function) := by
  have absent : Number.int64? (operation.onInts left.toInt right.toInt) = none := if_neg beyond
  rw [combine, absent]
  rfl

/-- A float makes the result a float. -/
theorem combine_float_left (number : Float) (isNumber : value.IsNumber) :
    ∃ result, combine function operation (.float number) value = .ok (.float result) := by
  cases isNumber with
  | int other => exact ⟨_, rfl⟩
  | float other => exact ⟨_, rfl⟩

theorem combine_of_not_isNumber (isNumber : value.IsNumber) (other : ¬argument.IsNumber) :
    combine function operation value argument
      = .error (.type function "a number" argument.typeName) := by
  obtain ⟨number, taken⟩ := expectNumber_of_isNumber isNumber function
  rw [combine, taken, expectNumber_of_not_isNumber other]
  · rfl
  · rintro _ _ rfl rfl
    exact other (.int _)

/-- What two numbers give is a number. -/
theorem isNumber_of_combine {result : Value}
    (taken : combine function operation value argument = .ok result) : result.IsNumber := by
  unfold combine at taken
  split at taken
  · split at taken
    · cases taken
      exact .int _
    · cases taken
  · cases left : expectNumber function value with
    | error problem => rw [left] at taken; cases taken
    | ok _ =>
        cases right : expectNumber function argument with
        | error problem => rw [left, right] at taken; cases taken
        | ok _ =>
            rw [left, right] at taken
            cases taken
            exact .float _

/-! ## The fold -/

/-- The induction is on the integers, from whatever has been reached: a result that fits is where
the rest starts from. -/
theorem foldlM_of_partialsFit {start : Int64}
    (fit : PartialsFit operation.onInts start.toInt ints) :
    ∃ number : Int64, number.toInt = (ints.map Int64.toInt).foldl operation.onInts start.toInt
      ∧ (ints.map Value.int).foldlM (combine function operation) (.int start)
        = .ok (.int number) := by
  induction ints generalizing start with
  | nil => exact ⟨start, rfl, rfl⟩
  | cons first others inductionHypothesis =>
      have fits : Fits (operation.onInts start.toInt first.toInt) :=
        fit [first] ((List.prefix_cons_inj first).mpr List.nil_prefix)
      obtain ⟨reached, isExact, taken⟩ := combine_of_fits function operation fits
      rw [partialsFit_cons, ← isExact] at fit
      rw [List.map_cons, List.map_cons, List.foldl_cons, ← isExact, List.foldlM_cons, taken]
      exact inductionHypothesis fit

/-- A result that does not fit ends the fold. -/
theorem foldlM_of_not_partialsFit {start : Int64}
    (beyond : ¬PartialsFit operation.onInts start.toInt ints) :
    (ints.map Value.int).foldlM (combine function operation) (.int start)
      = .error (overflow function) := by
  induction ints generalizing start with
  | nil => exact absurd (partialsFit_nil start) beyond
  | cons first others inductionHypothesis =>
      rw [List.map_cons, List.foldlM_cons]
      by_cases fits : Fits (operation.onInts start.toInt first.toInt)
      · obtain ⟨reached, isExact, taken⟩ := combine_of_fits function operation fits
        rw [partialsFit_cons, ← isExact] at beyond
        rw [taken]
        exact inductionHypothesis beyond
      · rw [combine_of_not_fits function operation fits]
        rfl

/-- From a float on, the fold gives a float. -/
theorem foldlM_float (start : Float) (numbers : ∀ argument ∈ arguments, argument.IsNumber) :
    ∃ number, arguments.foldlM (combine function operation) (.float start)
      = .ok (.float number) := by
  induction arguments generalizing start with
  | nil => exact ⟨start, rfl⟩
  | cons first others inductionHypothesis =>
      obtain ⟨isNumber, numbers⟩ := List.forall_mem_cons.mp numbers
      obtain ⟨reached, taken⟩ := combine_float_left function operation start isNumber
      rw [List.foldlM_cons, taken]
      exact inductionHypothesis reached numbers

/-- The fold gets no further than a value that is no number. -/
theorem foldlM_of_not_isNumber (isNumber : value.IsNumber) (member : argument ∈ arguments)
    (other : ¬argument.IsNumber) :
    ∃ problem, arguments.foldlM (combine function operation) value = .error problem := by
  induction arguments generalizing value with
  | nil => cases member
  | cons first others inductionHypothesis =>
      rw [List.foldlM_cons]
      cases taken : combine function operation value first with
      | error problem => exact ⟨problem, rfl⟩
      | ok reached =>
          rcases List.mem_cons.mp member with rfl | later
          · rw [combine_of_not_isNumber function operation isNumber other] at taken
            cases taken
          · exact inductionHypothesis (isNumber_of_combine function operation taken) later

/-! ## All arguments -/

/-- Numbers are integers up to the first float. -/
theorem exists_leading_ints (numbers : ∀ argument ∈ arguments, argument.IsNumber) :
    ∃ (ints : List Int64) (rest : List Value), arguments = ints.map .int ++ rest
      ∧ (rest = [] ∨ ∃ number others, rest = .float number :: others) := by
  induction arguments with
  | nil => exact ⟨[], [], rfl, .inl rfl⟩
  | cons first others inductionHypothesis =>
      obtain ⟨isNumber, laterNumbers⟩ := List.forall_mem_cons.mp numbers
      cases isNumber with
      | float number => exact ⟨[], _, rfl, .inr ⟨number, others, rfl⟩⟩
      | int number =>
          obtain ⟨ints, rest, rfl, ends⟩ := inductionHypothesis laterNumbers
          exact ⟨number :: ints, rest, rfl, ends⟩

theorem foldNumbers_ints (nonempty : ints ≠ [])
    (fit : ∀ front, front <+: ints → Fits (combined operation.onInts front)) :
    ∃ number : Int64, number.toInt = combined operation.onInts ints
      ∧ foldNumbers function operation (ints.map .int) = .ok (.int number) := by
  cases ints with
  | nil => exact absurd rfl nonempty
  | cons first others => exact foldlM_of_partialsFit function operation (partialsFit_iff.mpr fit)

theorem foldNumbers_overflow (rest : List Value)
    (overflows : ∃ front, front <+: ints ∧ ¬Fits (combined operation.onInts front)) :
    foldNumbers function operation (ints.map .int ++ rest) = .error (overflow function) := by
  cases ints with
  | nil =>
      obtain ⟨front, isPrefix, beyond⟩ := overflows
      rw [List.prefix_nil.mp isPrefix] at beyond
      exact absurd (.of_int64 0) beyond
  | cons first others =>
      have beyond : ¬PartialsFit operation.onInts first.toInt others := by
        rw [partialsFit_iff]
        push Not
        exact overflows
      change (others.map Value.int ++ rest).foldlM (combine function operation) (.int first) = _
      rw [List.foldlM_append, foldlM_of_not_partialsFit function operation beyond]
      rfl

theorem foldNumbers_float {number : Float}
    (fit : ∀ front, front <+: ints → Fits (combined operation.onInts front))
    (numbers : ∀ argument ∈ arguments, argument.IsNumber) :
    ∃ result, foldNumbers function operation (ints.map .int ++ .float number :: arguments)
      = .ok (.float result) := by
  cases ints with
  | nil => exact foldlM_float function operation number numbers
  | cons first others =>
      obtain ⟨reached, -, taken⟩ :=
        foldlM_of_partialsFit function operation (partialsFit_iff.mpr fit)
      change ∃ result, (others.map Value.int ++ .float number :: arguments).foldlM
        (combine function operation) (.int first) = .ok (.float result)
      rw [List.foldlM_append, taken]
      exact foldlM_float function operation _ numbers

/-- Some argument is missing, is no number, or takes the combination out of range. -/
def Refused (onInts : Int → Int → Int) (arguments : List Value) : Prop :=
  arguments = [] ∨ (∃ argument ∈ arguments, ¬argument.IsNumber) ∨ Overflows onInts arguments

theorem foldNumbers_of_refused (refused : Refused operation.onInts arguments) :
    ∃ problem, foldNumbers function operation arguments = .error problem := by
  rcases refused with rfl | ⟨argument, member, other⟩ | ⟨ints, ⟨rest, rfl⟩, beyond⟩
  · exact ⟨_, rfl⟩
  · cases arguments with
    | nil => cases member
    | cons first others =>
        by_cases isNumber : first.IsNumber
        · obtain ⟨number, taken⟩ := expectNumber_of_isNumber isNumber function
          rw [foldNumbers, taken]
          rcases List.mem_cons.mp member with rfl | later
          · exact absurd isNumber other
          · exact foldlM_of_not_isNumber function operation isNumber later other
        · rw [foldNumbers, expectNumber_of_not_isNumber isNumber]
          exact ⟨_, rfl⟩
  · exact ⟨_, foldNumbers_overflow function operation rest ⟨ints, List.prefix_rfl, beyond⟩⟩

theorem foldNumbers_of_not_refused (accepted : ¬Refused operation.onInts arguments) :
    ((∃ ints : List Int64, arguments = ints.map .int)
        ∧ ∃ number, foldNumbers function operation arguments = .ok (.int number))
      ∨ ((∃ number, Value.float number ∈ arguments)
        ∧ ∃ number, foldNumbers function operation arguments = .ok (.float number)) := by
  obtain ⟨nonempty, numbers, within⟩ := by simpa only [Refused, not_or] using accepted
  push Not at numbers
  obtain ⟨ints, rest, rfl, ends⟩ := exists_leading_ints numbers
  have fit : ∀ front, front <+: ints → Fits (combined operation.onInts front) := by
    intro front isPrefix
    by_contra beyond
    exact within ⟨front, (isPrefix.map _).trans (List.prefix_append _ rest), beyond⟩
  rcases ends with rfl | ⟨number, others, rfl⟩
  · rw [List.append_nil] at nonempty ⊢
    obtain ⟨result, -, taken⟩ := foldNumbers_ints function operation
      (fun empty => nonempty (List.map_eq_nil_iff.mpr empty)) fit
    exact .inl ⟨⟨ints, rfl⟩, result, taken⟩
  · have later : ∀ argument ∈ others, argument.IsNumber := fun argument member =>
      numbers argument (List.mem_append_right _ (List.mem_cons_of_mem _ member))
    exact .inr ⟨⟨number, List.mem_append_right _ List.mem_cons_self⟩,
      foldNumbers_float function operation fit later⟩

/-! ## The checks before the fold -/

theorem expectCount_of_length {count : Nat} (right : arguments.length = count) :
    expectCount function arguments count = .ok () :=
  if_pos right

theorem expectCount_of_other {count : Nat} (other : arguments.length ≠ count) :
    ∃ problem, expectCount function arguments count = .error problem :=
  ⟨_, if_neg other⟩

theorem difference_of_two (two : arguments.length = 2) :
    difference arguments = quietly (foldNumbers "math.sub" subtraction arguments) := by
  rw [difference, expectCount_of_length "math.sub" two]
  rfl

theorem quotient_of_zero (two : arguments.length = 2) (zero : arguments[1]? = some (.int 0)) :
    quotient arguments = .error (.type "math.div" "a non-zero divisor" "0") := by
  rw [quotient, expectCount_of_length "math.div" two]
  exact if_pos zero

theorem quotient_of_nonzero (two : arguments.length = 2)
    (nonzero : arguments[1]? ≠ some (.int 0)) :
    quotient arguments = quietly (foldNumbers "math.div" division arguments) := by
  rw [quotient, expectCount_of_length "math.div" two]
  exact if_neg nonzero

/-! ## Integers only -/

/-- The answer is exactly this integer if there is room, and else the call overflows. -/
def GivesExactly (function : String) (room : Prop) (exact : Int)
    (given : Except LibraryError Answer) : Prop :=
  (room → ∃ number : Int64, number.toInt = exact ∧ given = .ok ⟨.int number, []⟩)
    ∧ (¬room → given = .error (overflow function))

theorem foldNumbers_givesExactly (nonempty : ints ≠ []) :
    GivesExactly function (∀ front, front <+: ints → Fits (combined operation.onInts front))
      (combined operation.onInts ints)
      (quietly (foldNumbers function operation (ints.map .int))) := by
  constructor
  · intro fit
    obtain ⟨number, isExact, taken⟩ := foldNumbers_ints function operation nonempty fit
    exact ⟨number, isExact, by rw [taken]; rfl⟩
  · intro beyond
    push Not at beyond
    have taken := foldNumbers_overflow function operation [] beyond
    rw [List.append_nil] at taken
    rw [taken]
    rfl

theorem sum_givesExactly (nonempty : ints ≠ []) :
    GivesExactly "math.add" (∀ front, front <+: ints → Fits (front.map Int64.toInt).sum)
      (ints.map Int64.toInt).sum (sum (ints.map .int)) := by
  simp only [← combined_add]
  exact foldNumbers_givesExactly "math.add" addition nonempty

theorem product_givesExactly (nonempty : ints ≠ []) :
    GivesExactly "math.mul" (∀ front, front <+: ints → Fits (front.map Int64.toInt).prod)
      (ints.map Int64.toInt).prod (product (ints.map .int)) := by
  have same : (∀ front, front <+: ints → Fits (front.map Int64.toInt).prod)
      ↔ ∀ front, front <+: ints → Fits (combined (· * ·) front) := by
    refine forall_congr' fun front => imp_congr_right fun _ => ?_
    cases front with
    | nil => exact iff_of_true (.of_int64 1) (.of_int64 0)
    | cons first others => rw [combined_mul (List.cons_ne_nil first others)]
  rw [same, ← combined_mul nonempty]
  exact foldNumbers_givesExactly "math.mul" multiplication nonempty

/-- Two integers are folded in one step. -/
theorem combine_givesExactly (left right : Int64) :
    GivesExactly function (Fits (operation.onInts left.toInt right.toInt))
      (operation.onInts left.toInt right.toInt)
      (quietly (foldNumbers function operation [.int left, .int right])) := by
  constructor
  · intro fits
    obtain ⟨number, isExact, taken⟩ := combine_of_fits function operation fits
    refine ⟨number, isExact, ?_⟩
    change quietly (List.foldlM (combine function operation) (.int left) [.int right]) = _
    rw [List.foldlM_cons, taken]
    rfl
  · intro beyond
    change quietly (List.foldlM (combine function operation) (.int left) [.int right]) = _
    rw [List.foldlM_cons, combine_of_not_fits function operation beyond]
    rfl

/-- The only quotient out of range is that of the least integer by minus one. -/
theorem fits_tdiv {left right : Int64} :
    Fits (left.toInt.tdiv right.toInt) ↔ ¬(left = Int64.minValue ∧ right = -1) := by
  constructor
  · rintro fits ⟨rfl, rfl⟩
    exact absurd fits.2 (by decide)
  · intro inRange
    rcases not_and_or.mp inRange with notLeast | notMinusOne
    · rw [← Int64.toInt_div_of_ne_left left right notLeast]
      exact .of_int64 _
    · rw [← Int64.toInt_div_of_ne_right left right notMinusOne]
      exact .of_int64 _

end Folding

/-! ## The four functions -/

/-- The functions of arithmetic that combine their arguments. -/
inductive Arithmetic where
  | sum
  | product
  | difference
  | quotient

namespace Arithmetic

def name : Arithmetic → String
  | .sum => "math.add"
  | .product => "math.mul"
  | .difference => "math.sub"
  | .quotient => "math.div"

def run : Arithmetic → NativeFunction
  | .sum => Library.sum
  | .product => Library.product
  | .difference => Library.difference
  | .quotient => Library.quotient

def operation : Arithmetic → Operation
  | .sum => addition
  | .product => multiplication
  | .difference => subtraction
  | .quotient => division

/-- The numbers of arguments that a function accepts. -/
def Accepts : Arithmetic → Nat → Prop
  | .sum, count | .product, count => 1 ≤ count
  | .difference, count | .quotient, count => count = 2

/-- The second argument is the divisor, and is the integer zero. -/
def DividesByZero (which : Arithmetic) (arguments : List Value) : Prop :=
  which = .quotient ∧ arguments[1]? = some (.int 0)

/-- The reasons for which a call fails. -/
inductive Refuses (which : Arithmetic) (arguments : List Value) : Prop where
  | count (other : ¬which.Accepts arguments.length)
  | notANumber (argument : Value) (member : argument ∈ arguments) (other : ¬argument.IsNumber)
  | zeroDivisor (zero : which.DividesByZero arguments)
  | overflow (overflows : Overflows which.operation.onInts arguments)

variable {which : Arithmetic} {arguments : List Value}

theorem run_of_not_accepts (other : ¬which.Accepts arguments.length) :
    ∃ problem, which.run arguments = .error problem := by
  cases which with
  | sum | product =>
      cases arguments with
      | nil => exact ⟨_, rfl⟩
      | cons first others => exact absurd (Nat.succ_pos _) other
  | difference =>
      obtain ⟨problem, refused⟩ := expectCount_of_other "math.sub" other
      exact ⟨problem, by rw [run, Library.difference, refused]; rfl⟩
  | quotient =>
      obtain ⟨problem, refused⟩ := expectCount_of_other "math.div" other
      exact ⟨problem, by rw [run, Library.quotient, refused]; rfl⟩

/-- What passes the checks is folded. -/
theorem run_of_accepts (accepts : which.Accepts arguments.length)
    (nonzero : ¬which.DividesByZero arguments) :
    which.run arguments = quietly (foldNumbers which.name which.operation arguments) := by
  cases which with
  | sum | product => rfl
  | difference => exact difference_of_two accepts
  | quotient => exact quotient_of_nonzero accepts fun zero => nonzero ⟨rfl, zero⟩

theorem run_of_refuses (refuses : which.Refuses arguments) :
    ∃ problem, which.run arguments = .error problem := by
  by_cases accepts : which.Accepts arguments.length
  · by_cases zero : which.DividesByZero arguments
    · obtain ⟨rfl, zero⟩ := zero
      exact ⟨_, quotient_of_zero accepts zero⟩
    · have refused : Refused which.operation.onInts arguments := by
        cases refuses with
        | count other => exact absurd accepts other
        | notANumber argument member other => exact .inr (.inl ⟨argument, member, other⟩)
        | zeroDivisor zero' => exact absurd zero' zero
        | overflow overflows => exact .inr (.inr overflows)
      obtain ⟨problem, taken⟩ := foldNumbers_of_refused which.name which.operation refused
      exact ⟨problem, by rw [run_of_accepts accepts zero, taken]; rfl⟩
  · exact run_of_not_accepts accepts

/-- A call that nothing refuses gives an integer if all arguments are integers, and a float if one
of them is a float. -/
theorem run_of_not_refuses (granted : ¬which.Refuses arguments) :
    ((∃ ints : List Int64, arguments = ints.map .int)
        ∧ ∃ number, which.run arguments = .ok ⟨.int number, []⟩)
      ∨ ((∃ number, Value.float number ∈ arguments)
        ∧ ∃ number, which.run arguments = .ok ⟨.float number, []⟩) := by
  have accepts : which.Accepts arguments.length := by
    by_contra other
    exact granted (.count other)
  have nonempty : arguments ≠ [] := by
    rintro rfl
    cases which <;> simp [Accepts] at accepts
  have accepted : ¬Refused which.operation.onInts arguments := by
    rintro (empty | ⟨argument, member, other⟩ | overflows)
    · exact nonempty empty
    · exact granted (.notANumber argument member other)
    · exact granted (.overflow overflows)
  rw [run_of_accepts accepts fun zero => granted (.zeroDivisor zero)]
  rcases foldNumbers_of_not_refused which.name which.operation accepted with
    ⟨allInts, number, taken⟩ | ⟨someFloat, number, taken⟩
  · exact .inl ⟨allInts, number, by rw [taken]; rfl⟩
  · exact .inr ⟨someFloat, number, by rw [taken]; rfl⟩

theorem run_eq_error_iff :
    (∃ problem, which.run arguments = .error problem) ↔ which.Refuses arguments := by
  refine ⟨fun ⟨problem, refused⟩ => ?_, run_of_refuses⟩
  by_contra granted
  rcases run_of_not_refuses granted with ⟨-, number, taken⟩ | ⟨-, number, taken⟩ <;>
    exact absurd (refused.symm.trans taken) (by simp)

theorem run_of_ints (granted : ¬which.Refuses arguments)
    (allInts : ∀ argument ∈ arguments, ∃ number, argument = .int number) :
    ∃ number, which.run arguments = .ok ⟨.int number, []⟩ := by
  rcases run_of_not_refuses granted with ⟨-, given⟩ | ⟨⟨number, member⟩, -⟩
  · exact given
  · obtain ⟨_, same⟩ := allInts _ member
    cases same

theorem run_of_float (granted : ¬which.Refuses arguments)
    (someFloat : ∃ number, .float number ∈ arguments) :
    ∃ number, which.run arguments = .ok ⟨.float number, []⟩ := by
  rcases run_of_not_refuses granted with ⟨⟨ints, rfl⟩, -⟩ | ⟨-, given⟩
  · obtain ⟨number, member⟩ := someFloat
    obtain ⟨_, -, same⟩ := List.mem_map.mp member
    cases same
  · exact given

end Arithmetic

end Library

namespace Registry

open Library

/-- The arithmetic of the standard registry is exact on integers or fails, and it fails for no other
reason than those of `Arithmetic.Refuses`. -/
theorem standard_calculates :
    (∀ which : Arithmetic, standard.function? which.name = some which.run)
      ∧ (∀ ints : List Int64, ints ≠ [] →
        GivesExactly "math.add" (∀ front, front <+: ints → Fits (front.map Int64.toInt).sum)
            (ints.map Int64.toInt).sum (Arithmetic.sum.run (ints.map .int))
          ∧ GivesExactly "math.mul" (∀ front, front <+: ints → Fits (front.map Int64.toInt).prod)
            (ints.map Int64.toInt).prod (Arithmetic.product.run (ints.map .int)))
      ∧ (∀ left right : Int64,
        GivesExactly "math.sub" (Fits (left.toInt - right.toInt)) (left.toInt - right.toInt)
          (Arithmetic.difference.run [.int left, .int right]))
      ∧ (∀ left right : Int64, right ≠ 0 →
        GivesExactly "math.div" (¬(left = Int64.minValue ∧ right = -1))
          (left.toInt.tdiv right.toInt) (Arithmetic.quotient.run [.int left, .int right]))
      ∧ (∀ left : Int64, Arithmetic.quotient.run [.int left, .int 0]
        = .error (.type "math.div" "a non-zero divisor" "0"))
      ∧ (∀ (which : Arithmetic) (arguments : List Value),
        ((∃ problem, which.run arguments = .error problem) ↔ which.Refuses arguments)
          ∧ (¬which.Refuses arguments →
            ((∀ argument ∈ arguments, ∃ number, argument = .int number) →
                ∃ number, which.run arguments = .ok ⟨.int number, []⟩)
              ∧ ((∃ number, .float number ∈ arguments) →
                ∃ number, which.run arguments = .ok ⟨.float number, []⟩))) := by
  refine ⟨fun which => by cases which <;> rfl, fun ints nonempty => ?_, fun left right => ?_,
    fun left right nonzero => ?_, fun left => quotient_of_zero rfl rfl, fun which arguments => ?_⟩
  · exact ⟨sum_givesExactly nonempty, product_givesExactly nonempty⟩
  · exact combine_givesExactly "math.sub" subtraction left right
  · have other : [Value.int left, .int right][1]? ≠ some (.int 0) := by
      intro zero
      cases zero
      exact nonzero rfl
    rw [← fits_tdiv]
    change GivesExactly _ _ _ (quotient _)
    rw [quotient_of_nonzero rfl other]
    exact combine_givesExactly "math.div" division left right
  · exact ⟨Arithmetic.run_eq_error_iff, fun granted =>
      ⟨Arithmetic.run_of_ints granted, Arithmetic.run_of_float granted⟩⟩

/-- The sum of all three integers would fit, but not that of the first two. -/
theorem standard_calculates_beyondGreatest :
    [Int64.maxValue, 1, -1] ≠ []
      ∧ ¬(∀ front, front <+: [Int64.maxValue, 1, -1] → Fits (front.map Int64.toInt).sum)
      ∧ Arithmetic.sum.run [.int Int64.maxValue, .int 1, .int (-1)]
        = .error (overflow "math.add") := by
  have nonempty : [Int64.maxValue, 1, -1] ≠ [] := by decide
  have beyond :
      ¬(∀ front, front <+: [Int64.maxValue, 1, -1] → Fits (front.map Int64.toInt).sum) :=
    fun all => absurd (all [Int64.maxValue, 1] ⟨[-1], rfl⟩).2 (by decide)
  exact ⟨nonempty, beyond, (standard_calculates.2.1 _ nonempty).1.2 beyond⟩

end Registry

end MachineScript
