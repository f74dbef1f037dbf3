import Mathlib.Algebra.Order.BigOperators.Group.List
import Mathlib.Tactic.LinearCombination
import BsvCost.Harness

/-!
# Fitting the linear hash model

`analyze_hash_linearity` of `bench_hash_ops.cpp` fits `cost(n) = c0 + c1 * n` by least squares
to the median cycles measured for one opcode, the form of a `LINEAR` entry of the cost model,
and rates the fit by `R²`. The model evaluates the function's formulas in exact arithmetic:
doubles are rationals, and a quotient by zero, `inf` or `nan` in C++, is `none` (`divD`);
`x * y` and `x * x` are `uint64_t` products (`mul64`). The results below are about this exact
fit. The program rounds every sum and quotient to a double and prints six significant digits,
so what it prints can differ from the exact fit: at the sizes `2^31` and `2^31 + 1` the rounded
slope denominator is `0` and it prints infinities and `nan`, where the exact fit is finite.

* `foldl_regressionSums_zero`, `analyzeHashLinearity_of_slope`: with no product wrapping the
  first loop adds up the exact sums, and the fit is their slope and intercept.
* `slope_denominator_pos`, `normal_equations`: two different sizes make the slope a number,
  and the fitted line's residuals then sum to zero, also weighted by the sizes.
* `analyzeHashLinearity_leastSquares`: so no line has a smaller squared error.
* `analyzeHashLinearity_of_line`, `analyzeHashLinearity_linearModel`: results on a line give the
  line back, rated `R² = 1`; in particular the medians a linear cost model charges give back
  its coefficients.
-/

namespace Bsv.Cost

/-- `uint64_t` multiplication. -/
def mul64 (a b : Nat) : Nat := a * b % 2 ^ 64

/-- The points `(input_bytes, median_cycles)` of the results for one opcode, in their order. -/
def hashPoints (results : List BenchResult) (opcodeName : String) : List (Nat × Nat) :=
  (results.filter fun r => r.opcode == opcodeName).map fun r => (r.inputBytes, r.medianCycles)

/-- `sum_x`, `sum_y`, `sum_xy` and `sum_xx`. -/
structure RegressionSums where
  sumX : ℚ
  sumY : ℚ
  sumXy : ℚ
  sumXx : ℚ

/-- One round of the first loop over the points. -/
def RegressionSums.add (s : RegressionSums) (p : Nat × Nat) : RegressionSums where
  sumX := s.sumX + p.1
  sumY := s.sumY + p.2
  sumXy := s.sumXy + mul64 p.1 p.2
  sumXx := s.sumXx + mul64 p.1 p.1

/-- A quotient of doubles: `none` where the divisor is zero, so that the C++ quotient is
`inf` or `nan` and what is printed is not a number. -/
def divD (x y : ℚ) : Option ℚ := if y = 0 then none else some (x / y)

/-- `c1 = (n * sum_xy - sum_x * sum_y) / (n * sum_xx - sum_x * sum_x)`. -/
def RegressionSums.slope (s : RegressionSums) (n : ℚ) : Option ℚ :=
  divD (n * s.sumXy - s.sumX * s.sumY) (n * s.sumXx - s.sumX * s.sumX)

/-- `c0 = (sum_y - c1 * sum_x) / n`. -/
def RegressionSums.intercept (s : RegressionSums) (n c1 : ℚ) : Option ℚ :=
  divD (s.sumY - c1 * s.sumX) n

/-- The fit `analyze_hash_linearity` computes and prints: the base cost, the per-byte cost and
`R²`, each `none` where it is not a number. -/
structure LinearFit where
  c0 : Option ℚ
  c1 : Option ℚ
  rSquared : Option ℚ
  deriving DecidableEq, Repr

/-- `analyze_hash_linearity`, its formulas evaluated in exact arithmetic; `none` where it
returns early, on fewer than two points. A non-finite `c0` or `c1` makes every prediction, so
`ss_res` and `R²`, non-finite. -/
def analyzeHashLinearity (results : List BenchResult) (opcodeName : String) :
    Option LinearFit :=
  let points := hashPoints results opcodeName
  if points.length < 2 then none else
  let s := points.foldl RegressionSums.add ⟨0, 0, 0, 0⟩
  let n : ℚ := points.length
  let c1 := s.slope n
  let c0 := c1.bind (s.intercept n)
  let meanY := s.sumY / n
  let rSquared := do
    let c0 ← c0
    let c1 ← c1
    -- `(ss_tot, ss_res)`
    let ss := points.foldl (fun (ss : ℚ × ℚ) (p : Nat × Nat) =>
      let yPred := c0 + c1 * p.1
      (ss.1 + (p.2 - meanY) * (p.2 - meanY), ss.2 + (p.2 - yPred) * (p.2 - yPred))) (0, 0)
    (divD ss.2 ss.1).map fun q => 1 - q
  some { c0 := c0, c1 := c1, rSquared := rSquared }

theorem divD_of_ne {x y : ℚ} (h : y ≠ 0) : divD x y = some (x / y) := if_neg h

/-! ## The loops add up exact sums -/

/-- The four sums over the points, exactly. -/
def RegressionSums.ofPoints (points : List (Nat × Nat)) : RegressionSums where
  sumX := (points.map fun p => (p.1 : ℚ)).sum
  sumY := (points.map fun p => (p.2 : ℚ)).sum
  sumXy := (points.map fun p => (p.1 : ℚ) * p.2).sum
  sumXx := (points.map fun p => (p.1 : ℚ) * p.1).sum

/-- No product `x * y` or `x * x` of the points wraps. -/
def NoWrap (points : List (Nat × Nat)) : Prop :=
  ∀ p ∈ points, p.1 * p.2 < 2 ^ 64 ∧ p.1 * p.1 < 2 ^ 64

theorem foldl_regressionSums : ∀ (points : List (Nat × Nat)) (s : RegressionSums),
    NoWrap points →
    points.foldl RegressionSums.add s =
      ⟨s.sumX + (RegressionSums.ofPoints points).sumX,
        s.sumY + (RegressionSums.ofPoints points).sumY,
        s.sumXy + (RegressionSums.ofPoints points).sumXy,
        s.sumXx + (RegressionSums.ofPoints points).sumXx⟩
  | [], s, _ => by simp [RegressionSums.ofPoints]
  | p :: points, s, h => by
    obtain ⟨hxy, hxx⟩ := h p (List.mem_cons_self _ _)
    rw [List.foldl_cons, foldl_regressionSums points _ fun q hq => h q (List.mem_cons_of_mem _ hq)]
    simp only [RegressionSums.add, RegressionSums.ofPoints, mul64, Nat.mod_eq_of_lt hxy,
      Nat.mod_eq_of_lt hxx, List.map_cons, List.sum_cons, Nat.cast_mul, add_assoc]

theorem foldl_add_pair {α : Type} (f g : α → ℚ) : ∀ (l : List α) (a b : ℚ),
    l.foldl (fun ss x => (ss.1 + f x, ss.2 + g x)) (a, b) = (a + (l.map f).sum, b + (l.map g).sum)
  | [], a, b => by simp
  | x :: l, a, b => by
    rw [List.foldl_cons, foldl_add_pair f g l, List.map_cons, List.map_cons, List.sum_cons,
      List.sum_cons, add_assoc, add_assoc]

theorem foldl_regressionSums_zero {points : List (Nat × Nat)} (hw : NoWrap points) :
    points.foldl RegressionSums.add ⟨0, 0, 0, 0⟩ = RegressionSums.ofPoints points := by
  rw [foldl_regressionSums points _ hw]
  simp only [zero_add]

/-- The squared error of the line `a + b * x` over the points. -/
def squaredError (points : List (Nat × Nat)) (a b : ℚ) : ℚ :=
  (points.map fun p => ((p.2 : ℚ) - (a + b * p.1)) ^ 2).sum

/-- With no product wrapping, on two points or more, a finite slope and intercept of the exact
sums are the fit's costs, and `R²` rates their squared error against the squared deviations of
the medians from their mean. -/
theorem analyzeHashLinearity_of_slope {results : List BenchResult} {opcodeName : String}
    {points : List (Nat × Nat)} (hp : hashPoints results opcodeName = points)
    (h2 : 2 ≤ points.length) (hw : NoWrap points) {c0 c1 : ℚ}
    (h1 : (RegressionSums.ofPoints points).slope points.length = some c1)
    (h0 : (RegressionSums.ofPoints points).intercept points.length c1 = some c0) :
    analyzeHashLinearity results opcodeName = some
      { c0 := some c0, c1 := some c1,
        rSquared := (divD (squaredError points c0 c1)
          (points.map fun p => ((p.2 : ℚ) - (RegressionSums.ofPoints points).sumY /
            points.length) ^ 2).sum).map fun q => 1 - q } := by
  simp only [analyzeHashLinearity, hp, if_neg (Nat.not_lt.2 h2), foldl_regressionSums_zero hw,
    h1, h0, Option.some_bind, Option.bind_eq_bind, foldl_add_pair, zero_add, squaredError, sq]

/-! ## Least squares -/

section LeastSquares

variable (points : List (Nat × Nat))

theorem sum_residual (c d : ℚ) :
    (points.map fun p => (p.2 : ℚ) - (c + d * p.1)).sum =
      (RegressionSums.ofPoints points).sumY - points.length * c -
        d * (RegressionSums.ofPoints points).sumX := by
  induction points with
  | nil => simp [RegressionSums.ofPoints]
  | cons p points ih =>
    simp only [RegressionSums.ofPoints, List.map_cons, List.sum_cons, List.length_cons] at ih ⊢
    rw [ih]
    push_cast
    ring

theorem sum_residual_mul (c d : ℚ) :
    (points.map fun p => ((p.2 : ℚ) - (c + d * p.1)) * p.1).sum =
      (RegressionSums.ofPoints points).sumXy - c * (RegressionSums.ofPoints points).sumX -
        d * (RegressionSums.ofPoints points).sumXx := by
  induction points with
  | nil => simp [RegressionSums.ofPoints]
  | cons p points ih =>
    simp only [RegressionSums.ofPoints, List.map_cons, List.sum_cons] at ih ⊢
    rw [ih]
    ring

/-- The squared error of any line is that of `c + d * x`, plus the cross terms with its
residuals, plus the squared gap between the two lines. -/
theorem squaredError_eq (a b c d : ℚ) :
    squaredError points a b = squaredError points c d +
      2 * (c - a) * (points.map fun p => (p.2 : ℚ) - (c + d * p.1)).sum +
      2 * (d - b) * (points.map fun p => ((p.2 : ℚ) - (c + d * p.1)) * p.1).sum +
      (points.map fun p => ((c - a) + (d - b) * p.1) ^ 2).sum := by
  induction points with
  | nil => simp [squaredError]
  | cons p points ih =>
    simp only [squaredError, List.map_cons, List.sum_cons] at ih ⊢
    rw [ih]
    ring

/-- A line whose residuals sum to zero, also weighted by the sizes, has the least squared
error. -/
theorem squaredError_le_of_normal {c d : ℚ}
    (h₀ : (points.map fun p => (p.2 : ℚ) - (c + d * p.1)).sum = 0)
    (h₁ : (points.map fun p => ((p.2 : ℚ) - (c + d * p.1)) * p.1).sum = 0) (a b : ℚ) :
    squaredError points c d ≤ squaredError points a b := by
  have hsq : 0 ≤ (points.map fun p => ((c - a) + (d - b) * p.1) ^ 2).sum :=
    List.sum_nonneg fun x hx => by
      obtain ⟨p, -, rfl⟩ := List.mem_map.1 hx
      positivity
  rw [squaredError_eq points a b c d, h₀, h₁]
  linarith

theorem sum_sq_sub (m : ℚ) :
    (points.map fun p => ((p.1 : ℚ) - m) ^ 2).sum =
      (RegressionSums.ofPoints points).sumXx - 2 * m * (RegressionSums.ofPoints points).sumX +
        points.length * m ^ 2 := by
  induction points with
  | nil => simp [RegressionSums.ofPoints]
  | cons p points ih =>
    simp only [RegressionSums.ofPoints, List.map_cons, List.sum_cons, List.length_cons] at ih ⊢
    rw [ih]
    push_cast
    ring

/-- Squared deviations from any value are positive once two points differ in what is
measured. -/
theorem sum_sq_sub_pos (f : Nat × Nat → ℚ) (m : ℚ) {p q : Nat × Nat} (hp : p ∈ points)
    (hq : q ∈ points) (hpq : f p ≠ f q) : 0 < (points.map fun p => (f p - m) ^ 2).sum := by
  have hnonneg : ∀ x ∈ points.map fun p => (f p - m) ^ 2, 0 ≤ x := fun x hx => by
    obtain ⟨p, -, rfl⟩ := List.mem_map.1 hx
    positivity
  -- one of the two is off `m`
  obtain ⟨r, hr, hrm⟩ : ∃ r ∈ points, f r ≠ m := by
    by_contra! h
    exact hpq ((h p hp).trans (h q hq).symm)
  exact (sq_pos_of_ne_zero (sub_ne_zero.2 hrm)).trans_le
    (List.single_le_sum hnonneg _ (List.mem_map_of_mem (fun p => (f p - m) ^ 2) hr))

/-- Two points of different sizes make the slope's denominator `n Σx² - (Σx)²` positive: it is
`n` times the squared deviations of the sizes from their mean. -/
theorem slope_denominator_pos {p q : Nat × Nat} (hp : p ∈ points) (hq : q ∈ points)
    (hpq : p.1 ≠ q.1) :
    0 < points.length * (RegressionSums.ofPoints points).sumXx -
      (RegressionSums.ofPoints points).sumX * (RegressionSums.ofPoints points).sumX := by
  have hn : (0 : ℚ) < points.length := by exact_mod_cast List.length_pos_of_mem hp
  have hdev := sum_sq_sub_pos points (fun p => (p.1 : ℚ))
    ((RegressionSums.ofPoints points).sumX / points.length) hp hq (by simpa using hpq)
  rw [sum_sq_sub] at hdev
  -- `n` times the deviations is the denominator, as `n * (Σx / n) = Σx`
  have hm : (points.length : ℚ) * ((RegressionSums.ofPoints points).sumX / points.length) =
      (RegressionSums.ofPoints points).sumX := mul_div_cancel₀ _ hn.ne'
  calc (0 : ℚ) < points.length * ((RegressionSums.ofPoints points).sumXx -
        2 * ((RegressionSums.ofPoints points).sumX / points.length) *
          (RegressionSums.ofPoints points).sumX +
        points.length * ((RegressionSums.ofPoints points).sumX / points.length) ^ 2) :=
      mul_pos hn hdev
    _ = _ := by
      linear_combination (points.length * ((RegressionSums.ofPoints points).sumX /
        points.length) - (RegressionSums.ofPoints points).sumX) * hm

/-- The slope and intercept of exact sums, on two sizes or more, solve the normal equations:
the residuals sum to zero, also weighted by the sizes. -/
theorem normal_equations (hn : (points.length : ℚ) ≠ 0)
    (hD : (points.length : ℚ) * (RegressionSums.ofPoints points).sumXx -
      (RegressionSums.ofPoints points).sumX * (RegressionSums.ofPoints points).sumX ≠ 0)
    {c0 c1 : ℚ} (h1 : (RegressionSums.ofPoints points).slope points.length = some c1)
    (h0 : (RegressionSums.ofPoints points).intercept points.length c1 = some c0) :
    (points.map fun p => (p.2 : ℚ) - (c0 + c1 * p.1)).sum = 0 ∧
    (points.map fun p => ((p.2 : ℚ) - (c0 + c1 * p.1)) * p.1).sum = 0 := by
  rw [RegressionSums.slope, divD_of_ne hD, Option.some.injEq, div_eq_iff hD] at h1
  rw [RegressionSums.intercept, divD_of_ne hn, Option.some.injEq, div_eq_iff hn] at h0
  rw [sum_residual, sum_residual_mul]
  refine ⟨by linear_combination h0, ?_⟩
  -- `n` times the weighted sum is `h1` with `h0` put in
  refine (mul_eq_zero.1 ?_).resolve_left hn
  linear_combination h1 + (RegressionSums.ofPoints points).sumX * h0

/-- On a line, the sums are those of the line: `Σy = n a + b Σx` and `Σxy = a Σx + b Σx²`. -/
theorem sums_of_line {a b : ℚ} (hline : ∀ p ∈ points, (p.2 : ℚ) = a + b * p.1) :
    (RegressionSums.ofPoints points).sumY =
        points.length * a + b * (RegressionSums.ofPoints points).sumX ∧
      (RegressionSums.ofPoints points).sumXy =
        a * (RegressionSums.ofPoints points).sumX + b * (RegressionSums.ofPoints points).sumXx := by
  have h₀ := sum_residual points a b
  have h₁ := sum_residual_mul points a b
  rw [List.sum_eq_zero fun x hx => by
    obtain ⟨p, hp, rfl⟩ := List.mem_map.1 hx
    simp [← hline p hp]] at h₀ h₁
  constructor <;> linarith

end LeastSquares

theorem mem_hashPoints {results : List BenchResult} {opcodeName : String} {p : Nat × Nat} :
    p ∈ hashPoints results opcodeName ↔
      ∃ r ∈ results, r.opcode = opcodeName ∧ (r.inputBytes, r.medianCycles) = p := by
  simp [hashPoints, and_assoc]

theorem two_le_length_of_mem {α : Type} {l : List α} {a b : α} (ha : a ∈ l) (hb : b ∈ l)
    (hab : a ≠ b) : 2 ≤ l.length := by
  rcases l with _ | ⟨x, _ | ⟨y, l⟩⟩
  · simp at ha
  · simp only [List.mem_singleton] at ha hb
    exact absurd (ha.trans hb.symm) hab
  · simp

section Fit

variable {results : List BenchResult} {opcodeName : String}

/-- What the fit needs of the results for one opcode: no product wraps, and two of them have
different input sizes. -/
theorem fit_setup
    (hw : ∀ r ∈ results, r.opcode = opcodeName →
      r.inputBytes * r.medianCycles < 2 ^ 64 ∧ r.inputBytes * r.inputBytes < 2 ^ 64)
    {r r' : BenchResult} (hr : r ∈ results) (hr' : r' ∈ results) (ho : r.opcode = opcodeName)
    (ho' : r'.opcode = opcodeName) (hne : r.inputBytes ≠ r'.inputBytes) :
    let points := hashPoints results opcodeName
    NoWrap points ∧ 2 ≤ points.length ∧ (points.length : ℚ) ≠ 0 ∧
      0 < points.length * (RegressionSums.ofPoints points).sumXx -
        (RegressionSums.ofPoints points).sumX * (RegressionSums.ofPoints points).sumX := by
  have hp := mem_hashPoints.2 ⟨r, hr, ho, rfl⟩
  have hq := mem_hashPoints.2 ⟨r', hr', ho', rfl⟩
  refine ⟨fun p hp => ?_, two_le_length_of_mem hp hq fun h => hne (congrArg Prod.fst h),
    by exact_mod_cast (List.length_pos_of_mem hp).ne', slope_denominator_pos _ hp hq hne⟩
  obtain ⟨r, hr, ho, rfl⟩ := mem_hashPoints.1 hp
  exact hw r hr ho

/-- The formulas of `analyze_hash_linearity`, in exact arithmetic, fit the least-squares line.
For every list of results and every opcode, if no product `x * y` or `x * x` of the opcode's
points wraps and two of its results have different input sizes, the exact base and per-byte
costs are numbers, and no line `a + b * n` has a smaller squared error over the points. -/
theorem analyzeHashLinearity_leastSquares (results : List BenchResult) (opcodeName : String)
    (hw : ∀ r ∈ results, r.opcode = opcodeName →
      r.inputBytes * r.medianCycles < 2 ^ 64 ∧ r.inputBytes * r.inputBytes < 2 ^ 64)
    (hsizes : ∃ r ∈ results, ∃ r' ∈ results, r.opcode = opcodeName ∧ r'.opcode = opcodeName ∧
      r.inputBytes ≠ r'.inputBytes) :
    ∃ c0 c1 rSquared,
      analyzeHashLinearity results opcodeName = some ⟨some c0, some c1, rSquared⟩ ∧
      ∀ a b : ℚ, squaredError (hashPoints results opcodeName) c0 c1 ≤
        squaredError (hashPoints results opcodeName) a b := by
  obtain ⟨r, hr, r', hr', ho, ho', hne⟩ := hsizes
  obtain ⟨hnw, h2, hn, hD⟩ := fit_setup hw hr hr' ho ho' hne
  set points := hashPoints results opcodeName with hp
  obtain ⟨c1, h1⟩ : ∃ c1, (RegressionSums.ofPoints points).slope points.length = some c1 :=
    ⟨_, divD_of_ne hD.ne'⟩
  obtain ⟨c0, h0⟩ : ∃ c0, (RegressionSums.ofPoints points).intercept points.length c1 = some c0 :=
    ⟨_, divD_of_ne hn⟩
  obtain ⟨hr₀, hr₁⟩ := normal_equations points hn hD.ne' h1 h0
  exact ⟨c0, c1, _, analyzeHashLinearity_of_slope hp.symm h2 hnw h1 h0,
    squaredError_le_of_normal points hr₀ hr₁⟩

/-- Results on a line `a + b * n` with `b ≠ 0` give the line back, rated `R² = 1`, in exact
arithmetic. -/
theorem analyzeHashLinearity_of_line {a b : ℚ}
    (hline : ∀ r ∈ results, r.opcode = opcodeName → (r.medianCycles : ℚ) = a + b * r.inputBytes)
    (hb : b ≠ 0)
    (hw : ∀ r ∈ results, r.opcode = opcodeName →
      r.inputBytes * r.medianCycles < 2 ^ 64 ∧ r.inputBytes * r.inputBytes < 2 ^ 64)
    (hsizes : ∃ r ∈ results, ∃ r' ∈ results, r.opcode = opcodeName ∧ r'.opcode = opcodeName ∧
      r.inputBytes ≠ r'.inputBytes) :
    analyzeHashLinearity results opcodeName = some ⟨some a, some b, some 1⟩ := by
  obtain ⟨r, hr, r', hr', ho, ho', hne⟩ := hsizes
  obtain ⟨hnw, h2, hn, hD⟩ := fit_setup hw hr hr' ho ho' hne
  set points := hashPoints results opcodeName with hp
  have hline' : ∀ p ∈ points, (p.2 : ℚ) = a + b * p.1 := fun p hp => by
    obtain ⟨r, hr, ho, rfl⟩ := mem_hashPoints.1 hp
    exact hline r hr ho
  obtain ⟨hT, hU⟩ := sums_of_line points hline'
  have h1 : (RegressionSums.ofPoints points).slope points.length = some b := by
    rw [RegressionSums.slope, divD_of_ne hD.ne', hT, hU, Option.some.injEq, div_eq_iff hD.ne']
    ring
  have h0 : (RegressionSums.ofPoints points).intercept points.length b = some a := by
    rw [RegressionSums.intercept, divD_of_ne hn, hT, Option.some.injEq, div_eq_iff hn]
    ring
  have hres : squaredError points a b = 0 := List.sum_eq_zero fun x hx => by
    obtain ⟨p, hp, rfl⟩ := List.mem_map.1 hx
    simp [← hline' p hp]
  -- the medians at two different sizes differ, so the medians' squared deviations are positive
  have htot := sum_sq_sub_pos points (fun p => (p.2 : ℚ))
    ((RegressionSums.ofPoints points).sumY / points.length)
    (mem_hashPoints.2 ⟨r, hr, ho, rfl⟩) (mem_hashPoints.2 ⟨r', hr', ho', rfl⟩)
    (by simp [hline r hr ho, hline r' hr' ho', hb, hne])
  rw [analyzeHashLinearity_of_slope hp.symm h2 hnw h1 h0, hres, divD_of_ne htot.ne']
  simp

end Fit

/-- Three sizes measured for `OP_SHA256`, not on one line. -/
theorem analyzeHashLinearity_leastSquares_sha256 :
    ∃ c0 c1 rSquared,
      analyzeHashLinearity (([(1, 10), (64, 200), (512, 1500)] : List (Nat × Nat)).map fun p =>
        { opcode := "OP_SHA256", paramDesc := "", inputBytes := p.1, medianCycles := p.2,
          p90Cycles := p.2, p99Cycles := p.2, medianNs := 0, instructions := 0, ipc := 0,
          l1dMisses := 0, llcMisses := 0, branchMisses := 0, mallocCount := 0, allocBytes := 0 })
        "OP_SHA256" = some ⟨some c0, some c1, rSquared⟩ ∧
      ∀ a b : ℚ, squaredError [(1, 10), (64, 200), (512, 1500)] c0 c1 ≤
        squaredError [(1, 10), (64, 200), (512, 1500)] a b :=
  analyzeHashLinearity_leastSquares _ "OP_SHA256" (by decide) (by decide)

/-- The exact fit gives back the linear cost model the estimator charges by. For every cost
model whose entry for an opcode is `LINEAR` with whole coefficients, `c0 + c_alloc = k0` and
`c1 = k1 > 0`, and every list of results whose medians for a name are what `estimate` charges
that opcode at their input sizes, with two sizes different and no product wrapping, the
formulas of `analyze_hash_linearity`, in exact arithmetic, give `c0 + c_alloc` as the base
cost, `c1` as the per-byte cost and `R² = 1`. -/
theorem analyzeHashLinearity_linearModel (M : CostModel) (op : OpCode) {model : OpcodeCostModel}
    (hm : M.opcodeCosts op = some model) (hlin : model.type = .linear) (k0 k1 : Nat)
    (h0 : model.c0 + model.cAlloc = k0) (h1 : model.c1 = k1) (hk1 : 0 < k1)
    (results : List BenchResult) (opcodeName : String)
    (hcost : ∀ r ∈ results, r.opcode = opcodeName →
      r.medianCycles = calculateOpcodeCost M op [r.inputBytes])
    (hw : ∀ r ∈ results, r.opcode = opcodeName →
      r.inputBytes * r.medianCycles < 2 ^ 64 ∧ r.inputBytes * r.inputBytes < 2 ^ 64)
    (hsizes : ∃ r ∈ results, ∃ r' ∈ results, r.opcode = opcodeName ∧ r'.opcode = opcodeName ∧
      r.inputBytes ≠ r'.inputBytes) :
    analyzeHashLinearity results opcodeName =
      some ⟨some (model.c0 + model.cAlloc), some model.c1, some 1⟩ := by
  refine analyzeHashLinearity_of_line (fun r hr ho => ?_) (by rw [h1]; exact_mod_cast hk1.ne')
    hw hsizes
  have hc : model.c0 + model.c1 * r.inputBytes + model.cAlloc =
      ((k0 + k1 * r.inputBytes : Nat) : ℚ) := by
    push_cast
    rw [← h0, h1]
    ring
  simp only [hcost r hr ho, calculateOpcodeCost, hm, hlin, List.getD_cons_zero, hc,
    castU64_natCast]
  push_cast
  rw [← h0, h1]

/-- `OP_SHA256` priced at `50 + 3 n` cycles and measured at three sizes. -/
theorem analyzeHashLinearity_linearModel_sha256 :
    analyzeHashLinearity (([(1, 53), (64, 242), (512, 1586)] : List (Nat × Nat)).map fun p =>
        { opcode := "OP_SHA256", paramDesc := "", inputBytes := p.1, medianCycles := p.2,
          p90Cycles := p.2, p99Cycles := p.2, medianNs := 0, instructions := 0, ipc := 0,
          l1dMisses := 0, llcMisses := 0, branchMisses := 0, mallocCount := 0, allocBytes := 0 })
      "OP_SHA256" = some ⟨some (50 + 0), some 3, some 1⟩ :=
  analyzeHashLinearity_linearModel
    { opcodeCosts := fun _ => some { type := .linear, c0 := 50, c1 := 3 } }
    OpCode.opSha256 rfl rfl 50 3 (by norm_num) rfl (by decide) _ "OP_SHA256"
    (by with_unfolding_all decide) (by decide) (by decide)

end Bsv.Cost
