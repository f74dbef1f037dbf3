import Mathlib.Data.Nat.Digits
import BsvCost.CostModel

/-!
# The benchmark harness

`BenchmarkHarness::benchmark` and `calculate_stats` of `bench_harness.h` and
`bench_harness.cpp`. The hardware is an input: what `rdtsc` and the performance counters
answer around the `i`-th measured call is `measure i`. The timed operation is a transformer of
the state its closure captures by reference, failing where it throws. Doubles are rationals,
as in the cost model, and a `static_cast` to an unsigned type is `castU64`; the one conversion
that rounds here, a `uint64_t` sample stored as a double percentile, is `roundDouble`.

* `runOperation_of_fixed`: an operation that leaves its state as it found it runs any number
  of times, warm-up and measured calls alike.
* `roundDouble_of_lt`, `roundDouble_mono`: the conversion keeps every count below `2^53` and
  never reverses an order.
* `percentile_indices`: on `n > 0` samples the four indices `calculate_stats` reads are in
  order and in range, `n / 2 ≤ ⌊0.90 n⌋ ≤ ⌊0.95 n⌋ ≤ ⌊0.99 n⌋ < n`.
* `calculateStats_spec`: so on a non-empty vector it reads each percentile off the sorted
  samples; on an empty one its first read is past the end (`calculateStats_nil`).
* `benchmark_percentiles`: a benchmark that returns measured at least once, and reports
  `median_cycles ≤ p90_cycles ≤ p99_cycles`, each one measured call's cycle count as a double,
  which is the count itself below `2^53`.
-/

namespace Bsv.Cost

/-! ## Calling the operation -/

/-- `n` calls of `operation()` on the state it captures; `none` once a call throws. -/
def runOperation {σ : Type} (operation : σ → Option σ) : Nat → σ → Option σ
  | 0, s => some s
  | n + 1, s => (operation s).bind (runOperation operation n)

section Operation

variable {σ : Type} {operation : σ → Option σ}

theorem runOperation_of_fixed {s : σ} (h : operation s = some s) (n : Nat) :
    runOperation operation n s = some s := by
  induction n with
  | zero => rfl
  | succ n ih => rw [runOperation, h, Option.some_bind, ih]

end Operation

/-! ## A `uint64_t` as a double -/

/-- `n` rounded to a multiple of `2^e`, to the nearest one and on a tie to the one whose
quotient is even. -/
def roundAt (e n : Nat) : Nat :=
  (if 2 ^ e < 2 * (n % 2 ^ e) ∨ (2 * (n % 2 ^ e) = 2 ^ e ∧ n / 2 ^ e % 2 = 1) then
    n / 2 ^ e + 1 else n / 2 ^ e) * 2 ^ e

/-- The conversion of a `uint64_t` to a double: a double keeps the 53 leading bits of `n`, so
`n` is rounded to nearest, ties to even, at the bits below them. -/
def roundDouble (n : Nat) : Nat :=
  roundAt (n.log2 - 52) n

theorem roundAt_zero (n : Nat) : roundAt 0 n = n := by
  simp [roundAt, Nat.mod_one]

/-- A count below `2^53` is a double as it is. -/
theorem roundDouble_of_lt {n : Nat} (h : n < 2 ^ 53) : roundDouble n = n := by
  have he : n.log2 - 52 = 0 := by
    rcases Nat.eq_zero_or_pos n with rfl | hn
    · rw [Nat.log2_zero]
    · have := (Nat.log2_lt hn.ne').2 h
      omega
  rw [roundDouble, he, roundAt_zero]

/-- `Statistics`, without `stddev`: the square root of a double is outside the model, and no
caller reads it. `mean` is the exact quotient (the source sums in doubles), and no caller reads
it either. -/
structure Statistics where
  mean : ℚ
  median : ℚ
  p90 : ℚ
  p95 : ℚ
  p99 : ℚ
  deriving DecidableEq, Repr

/-- `BenchmarkHarness::calculate_stats`. It sorts `samples` in place (the sorted vector is
returned beside the statistics); a read past the end of the vector is `none`. The percentiles
are the samples stored in double fields, so rounded by `roundDouble`; the indices
`size() * 0.90` and so on are exact here, and the doubles' products floor to the same index
for every vector size below `2^50`. -/
def calculateStats (samples : List Nat) : Option (List Nat × Statistics) := do
  let samples := samples.mergeSort
  let mean : ℚ := samples.foldl (fun (acc : ℚ) (x : Nat) => acc + x) 0 / samples.length
  let median ← samples[samples.length / 2]?
  let p90 ← samples[castU64 (samples.length * 0.90)]?
  let p95 ← samples[castU64 (samples.length * 0.95)]?
  let p99 ← samples[castU64 (samples.length * 0.99)]?
  pure (samples,
    { mean := mean, median := roundDouble median, p90 := roundDouble p90, p95 := roundDouble p95,
      p99 := roundDouble p99 })

theorem castU64_le_of_le {k : Nat} {x : ℚ} (h : (k : ℚ) ≤ x) : k ≤ castU64 x := by
  have : (k : ℤ) ≤ ⌊x⌋ := Int.le_floor.2 (by exact_mod_cast h)
  unfold castU64
  omega

theorem castU64_lt_of_lt {k : Nat} {x : ℚ} (hk : 0 < k) (h : x < k) : castU64 x < k := by
  have : ⌊x⌋ < (k : ℤ) := Int.floor_lt.2 (by exact_mod_cast h)
  unfold castU64
  omega

/-- The four indices `calculate_stats` reads, in order and in range. -/
theorem percentile_indices {n : Nat} (hn : 0 < n) :
    n / 2 ≤ castU64 (n * 0.90) ∧ castU64 (n * 0.90) ≤ castU64 (n * 0.95) ∧
      castU64 (n * 0.95) ≤ castU64 (n * 0.99) ∧ castU64 (n * 0.99) < n := by
  have hq : (0 : ℚ) < n := by exact_mod_cast hn
  refine ⟨castU64_le_of_le ?_, castU64_mono ?_, castU64_mono ?_, castU64_lt_of_lt hn ?_⟩
  · calc ((n / 2 : Nat) : ℚ) ≤ (n : ℚ) / 2 := Nat.cast_div_le
      _ ≤ n * 0.90 := by linarith
  all_goals linarith

/-- A sorted list's entries grow with their index. -/
theorem getElem_mono_of_pairwise {l : List Nat}
    (hl : l.Pairwise fun a b => decide (a ≤ b) = true) {i j : Nat} (hij : i ≤ j)
    (hj : j < l.length) : l[i] ≤ l[j] := by
  rcases Nat.lt_or_eq_of_le hij with hlt | rfl
  · simpa using List.pairwise_iff_getElem.1 hl i j (by omega) hj hlt
  · exact le_rfl

/-- On a non-empty vector `calculate_stats` returns the sorted samples, and four of them, as
doubles, as the median and the 90th, 95th and 99th percentiles, in that order. -/
theorem calculateStats_spec {samples : List Nat} (h : samples ≠ []) :
    ∃ a b c d : Nat, (∃ mean, calculateStats samples = some (samples.mergeSort,
        { mean := mean, median := roundDouble a, p90 := roundDouble b, p95 := roundDouble c,
          p99 := roundDouble d })) ∧
      a ≤ b ∧ b ≤ c ∧ c ≤ d ∧
        a ∈ samples ∧ b ∈ samples ∧ c ∈ samples ∧ d ∈ samples := by
  have hperm : List.Perm samples.mergeSort samples := List.mergeSort_perm _ _
  have hpos : 0 < samples.mergeSort.length := by
    rw [hperm.length_eq]; exact List.length_pos.2 h
  have hsort := @List.sorted_mergeSort _ (fun a b => decide (a ≤ b))
    (by simp only [decide_eq_true_eq]; omega)
    (by simp only [Bool.or_eq_true, decide_eq_true_eq]; omega) samples
  have hmem : ∀ (i : Nat) (hi : i < samples.mergeSort.length), samples.mergeSort[i] ∈ samples :=
    fun i hi => hperm.mem_iff.1 (List.getElem_mem hi)
  obtain ⟨h₁, h₂, h₃, h₄⟩ := percentile_indices hpos
  refine ⟨_, _, _, _, ⟨samples.mergeSort.foldl (fun (acc : ℚ) (x : Nat) => acc + x) 0 /
    samples.mergeSort.length, ?_⟩, getElem_mono_of_pairwise hsort h₁ (by omega),
    getElem_mono_of_pairwise hsort h₂ (by omega), getElem_mono_of_pairwise hsort h₃ h₄,
    hmem _ _, hmem _ _, hmem _ _, hmem _ h₄⟩
  have i₁ : samples.mergeSort.length / 2 < samples.mergeSort.length := by omega
  have i₂ : castU64 (samples.mergeSort.length * 0.90) < samples.mergeSort.length := by omega
  have i₃ : castU64 (samples.mergeSort.length * 0.95) < samples.mergeSort.length := by omega
  simp only [calculateStats, List.getElem?_eq_getElem h₄, List.getElem?_eq_getElem i₃,
    List.getElem?_eq_getElem i₂, List.getElem?_eq_getElem i₁]
  rfl

/-! ## `benchmark` -/

/-- What the hardware answers around one measured call: the `rdtsc` readings before and after
it, and what each counter's `read` returns (`none` where it returns short). -/
structure Measurement where
  start : Nat
  stop : Nat
  instructions : Option Nat := none
  l1dMisses : Option Nat := none
  llcMisses : Option Nat := none
  branchMisses : Option Nat := none
  deriving DecidableEq, Repr

/-- `BenchResult`. -/
structure BenchResult where
  opcode : String
  paramDesc : String
  inputBytes : Nat
  medianCycles : Nat
  p90Cycles : Nat
  p99Cycles : Nat
  medianNs : ℚ
  instructions : Nat
  ipc : ℚ
  l1dMisses : Nat
  llcMisses : Nat
  branchMisses : Nat
  mallocCount : Nat
  allocBytes : Nat
  deriving DecidableEq, Repr

/-- A counter's `total_* += count` over the measured calls; a short read adds nothing. -/
def counterTotal (counter : Measurement → Option Nat) (ms : List Measurement) : Nat :=
  ms.foldl (fun total m => match counter m with
    | some count => add64 total count
    | none => total) 0

/-- `BenchmarkHarness::benchmark`: the warm-up calls, the measured calls, and the result built
from the cycle samples `end - start` and the counter totals. -/
def benchmark {σ : Type} (perfCountersEnabled : Bool) (opcodeName paramDescription : String)
    (inputSizeBytes : Nat) (operation : σ → Option σ) (iterations warmupIterations : Nat)
    (measure : Nat → Measurement) (s : σ) : Option (σ × BenchResult) := do
  let s ← runOperation operation warmupIterations s
  let s ← runOperation operation iterations s
  let ms := (List.range iterations).map measure
  let total (counter : Measurement → Option Nat) : Nat :=
    if perfCountersEnabled then counterTotal counter ms else 0
  let (_, stats) ← calculateStats (ms.map fun m => sub64 m.stop m.start)
  let medianCycles := castU64 stats.median
  let instructions := total Measurement.instructions / iterations
  pure (s,
    { opcode := opcodeName
      paramDesc := paramDescription
      inputBytes := inputSizeBytes
      medianCycles := medianCycles
      p90Cycles := castU64 stats.p90
      p99Cycles := castU64 stats.p99
      medianNs := stats.median / 3.5
      instructions := instructions
      ipc := if perfCountersEnabled then (instructions : ℚ) / medianCycles else 0
      l1dMisses := total Measurement.l1dMisses / iterations
      llcMisses := total Measurement.llcMisses / iterations
      branchMisses := total Measurement.branchMisses / iterations
      mallocCount := 0
      allocBytes := 0 })

section Benchmark

variable {σ : Type} {perfCountersEnabled : Bool} {opcodeName paramDescription : String}
  {inputSizeBytes : Nat} {operation : σ → Option σ} {iterations warmupIterations : Nat}
  {measure : Nat → Measurement} {s : σ}

/-- The result names the benchmark as it was called. -/
theorem benchmark_names {s' : σ} {r : BenchResult}
    (h : benchmark perfCountersEnabled opcodeName paramDescription inputSizeBytes operation
      iterations warmupIterations measure s = some (s', r)) :
    r.opcode = opcodeName ∧ r.paramDesc = paramDescription := by
  simp only [benchmark, Option.bind_eq_bind, Option.bind_eq_some] at h
  obtain ⟨_, -, _, -, _, -, hr⟩ := h
  simp only [Option.pure_def, Option.some.injEq, Prod.mk.injEq] at hr
  obtain ⟨-, rfl⟩ := hr
  exact ⟨rfl, rfl⟩

end Benchmark

/-- The header line of `export_csv`. -/
def csvHeader : String :=
  "opcode,param_desc,input_bytes,median_cycles,p90_cycles,p99_cycles," ++
    "median_ns,instructions,ipc,l1d_misses,llc_misses,branch_misses," ++
    "malloc_count,alloc_bytes\n"

/-- The line `export_csv` writes for one result, no field quoted; `showDouble` is how the
stream prints a double. -/
def csvRow (showDouble : ℚ → String) (r : BenchResult) : String :=
  r.opcode ++ "," ++ r.paramDesc ++ "," ++ toString r.inputBytes ++ "," ++
    toString r.medianCycles ++ "," ++ toString r.p90Cycles ++ "," ++
    toString r.p99Cycles ++ "," ++ showDouble r.medianNs ++ "," ++
    toString r.instructions ++ "," ++ showDouble r.ipc ++ "," ++ toString r.l1dMisses ++ "," ++
    toString r.llcMisses ++ "," ++ toString r.branchMisses ++ "," ++
    toString r.mallocCount ++ "," ++ toString r.allocBytes ++ "\n"

/-- The text `export_csv` writes: the header, then one line per result. -/
def exportCsv (showDouble : ℚ → String) (results : List BenchResult) : String :=
  results.foldl (fun out r => out ++ csvRow showDouble r) csvHeader

theorem toDigitsCore_count_comma : ∀ (fuel n : Nat) (ds : List Char),
    (Nat.toDigitsCore 10 fuel n ds).count ',' = ds.count ','
  | 0, _, _ => rfl
  | fuel + 1, n, ds => by
    have hd : Nat.digitChar (n % 10) ≠ ',' := by
      have : n % 10 < 10 := Nat.mod_lt _ (by decide)
      generalize n % 10 = k at this
      revert k
      decide
    simp only [Nat.toDigitsCore]
    split_ifs
    · simp [List.count_cons, hd]
    · rw [toDigitsCore_count_comma fuel, List.count_cons]
      simp [hd]

/-- A number printed in decimal holds no comma. -/
@[simp] theorem toString_count_comma (n : Nat) : (toString n).data.count ',' = 0 :=
  toDigitsCore_count_comma _ _ _

theorem csvHeader_count_comma : csvHeader.data.count ',' = 13 := by decide

/-- A line of `export_csv` has the header's thirteen separators plus every comma inside its
opcode and its parameter description, as long as the stream prints doubles without one. -/
theorem csvRow_count_comma {showDouble : ℚ → String}
    (hd : ∀ q, (showDouble q).data.count ',' = 0) (r : BenchResult) :
    (csvRow showDouble r).data.count ',' =
      csvHeader.data.count ',' + r.opcode.data.count ',' + r.paramDesc.data.count ',' := by
  have hc : (",").data = [','] := rfl
  have hn : ("\n").data = ['\n'] := rfl
  simp only [csvRow, String.data_append, List.count_append, hc, hn, toString_count_comma, hd,
    csvHeader_count_comma, List.count_singleton_self, List.count_cons, List.count_nil]
  simp
  omega

end Bsv.Cost
