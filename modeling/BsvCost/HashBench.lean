import BsvCost.Calibration

/-!
# The hash benchmark program

`benchmark_hash_op` and `main` of `bench_hash_ops.cpp`: each of five hash opcodes is benchmarked
at eight input sizes, and `analyze_hash_linearity` fits each opcode's medians. The timed call
hashes a vector and discards the digest, so the model keeps only what the call costs: what the
machine answers around the `i`-th measured call at each size.

* `benchmark_of_constant`: a benchmark whose every measured call takes `c < 2^53` cycles
  reports `c` as its median.
* `foldlM_append`: a loop whose every round appends results appends, in all, the results of its
  rounds in order; `benchmarkHashOp_records` gives those of `benchmark_hash_op`.
* `hashBenchMain_linear`: on a machine where each hash opcode takes `k0 + k1 * n` cycles on `n`
  bytes, the fit of every opcode, in exact arithmetic, is `k0`, `k1` and `R² = 1`.
-/

namespace Bsv.Cost

/-- The input sizes of `benchmark_hash_op`, from one byte to 100 MB. -/
def hashSizes : List Nat := [1, 64, 512, 4096, 65536, 1000000, 10000000, 100000000]

/-- The measured iterations of `benchmark_hash_op` at one size. -/
def hashIterations (size : Nat) : Nat :=
  if size > 10000000 then 50 else if size > 1000000 then 100 else 1000

/-- The warm-up iterations of `benchmark_hash_op` at one size. -/
def hashWarmup (size : Nat) : Nat :=
  if size > 10000000 then 5 else if size > 1000000 then 10 else 100

/-- `benchmark_hash_op`: a benchmark at each size, appended to `results`. The timed call hashes
`size` bytes and discards the digest, so it changes nothing and never throws; `measure size` is
what the machine answers around its measured calls. -/
def benchmarkHashOp (perfCountersEnabled : Bool) (opcodeName : String)
    (measure : Nat → Nat → Measurement) (results : List BenchResult) :
    Option (List BenchResult) :=
  hashSizes.foldlM (fun results size => do
    let (_, result) ← benchmark perfCountersEnabled opcodeName (toString size ++ "B") size
      (fun _ : Unit => some ()) (hashIterations size) (hashWarmup size) (measure size) ()
    pure (results ++ [result])) results

/-- The opcodes `main` benchmarks, in order. -/
def hashOpcodeNames : List String :=
  ["OP_SHA1", "OP_SHA256", "OP_HASH160", "OP_HASH256", "OP_RIPEMD160"]

/-- `main` of `bench_hash_ops.cpp`: the results of the five benchmarks, and the fit of each
opcode as `analyzeHashLinearity` computes it, in exact arithmetic. -/
def hashBenchMain (perfCountersEnabled : Bool) (measure : String → Nat → Nat → Measurement) :
    Option (List BenchResult × List (Option LinearFit)) := do
  let results ← hashOpcodeNames.foldlM
    (fun results name => benchmarkHashOp perfCountersEnabled name (measure name) results) []
  pure (results, hashOpcodeNames.map (analyzeHashLinearity results))

/-- What the fit reads of a result: its opcode, its input size and its median. -/
def BenchResult.fitRecord (r : BenchResult) : String × Nat × Nat :=
  (r.opcode, r.inputBytes, r.medianCycles)

/-- A benchmark of an operation that keeps its state, measured at least once, returns, and
reports as its median the cycle count of one of its measured calls, as a double. -/
theorem benchmark_of_fixed {σ : Type} {operation : σ → Option σ} {s : σ}
    (hop : operation s = some s) {iterations : Nat} (hn : 0 < iterations)
    (measure : Nat → Measurement) (perfCountersEnabled : Bool)
    (opcodeName paramDescription : String) (inputSizeBytes warmupIterations : Nat) :
    ∃ r, benchmark perfCountersEnabled opcodeName paramDescription inputSizeBytes operation
        iterations warmupIterations measure s = some (s, r) ∧
      r.opcode = opcodeName ∧ r.paramDesc = paramDescription ∧ r.inputBytes = inputSizeBytes ∧
      ∃ i < iterations,
        r.medianCycles = roundDouble (sub64 (measure i).stop (measure i).start) := by
  obtain ⟨a, b, c, d, ⟨mean, hst⟩, -, -, -, ha, -⟩ :=
    @calculateStats_spec (((List.range iterations).map measure).map fun m => sub64 m.stop m.start)
      (by simpa using hn.ne')
  obtain ⟨i, hi, rfl⟩ : ∃ i < iterations, sub64 (measure i).stop (measure i).start = a := by
    simpa using ha
  simp only [benchmark, runOperation_of_fixed hop, Option.bind_eq_bind, Option.some_bind, hst]
  exact ⟨_, rfl, rfl, rfl, rfl, i, hi, castU64_natCast _⟩

/-- A benchmark of an operation that keeps its state, on a machine whose every measured call
takes `c` cycles, `c` below `2^53` so that it is a double as it is, reports `c` as its
median. -/
theorem benchmark_of_constant {σ : Type} {operation : σ → Option σ} {s : σ}
    (hop : operation s = some s) {iterations : Nat} (hn : 0 < iterations)
    {measure : Nat → Measurement} {c : Nat} (hc : ∀ i, sub64 (measure i).stop (measure i).start = c)
    (hc53 : c < 2 ^ 53) (perfCountersEnabled : Bool) (opcodeName paramDescription : String)
    (inputSizeBytes warmupIterations : Nat) :
    ∃ r, benchmark perfCountersEnabled opcodeName paramDescription inputSizeBytes operation
        iterations warmupIterations measure s = some (s, r) ∧
      r.fitRecord = (opcodeName, inputSizeBytes, c) := by
  obtain ⟨r, hr, ho, -, hi, i, -, hm⟩ := benchmark_of_fixed hop hn measure perfCountersEnabled
    opcodeName paramDescription inputSizeBytes warmupIterations
  exact ⟨r, hr, by rw [BenchResult.fitRecord, ho, hi, hm, hc, roundDouble_of_lt hc53]⟩

/-- A loop whose every round appends results appends, in all, the results of its rounds in
order: what is read of them (`view`) is that of each round, concatenated, and a property of
every round's results holds of all. -/
theorem foldlM_append {α γ : Type} (view : BenchResult → γ) (records : α → List γ)
    (P : BenchResult → Prop) {f : List BenchResult → α → Option (List BenchResult)} :
    ∀ l : List α, (∀ acc, ∀ a ∈ l, ∃ rs, f acc a = some (acc ++ rs) ∧
        rs.map view = records a ∧ ∀ r ∈ rs, P r) →
      ∀ acc, ∃ rs, l.foldlM f acc = some (acc ++ rs) ∧
        rs.map view = l.flatMap records ∧ ∀ r ∈ rs, P r
  | [], _, acc => ⟨[], by simp, rfl, by simp⟩
  | a :: l, hf, acc => by
    obtain ⟨rs₁, h₁, ht₁, hp₁⟩ := hf acc a (List.mem_cons_self _ _)
    obtain ⟨rs₂, h₂, ht₂, hp₂⟩ := foldlM_append view records P l
      (fun acc a ha => hf acc a (List.mem_cons_of_mem _ ha)) (acc ++ rs₁)
    refine ⟨rs₁ ++ rs₂, by simp [h₁, h₂], by simp [ht₁, ht₂], fun r hr => ?_⟩
    rcases List.mem_append.1 hr with hr | hr
    exacts [hp₁ r hr, hp₂ r hr]

theorem hashIterations_pos (size : Nat) : 0 < hashIterations size := by
  unfold hashIterations
  split_ifs <;> decide

theorem hashSizes_le : ∀ size ∈ hashSizes, size ≤ 100000000 := by decide

/-- On a machine where each measured call at size `n` takes `k0 + k1 * n` cycles, below `2^53`
at the largest size, `benchmark_hash_op` appends one result per size, in order, with that
median. -/
theorem benchmarkHashOp_records (perfCountersEnabled : Bool) (opcodeName : String)
    {measure : Nat → Nat → Measurement} {k0 k1 : Nat}
    (hcycles : ∀ size ∈ hashSizes, ∀ i,
      sub64 (measure size i).stop (measure size i).start = k0 + k1 * size)
    (h53 : k0 + k1 * 100000000 < 2 ^ 53) (results : List BenchResult) :
    ∃ rs, benchmarkHashOp perfCountersEnabled opcodeName measure results = some (results ++ rs) ∧
      rs.map BenchResult.fitRecord =
        hashSizes.flatMap fun size => [(opcodeName, size, k0 + k1 * size)] := by
  refine (foldlM_append BenchResult.fitRecord _ (fun _ => True) hashSizes
    (fun acc size hsize => ?_) results).imp fun rs h => ⟨h.1, h.2.1⟩
  obtain ⟨r, hr, hrec⟩ :=
    benchmark_of_constant (show (fun _ : Unit => some ()) () = some () from rfl)
      (hashIterations_pos size) (hcycles size hsize)
      ((Nat.add_le_add_left (Nat.mul_le_mul_left k1 (hashSizes_le size hsize)) k0).trans_lt h53)
      perfCountersEnabled opcodeName (toString size ++ "B") size (hashWarmup size)
  exact ⟨[r], by simp [hr], by simp [hrec], fun _ _ => trivial⟩

section Linear

variable {k0 k1 : String → Nat} {results : List BenchResult}

/-- The results of the five benchmarks on a linear machine, as the fit reads them. -/
theorem fitRecord_of_mem
    (h : results.map BenchResult.fitRecord = hashOpcodeNames.flatMap fun name =>
      hashSizes.flatMap fun size => [(name, size, k0 name + k1 name * size)])
    {r : BenchResult} (hr : r ∈ results) :
    r.opcode ∈ hashOpcodeNames ∧ r.inputBytes ∈ hashSizes ∧
      r.medianCycles = k0 r.opcode + k1 r.opcode * r.inputBytes := by
  have := List.mem_map_of_mem BenchResult.fitRecord hr
  simp only [h, List.mem_flatMap, List.mem_singleton, BenchResult.fitRecord, Prod.mk.injEq] at this
  obtain ⟨name, hname, size, hsize, rfl, rfl, h⟩ := this
  exact ⟨hname, hsize, h⟩

theorem exists_of_fitRecord
    (h : results.map BenchResult.fitRecord = hashOpcodeNames.flatMap fun name =>
      hashSizes.flatMap fun size => [(name, size, k0 name + k1 name * size)])
    {name : String} (hname : name ∈ hashOpcodeNames) {size : Nat} (hsize : size ∈ hashSizes) :
    ∃ r ∈ results, r.opcode = name ∧ r.inputBytes = size := by
  have : (name, size, k0 name + k1 name * size) ∈ results.map BenchResult.fitRecord := by
    rw [h]
    exact List.mem_flatMap.2
      ⟨name, hname, List.mem_flatMap.2 ⟨size, hsize, List.mem_singleton_self _⟩⟩
  obtain ⟨r, hr, hrec⟩ := List.mem_map.1 this
  simp only [BenchResult.fitRecord, Prod.mk.injEq] at hrec
  exact ⟨r, hr, hrec.1, hrec.2.1⟩

end Linear

/-- The hash benchmark recovers a linear machine, in exact arithmetic. For every counter
setting, and every machine on which each measured call of each opcode's benchmark at size `n`
takes `k0 + k1 * n` cycles, with `k1 > 0` and no product of the fit wrapping at the largest
size, the program collects its results, and the fit of each of the five opcodes, computed
exactly from the medians, is the base cost `k0`, the per-byte cost `k1` and `R² = 1`. The
program computes the fit in doubles, whose sums here exceed `2^53`, and prints six significant
digits, so what it prints can differ from these values. -/
theorem hashBenchMain_linear (perfCountersEnabled : Bool)
    (measure : String → Nat → Nat → Measurement) (k0 k1 : String → Nat)
    (hcycles : ∀ name ∈ hashOpcodeNames, ∀ size ∈ hashSizes, ∀ i,
      sub64 (measure name size i).stop (measure name size i).start = k0 name + k1 name * size)
    (hk1 : ∀ name ∈ hashOpcodeNames, 0 < k1 name)
    (hwrap : ∀ name ∈ hashOpcodeNames, 100000000 * (k0 name + k1 name * 100000000) < 2 ^ 64) :
    ∃ results, hashBenchMain perfCountersEnabled measure = some (results,
      hashOpcodeNames.map fun name => some ⟨some (k0 name), some (k1 name), some 1⟩) := by
  obtain ⟨results, hrun, hrec, -⟩ := foldlM_append BenchResult.fitRecord
    (fun name => hashSizes.flatMap fun size => [(name, size, k0 name + k1 name * size)])
    (fun _ => True) hashOpcodeNames (fun acc name hname => by
      have h53 : k0 name + k1 name * 100000000 < 2 ^ 53 := by
        have := hwrap name hname
        omega
      obtain ⟨rs, h, hrec⟩ :=
        benchmarkHashOp_records perfCountersEnabled name (hcycles name hname) h53 acc
      exact ⟨rs, h, hrec, fun _ _ => trivial⟩) []
  refine ⟨results, ?_⟩
  simp only [hashBenchMain, hrun, List.nil_append, Option.bind_eq_bind, Option.some_bind,
    Option.pure_def, Option.some.injEq, Prod.mk.injEq, true_and]
  refine List.map_congr_left fun name hname => ?_
  obtain ⟨r, hr, ho, h1⟩ := exists_of_fitRecord hrec hname (by decide : 1 ∈ hashSizes)
  obtain ⟨r', hr', ho', h64⟩ := exists_of_fitRecord hrec hname (by decide : 64 ∈ hashSizes)
  refine analyzeHashLinearity_of_line (fun r hr ho => ?_) (by exact_mod_cast (hk1 name hname).ne')
    (fun r hr ho => ?_) ⟨r, hr, r', hr', ho, ho', by rw [h1, h64]; decide⟩
  · obtain ⟨-, -, h⟩ := fitRecord_of_mem hrec hr
    rw [h, ho]
    push_cast
    rfl
  · obtain ⟨-, hsize, h⟩ := fitRecord_of_mem hrec hr
    have hle := hashSizes_le _ hsize
    have hw := hwrap name hname
    rw [h, ho]
    constructor
    · calc r.inputBytes * (k0 name + k1 name * r.inputBytes)
          ≤ 100000000 * (k0 name + k1 name * 100000000) := by gcongr
        _ < 2 ^ 64 := hw
    · calc r.inputBytes * r.inputBytes ≤ 100000000 * 100000000 := Nat.mul_le_mul hle hle
        _ < 2 ^ 64 := by norm_num

/-- A machine where every hash takes `50 + 3 n` cycles on `n` bytes. -/
theorem hashBenchMain_linear_fifty :
    ∃ results, hashBenchMain false (fun _ size _ => { start := 0, stop := 50 + 3 * size }) =
      some (results, hashOpcodeNames.map fun _ => some ⟨some 50, some 3, some 1⟩) :=
  hashBenchMain_linear false _ (fun _ => 50) (fun _ => 3)
    (fun _ _ size hsize _ => (by decide : ∀ size ∈ hashSizes,
      sub64 (50 + 3 * size) 0 = 50 + 3 * size) size hsize)
    (fun _ _ => by norm_num) (fun _ _ => by norm_num)

end Bsv.Cost
