import BsvCost.Harness
import BsvCost.Reference

/-!
# The stack benchmark

The rest of `SimpleStack` of `bench_stack_ops.cpp` that its benchmarks call (`pop`, `pick`, `roll`,
`rot`; `push`, `dup` and `swap` are in `Reference.lean`), and the operations the five benchmarks
time.

* `simpleStack_roll_general`: `pick(0)` is `dup`, `roll(1)` is `swap` and `roll(2)` is `rot`,
  on every stack and with the same throws, and `roll` only reorders the items.
* `runOperation_stack_benchmarks`: on the stack a benchmark fills (`depth` pushes of one item),
  each timed operation, called any number of times at the depths the benchmark runs it at,
  never throws and leaves the stack as it found it, so every measured call sees the same
  stack. `DUP` then `pop` and `PICK` then `pop` restore any stack (`dupPop_of_ne_nil`,
  `pickPop_of_lt`); `SWAP` and `ROT` only reorder it, which on equal items changes nothing.
-/

namespace Bsv.Cost

namespace SimpleStack

/-- `SimpleStack::pop`: the top item and the rest; `none` where it throws "Stack underflow". -/
def pop : RefStack → Option (List UInt8 × RefStack)
  | [] => none
  | x :: r => some (x, r)

/-- `SimpleStack::pick`: a copy of the item `depth` below the top goes on top; `none` where it
throws "Pick out of range". -/
def pick (depth : Nat) (items : RefStack) : Option RefStack :=
  if h : depth < items.length then some (items[depth] :: items) else none

/-- `SimpleStack::roll`: the item `depth` below the top is erased and pushed; `none` where it
throws "Roll out of range". -/
def roll (depth : Nat) (items : RefStack) : Option RefStack :=
  if h : depth < items.length then some (items[depth] :: items.eraseIdx depth) else none

/-- `SimpleStack::rot`: `a b c -> b c a`, `c` on top; `none` where it throws "Insufficient
items". -/
def rot : RefStack → Option RefStack
  | c :: b :: a :: r => some (a :: c :: b :: r)
  | _ => none

theorem getElem_cons_eraseIdx_perm {α : Type} :
    ∀ (l : List α) (d : Nat) (h : d < l.length), List.Perm (l[d] :: l.eraseIdx d) l
  | _ :: _, 0, _ => List.Perm.refl _
  | x :: r, d + 1, h => by
    have hd : d < r.length := by simpa using h
    simp only [List.getElem_cons_succ, List.eraseIdx_cons_succ]
    exact (List.Perm.swap x r[d] _).trans ((getElem_cons_eraseIdx_perm r d hd).cons x)

/-- `roll` generalises `swap` and `rot` and `pick` generalises `dup`: on every stack `pick(0)`
does what `dup` does, `roll(1)` what `swap` does and `roll(2)` what `rot` does, each throwing
exactly where the other throws; and whatever its depth, a `roll` that returns only reorders the
stack's items. -/
theorem simpleStack_roll_general :
    pick 0 = dup ∧ roll 1 = swap ∧ roll 2 = rot ∧
      ∀ (depth : Nat) (items items' : RefStack), roll depth items = some items' →
        List.Perm items' items := by
  refine ⟨funext fun items => ?_, funext fun items => ?_, funext fun items => ?_, ?_⟩
  · cases items <;> simp [pick, dup]
  · rcases items with _ | ⟨x, _ | ⟨y, r⟩⟩ <;> simp [roll, swap]
  · rcases items with _ | ⟨x, _ | ⟨y, _ | ⟨z, r⟩⟩⟩ <;> simp [roll, rot]
  · intro depth items items' h
    unfold roll at h
    split_ifs at h with hd
    cases h
    exact getElem_cons_eraseIdx_perm items depth hd

end SimpleStack

/-! ## The timed operations -/

/-- The stack a benchmark fills before timing: `depth` pushes of one item. -/
def prefill (depth : Nat) (item : List UInt8) : RefStack :=
  (List.range depth).foldl (fun stack _ => SimpleStack.push item stack) []

/-- The timed operation of `benchmark_op_dup`: `stack.dup(); stack.pop();`. -/
def dupPop (items : RefStack) : Option RefStack := do
  let items ← SimpleStack.dup items
  let (_, items) ← SimpleStack.pop items
  pure items

/-- The timed operation of `benchmark_op_pick`: `stack.pick(pick_depth); stack.pop();`. -/
def pickPop (pickDepth : Nat) (items : RefStack) : Option RefStack := do
  let items ← SimpleStack.pick pickDepth items
  let (_, items) ← SimpleStack.pop items
  pure items

/-- The timed operation of `benchmark_op_roll`: a stack filled afresh, then
`roll(roll_depth)`; nothing carries over from one call to the next. -/
def rollFresh (depth rollDepth : Nat) (item : List UInt8) (_ : Unit) : Option Unit :=
  (SimpleStack.roll rollDepth (prefill depth item)).map fun _ => ()

theorem prefill_eq (depth : Nat) (item : List UInt8) :
    prefill depth item = List.replicate depth item := by
  have h : ∀ (l : List Nat) (stack : RefStack),
      l.foldl (fun stack _ => SimpleStack.push item stack) stack =
        List.replicate l.length item ++ stack := by
    intro l
    induction l with
    | nil => simp
    | cons _ l ih =>
      intro stack
      rw [List.foldl_cons, ih, SimpleStack.push, List.length_cons, List.replicate_succ']
      simp
  simp [prefill, h]

theorem dupPop_of_ne_nil {items : RefStack} (h : items ≠ []) : dupPop items = some items := by
  obtain ⟨x, r, rfl⟩ := List.exists_cons_of_ne_nil h
  rfl

theorem pickPop_of_lt {pickDepth : Nat} {items : RefStack} (h : pickDepth < items.length) :
    pickPop pickDepth items = some items := by
  simp [pickPop, SimpleStack.pick, h, SimpleStack.pop]

theorem swap_replicate {depth : Nat} (item : List UInt8) (h : 2 ≤ depth) :
    SimpleStack.swap (List.replicate depth item) = some (List.replicate depth item) := by
  obtain ⟨k, rfl⟩ := Nat.exists_eq_add_of_le' h
  rfl

theorem rot_replicate {depth : Nat} (item : List UInt8) (h : 3 ≤ depth) :
    SimpleStack.rot (List.replicate depth item) = some (List.replicate depth item) := by
  obtain ⟨k, rfl⟩ := Nat.exists_eq_add_of_le' h
  rfl

/-- Every measured call of a stack benchmark sees the stack the benchmark filled. On `depth`
pushes of one item, at the depths each benchmark runs at (`depth ≥ 1` for `OP_DUP`, `≥ 2` for
`OP_SWAP`, `pick_depth < depth`, `roll_depth < depth`, `depth ≥ 3` for `OP_ROT`), any number of
calls of the timed operation, warm-up and measured alike, throw nothing and leave the stack as
it was. -/
theorem runOperation_stack_benchmarks (item : List UInt8) (depth n : Nat) :
    (1 ≤ depth → runOperation dupPop n (prefill depth item) = some (prefill depth item)) ∧
    (2 ≤ depth →
      runOperation SimpleStack.swap n (prefill depth item) = some (prefill depth item)) ∧
    (∀ pickDepth < depth,
      runOperation (pickPop pickDepth) n (prefill depth item) = some (prefill depth item)) ∧
    (∀ rollDepth < depth, runOperation (rollFresh depth rollDepth item) n () = some ()) ∧
    (3 ≤ depth →
      runOperation SimpleStack.rot n (prefill depth item) = some (prefill depth item)) := by
  rw [prefill_eq]
  refine ⟨fun h => runOperation_of_fixed (dupPop_of_ne_nil ?_) n,
    fun h => runOperation_of_fixed (swap_replicate item h) n,
    fun pickDepth h => runOperation_of_fixed (pickPop_of_lt (by simpa using h)) n,
    fun rollDepth h => runOperation_of_fixed ?_ n,
    fun h => runOperation_of_fixed (rot_replicate item h) n⟩
  · simp only [ne_eq, List.replicate_eq_nil_iff]
    omega
  · simp [rollFresh, prefill_eq, SimpleStack.roll, h]

/-- The five benchmarks at depth 3. -/
theorem runOperation_stack_benchmarks_three :
    runOperation dupPop 2 (prefill 3 [0x42]) = some (prefill 3 [0x42]) ∧
    runOperation SimpleStack.swap 2 (prefill 3 [0x42]) = some (prefill 3 [0x42]) ∧
    runOperation (pickPop 2) 2 (prefill 3 [0x42]) = some (prefill 3 [0x42]) ∧
    runOperation (rollFresh 3 2 [0x42]) 2 () = some () ∧
    runOperation SimpleStack.rot 2 (prefill 3 [0x42]) = some (prefill 3 [0x42]) :=
  have h := runOperation_stack_benchmarks [0x42] 3 2
  ⟨h.1 (by decide), h.2.1 (by decide), h.2.2.1 2 (by decide), h.2.2.2.1 2 (by decide),
    h.2.2.2.2 le_rfl⟩

/-! ## The stack benchmarks in the CSV file -/

/-- A description `key₁ + std::to_string(a) + key₂ + std::to_string(b)`, as the stack
benchmarks build their `param_desc`. -/
def twoParamDesc (key₁ key₂ : String) (a b : Nat) : String :=
  key₁ ++ toString a ++ key₂ ++ toString b

/-- The `param_desc` of `benchmark_op_dup`, `benchmark_op_swap` and `benchmark_op_rot`. -/
def depthItemSizeDesc (depth itemSize : Nat) : String :=
  twoParamDesc "depth=" ",item_size=" depth itemSize

/-- The `param_desc` of `benchmark_op_pick`. -/
def pickDepthDesc (depth pickDepth : Nat) : String :=
  twoParamDesc "stack_depth=" ",pick_depth=" depth pickDepth

/-- The `param_desc` of `benchmark_op_roll`. -/
def rollDepthDesc (depth rollDepth : Nat) : String :=
  twoParamDesc "stack_depth=" ",roll_depth=" depth rollDepth

theorem twoParamDesc_count_comma (key₁ key₂ : String) (a b : Nat) :
    (twoParamDesc key₁ key₂ a b).data.count ',' =
      key₁.data.count ',' + key₂.data.count ',' := by
  simp [twoParamDesc, List.count_append]

/-- `export_csv` quotes no field, and every stack benchmark describes its parameters with a
comma in the middle: the line of any result of `benchmark_op_dup`, `_swap`, `_pick`, `_roll` or
`_rot`, whatever its depth, item size and measurements, has one separator more than the header,
so from `input_bytes` on each value stands under the name of the column before it. -/
theorem csvRow_stack_benchmarks (showDouble : ℚ → String)
    (hd : ∀ q, (showDouble q).data.count ',' = 0) {σ : Type} {perfCountersEnabled : Bool}
    {opcodeName paramDescription : String} {inputSizeBytes : Nat} {operation : σ → Option σ}
    {iterations warmupIterations : Nat} {measure : Nat → Measurement} {s s' : σ}
    {r : BenchResult}
    (h : benchmark perfCountersEnabled opcodeName paramDescription inputSizeBytes operation
      iterations warmupIterations measure s = some (s', r))
    (ho : opcodeName.data.count ',' = 0)
    (hp : ∃ a b, paramDescription = depthItemSizeDesc a b ∨
      paramDescription = pickDepthDesc a b ∨ paramDescription = rollDepthDesc a b) :
    (csvRow showDouble r).data.count ',' = csvHeader.data.count ',' + 1 := by
  obtain ⟨hop, hpd⟩ := benchmark_names h
  rw [csvRow_count_comma hd, hop, hpd, ho]
  obtain ⟨a, b, rfl | rfl | rfl⟩ := hp <;>
    simp only [depthItemSizeDesc, pickDepthDesc, rollDepthDesc, twoParamDesc_count_comma] <;>
    decide

/-- One measured `OP_DUP` call at depth 1 and item size 1, with doubles printed as `0`. -/
theorem csvRow_stack_benchmarks_dup :
    ∃ r : BenchResult, benchmark false "OP_DUP" (depthItemSizeDesc 1 1) 1
        (fun _ : Unit => some ()) 1 0 (fun _ => { start := 0, stop := 7 }) () = some ((), r) ∧
      (csvRow (fun _ => "0") r).data.count ',' = csvHeader.data.count ',' + 1 :=
  have h : benchmark false "OP_DUP" (depthItemSizeDesc 1 1) 1 (fun _ : Unit => some ()) 1 0
      (fun _ => { start := 0, stop := 7 }) () = some ((),
        { opcode := "OP_DUP", paramDesc := depthItemSizeDesc 1 1, inputBytes := 1,
          medianCycles := 7, p90Cycles := 7, p99Cycles := 7, medianNs := 2, instructions := 0,
          ipc := 0, l1dMisses := 0, llcMisses := 0, branchMisses := 0, mallocCount := 0,
          allocBytes := 0 }) := by
    have h7 : roundDouble 7 = 7 := roundDouble_of_lt (by norm_num)
    simp [benchmark, runOperation, calculateStats, List.mergeSort, sub64, castU64,
      List.range_succ]
    norm_num [h7]
    rfl
  ⟨_, h,
    csvRow_stack_benchmarks (fun _ => "0") (fun _ => rfl) h (by decide) ⟨1, 1, .inl rfl⟩⟩

end Bsv.Cost
