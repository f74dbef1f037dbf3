import BsvCost.CostModel
import BsvCost.Sighash

/-!
# The symbolic executor

`CostEstimator::Impl::estimate`, one definition per block of its loop: the push branches and
the opcode switch (`execElement`, `execOpcode`, `switchOpcode`), the peak tracking and the limit
checks (`checkLimits`), one pass of `while (pc < combined.size())` (`loopBody`), the loop by
fuel (`loop`), and the whole call (`run`, `estimate`).

Every read the source makes without a bounds check is `Option`-valued: a byte of the combined
script (`combined[pc]`), the back of `stack_sizes`, a `pop_back`, an entry swapped by
`std::swap`, and the transaction's inputs and outputs inside `calculate_sighash_size`. A `none`
is an out-of-range access.

The cycle accumulators (`total_cycles` and the breakdown) are only ever added to and never read
by the loop, so they are kept exactly and reduced modulo `2^64` once, in the returned estimate
(`ExecState.toEstimate`); `(a mod 2^64 + b) mod 2^64 = (a + b) mod 2^64` makes this the value of
the wrapping `+=` of the source. `current_stack_bytes` and the entries of `stack_sizes` are read
by the limit checks and wrap at every update, as in the source.
-/

namespace Bsv.Cost

/-- The locals of `estimate`: `pc`, `stack_sizes` (its back is the list's head),
`current_stack_bytes`, and the fields of `result` with exact cycle accounts. -/
structure ExecState where
  pc : Nat
  stackSizes : List Nat
  currentStackBytes : Nat
  totalCycles : Nat
  breakdown : Breakdown
  peakStackBytes : Nat
  peakStackItems : Nat
  signatureCount : Nat
  opcodeCount : Nat
  warnings : List String
  deriving DecidableEq, Repr

/-- What one pass of the loop body leaves: the loop goes on, or it `break`s. -/
inductive Flow
  | next (st : ExecState)
  | brk (st : ExecState)
  deriving DecidableEq, Repr

/-- The state a pass of the loop body leaves, whichever way the loop goes on. -/
def Flow.state : Flow → ExecState
  | .next st => st
  | .brk st => st

@[simp] theorem Flow.state_next (st : ExecState) : (Flow.next st).state = st := rfl
@[simp] theorem Flow.state_brk (st : ExecState) : (Flow.brk st).state = st := rfl

namespace ExecState

/-- `result.warnings.push_back(w)`. -/
@[simps] def warn (st : ExecState) (w : String) : ExecState :=
  { st with warnings := st.warnings ++ [w] }

/-- `stack_sizes.push_back(n); current_stack_bytes += n;` of the push branches. -/
@[simps] def pushSize (st : ExecState) (n : Nat) : ExecState :=
  { st with stackSizes := n :: st.stackSizes, currentStackBytes := add64 st.currentStackBytes n }

/-- Peak tracking after each element, with the `uint32_t` cast of the item count. -/
@[simps] def trackPeak (st : ExecState) : ExecState :=
  { st with peakStackBytes := max st.peakStackBytes st.currentStackBytes,
            peakStackItems := max st.peakStackItems (st.stackSizes.length % 2 ^ 32) }

/-- The returned `CostEstimate`: every `uint64_t` account reduced modulo `2^64`. -/
@[simps] def toEstimate (st : ExecState) : CostEstimate where
  totalCycles := st.totalCycles % 2 ^ 64
  breakdown :=
    { parsing := st.breakdown.parsing % 2 ^ 64
      dispatch := st.breakdown.dispatch % 2 ^ 64
      stackOps := st.breakdown.stackOps % 2 ^ 64
      byteOps := st.breakdown.byteOps % 2 ^ 64
      hashing := st.breakdown.hashing % 2 ^ 64
      signatures := st.breakdown.signatures % 2 ^ 64
      controlFlow := st.breakdown.controlFlow % 2 ^ 64 }
  peakStackBytes := st.peakStackBytes
  peakStackItems := st.peakStackItems
  signatureCount := st.signatureCount
  opcodeCount := st.opcodeCount
  warnings := st.warnings

/-- `uint8_t op_byte = combined[pc++]; result.opcode_count++;` and the dispatch charge. -/
@[simps] def fetch (st : ExecState) (dispatch : Nat) : ExecState :=
  { st with pc := st.pc + 1, opcodeCount := st.opcodeCount + 1,
            breakdown.dispatch := st.breakdown.dispatch + dispatch,
            totalCycles := st.totalCycles + dispatch }

end ExecState

section Executor

variable (M : CostModel) (tx : Transaction) (inputIndex : Nat) (limits : EstimatorLimits)

/-- The `case` labels of the opcode switch; `OP_SHA256` and `OP_HASH256` share one. -/
inductive SwitchCase
  | dup
  | swap
  | cat
  | hash
  | checksig
  | other
  deriving DecidableEq, Repr

/-- The label an opcode selects. -/
def switchCase (op : OpCode) : SwitchCase :=
  if op = .opDup then .dup
  else if op = .opSwap then .swap
  else if op = .opCat then .cat
  else if op = .opSha256 ∨ op = .opHash256 then .hash
  else if op = .opChecksig then .checksig
  else .other

/-- `case OP_DUP`. Each case returns the state and the `params` left for the final
`calculate_opcode_cost`. -/
def switchDup (op : OpCode) (st : ExecState) : Option (ExecState × List Nat) := do
  let (st, params) ← if st.stackSizes ≠ [] then do
      let topSize ← st.stackSizes.head?
      pure ({ st with stackSizes := topSize :: st.stackSizes,
                      currentStackBytes := add64 st.currentStackBytes topSize }, [topSize])
    else pure (st, [])
  pure ({ st with breakdown.stackOps := st.breakdown.stackOps + calculateOpcodeCost M op params },
    params)

/-- `case OP_SWAP`. -/
def switchSwap (op : OpCode) (st : ExecState) : Option (ExecState × List Nat) := do
  let st ← if 2 ≤ st.stackSizes.length then do
      let top ← st.stackSizes[0]?
      let below ← st.stackSizes[1]?
      pure { st with stackSizes := (st.stackSizes.set 0 below).set 1 top }
    else pure st
  pure ({ st with breakdown.stackOps := st.breakdown.stackOps + calculateOpcodeCost M op [] }, [])

/-- `case OP_CAT`. -/
def switchCat (op : OpCode) (st : ExecState) : Option (ExecState × List Nat) := do
  let (st, params) ← if 2 ≤ st.stackSizes.length then do
      let sizeB ← st.stackSizes.head?
      let rest ← st.stackSizes.tail?
      let sizeA ← rest.head?
      let rest ← rest.tail?
      let resultSize := add64 sizeA sizeB
      pure ({ st with stackSizes := resultSize :: rest,
                      currentStackBytes :=
                        add64 (sub64 (sub64 st.currentStackBytes sizeA) sizeB) resultSize },
        [resultSize])
    else pure (st, [])
  pure ({ st with breakdown.byteOps := st.breakdown.byteOps + calculateOpcodeCost M op params },
    params)

/-- `case OP_SHA256: case OP_HASH256:`. -/
def switchHash (op : OpCode) (st : ExecState) : Option (ExecState × List Nat) := do
  let (st, params) ← if st.stackSizes ≠ [] then do
      let inputSize ← st.stackSizes.head?
      let rest ← st.stackSizes.tail?
      pure ({ st with stackSizes := 32 :: rest,
                      currentStackBytes := add64 (sub64 st.currentStackBytes inputSize) 32 },
        [inputSize])
    else pure (st, [])
  pure ({ st with breakdown.hashing := st.breakdown.hashing + calculateOpcodeCost M op params },
    params)

/-- `case OP_CHECKSIG`: the preimage size, the signature charge, then the two pops and the
push of the result. -/
def switchChecksig (op : OpCode) (st : ExecState) : Option (ExecState × List Nat) := do
  let preimageSize ← calculateSighashSize tx inputIndex sighashAll
  let st := { st with
    breakdown.signatures := st.breakdown.signatures + calculateOpcodeCost M op [preimageSize],
    signatureCount := st.signatureCount + 1 }
  let st ← if 2 ≤ st.stackSizes.length then do
      let rest ← st.stackSizes.tail?
      let rest ← rest.tail?
      pure { st with stackSizes := 1 :: rest }
    else pure st
  pure (st, [])

/-- The `switch (op)` of the opcode branch; `default:` charges the literal `100`. -/
def switchOpcode (op : OpCode) (st : ExecState) : Option (ExecState × List Nat) :=
  match switchCase op with
  | .dup => switchDup M op st
  | .swap => switchSwap M op st
  | .cat => switchCat M op st
  | .hash => switchHash M op st
  | .checksig => switchChecksig M tx inputIndex op st
  | .other => pure ({ st with totalCycles := st.totalCycles + 100 }, [])

/-- The opcode branch: the switch, then `result.total_cycles += calculate_opcode_cost(op,
params)`. -/
def execOpcode (op : OpCode) (st : ExecState) : Option ExecState := do
  let (st, params) ← switchOpcode M tx inputIndex op st
  pure { st with totalCycles := st.totalCycles + calculateOpcodeCost M op params }

/-- One element after its dispatch (the byte at `pc - 1` is `opByte`): a direct push, a
`PUSHDATA1` whose length byte is inside the script, or an opcode. -/
def execElement (combined : Script) (opByte : UInt8) (st : ExecState) : Option ExecState :=
  if 0 < opByte.toNat ∧ opByte.toNat < 0x4c then
    let pushSize := opByte.toNat
    pure ({ st with pc := st.pc + pushSize }.pushSize pushSize)
  else if opByte = OpCode.opPushdata1.val ∧ st.pc < combined.length then do
    let len ← combined[st.pc]?
    let pushSize := len.toNat
    pure ({ st with pc := st.pc + 1 + pushSize }.pushSize pushSize)
  else
    execOpcode M tx inputIndex ⟨opByte⟩ st

/-- The stack limits checked after peak tracking. -/
def checkLimits (st : ExecState) : Flow :=
  if limits.maxStackItemSize.toNat < st.currentStackBytes then
    .brk (st.warn "Stack byte limit exceeded")
  else if limits.maxStackItems.toNat < st.stackSizes.length then
    .brk (st.warn "Stack item count limit exceeded")
  else .next st

/-- One pass of the loop body, entered with `pc < combined.size()`. -/
def loopBody (combined : Script) (st : ExecState) : Option Flow :=
  if limits.maxOpcodeCount.toNat ≤ st.opcodeCount then
    pure (.brk (st.warn "Opcode count limit exceeded"))
  else do
    let opByte ← combined[st.pc]?
    let st ← execElement M tx inputIndex combined opByte (st.fetch (castU64 M.cDispatch))
    pure (checkLimits limits st.trackPeak)

/-- `while (pc < combined.size())`, run for at most `fuel` passes. -/
def loop (combined : Script) : Nat → ExecState → Option ExecState
  | 0, st => pure st
  | fuel + 1, st =>
    if st.pc < combined.length then do
      match ← loopBody M tx inputIndex limits combined st with
      | .next st => loop combined fuel st
      | .brk st => pure st
    else pure st

end Executor

/-- The state entering the loop: the parsing charge made, everything else zero. The charge is
the floor of the exact product `c_parse_per_byte * combined.size()`; the source truncates that
product rounded to a double, and the rounding is left out. -/
def start (M : CostModel) (combined : Script) : ExecState :=
  let parsing := castU64 (M.cParsePerByte * combined.length)
  { pc := 0, stackSizes := [], currentStackBytes := 0, totalCycles := parsing,
    breakdown := { parsing := parsing }, peakStackBytes := 0, peakStackItems := 0,
    signatureCount := 0, opcodeCount := 0, warnings := [] }

/-- The estimate returned by the size check. -/
def tooLarge : ExecState :=
  { pc := 0, stackSizes := [], currentStackBytes := 0, totalCycles := 0, breakdown := {},
    peakStackBytes := 0, peakStackItems := 0, signatureCount := 0, opcodeCount := 0,
    warnings := ["Script exceeds size limit"] }

/-- The state of `estimate` after `fuel` passes of its loop (or its early return). -/
def run (M : CostModel) (unlockingScript lockingScript : Script) (tx : Transaction)
    (inputIndex : Nat) (limits : EstimatorLimits) (fuel : Nat) : Option ExecState :=
  let combined := unlockingScript ++ lockingScript
  if limits.maxScriptSize.toNat < combined.length then pure tooLarge
  else loop M tx inputIndex limits combined fuel (start M combined)

/-- `CostEstimator::Impl::estimate`. Every pass of the loop advances `pc`, so as many passes as
the combined script has bytes run it to its end. -/
def estimate (M : CostModel) (unlockingScript lockingScript : Script) (tx : Transaction)
    (inputIndex : Nat) (limits : EstimatorLimits) : Option CostEstimate :=
  (run M unlockingScript lockingScript tx inputIndex limits
    (unlockingScript ++ lockingScript).length).map ExecState.toEstimate

end Bsv.Cost
