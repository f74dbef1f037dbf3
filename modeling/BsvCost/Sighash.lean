import BsvCost.Types

/-!
# The sighash preimage size

`calculate_sighash_size`: the number of bytes a signer would hash for an input, from the
transaction's script lengths and the sighash flags. Indexing `tx.inputs[input_index]` and
`tx.outputs[input_index]` is unchecked in the source; here it is `Option`-valued, and `none`
marks the out-of-range read.

With the flags `OP_CHECKSIG` passes (`SIGHASH_ALL`) the function indexes nothing, so it
returns a size for every transaction and every input index (`calculateSighashSize_all`): the
size `Transaction::serialize_size` gives plus the 4-byte sighash type
(`calculateSighashSize_all_serializeSize`).

`preimageSize` is §4.3's count, written from the specification. For every input in range and
every base type `ALL`, `NONE` or `SINGLE` the source gives that count
(`calculateSighashSize_eq_preimageSize`), except under `SINGLE` with no output at the input's
index, where it also leaves out the outputs section's count byte
(`calculateSighashSize_single_no_output`).
-/

namespace Bsv.Cost

/-- `calculate_sighash_size`. The two loops are left folds accumulating into `size`. -/
def calculateSighashSize (tx : Transaction) (inputIndex : Nat) (sighashType : Nat) :
    Option Nat := do
  let baseType := sighashType &&& 0x1f
  let anyoneCanPay := sighashType &&& sighashAnyonecanpay ≠ 0
  let size := 4
  let size ← if anyoneCanPay then do
      let input ← tx.inputs[inputIndex]?
      pure (size + (1 + 36 + 1 + input.scriptSig.length + 4))
    else
      pure (tx.inputs.foldl (fun size input => size + (36 + 1 + input.scriptSig.length + 4))
        (size + 1))
  let size ← if baseType = sighashSingle then
      if inputIndex < tx.outputs.length then do
        let output ← tx.outputs[inputIndex]?
        pure (size + (1 + 8 + 1 + output.scriptPubkey.length))
      else pure size
    else if baseType = sighashNone then pure (size + 1)
    else
      pure (tx.outputs.foldl (fun size output => size + (8 + 1 + output.scriptPubkey.length))
        (size + 1))
  pure (size + 4 + 4)

/-- The size under `SIGHASH_ALL`: every input and every output contributes. -/
theorem calculateSighashSize_all (tx : Transaction) (inputIndex : Nat) :
    calculateSighashSize tx inputIndex sighashAll =
      some (tx.outputs.foldl (fun size output => size + (8 + 1 + output.scriptPubkey.length))
        (tx.inputs.foldl (fun size input => size + (36 + 1 + input.scriptSig.length + 4)) 5 + 1)
        + 4 + 4) := by
  simp [calculateSighashSize, sighashAll, sighashAnyonecanpay, sighashSingle, sighashNone]

/-- `Transaction::serialize_size`, with one-byte counts and script lengths as the source
assumes. -/
def Transaction.serializeSize (tx : Transaction) : Nat :=
  let size := 4 + 1
  let size := tx.inputs.foldl (fun size input => size + 36 + (1 + input.scriptSig.length) + 4) size
  let size := size + 1
  let size :=
    tx.outputs.foldl (fun size output => size + 8 + (1 + output.scriptPubkey.length)) size
  size + 4

/-- The `SIGHASH_ALL` preimage that `OP_CHECKSIG` is charged for is the serialised transaction
and the 4-byte sighash type. -/
theorem calculateSighashSize_all_serializeSize (tx : Transaction) (inputIndex : Nat) :
    calculateSighashSize tx inputIndex sighashAll = some (tx.serializeSize + 4) := by
  have hin : (fun size (input : TxInput) => size + 36 + (1 + input.scriptSig.length) + 4) =
      fun size input => size + (36 + 1 + input.scriptSig.length + 4) := by
    funext size input; omega
  have hout : (fun size (output : TxOutput) => size + 8 + (1 + output.scriptPubkey.length)) =
      fun size output => size + (8 + 1 + output.scriptPubkey.length) := by
    funext size output; omega
  rw [calculateSighashSize_all, Transaction.serializeSize]
  simp only [hin, hout]

/-! ## Section 4.3's byte count -/

/-- An input's bytes in a preimage: outpoint, script length byte, script and sequence. -/
def TxInput.preimageBytes (input : TxInput) : Nat := 36 + 1 + input.scriptSig.length + 4

/-- An output's bytes in a preimage: value, script length byte and script. -/
def TxOutput.preimageBytes (output : TxOutput) : Nat := 8 + 1 + output.scriptPubkey.length

/-- §4.3's `preimage_size`, written from the specification: version, locktime and sighash flag,
then the inputs section and the outputs section, each with its 1-byte count. It has no value
without a current input under `ANYONECANPAY`, nor for a base type other than `ALL`, `NONE` and
`SINGLE`. -/
def preimageSize (tx : Transaction) (inputIndex flags : Nat) : Option Nat := do
  let inputs ← if flags &&& sighashAnyonecanpay ≠ 0 then
      (tx.inputs[inputIndex]?).map fun input => 1 + input.preimageBytes
    else some (1 + (tx.inputs.map TxInput.preimageBytes).sum)
  let outputs ← if flags &&& 0x1f = sighashAll then
      some (1 + (tx.outputs.map TxOutput.preimageBytes).sum)
    else if flags &&& 0x1f = sighashNone then some 1
    else if flags &&& 0x1f = sighashSingle then
      some (1 + ((tx.outputs[inputIndex]?).map TxOutput.preimageBytes).getD 0)
    else none
  pure (4 + 4 + 4 + inputs + outputs)

/-- The source's accumulating loops are the specification's sums. -/
theorem foldl_add_eq_sum {α : Type} (f : α → Nat) :
    ∀ (l : List α) (a : Nat), l.foldl (fun s x => s + f x) a = a + (l.map f).sum
  | [], a => by simp
  | x :: l, a => by
    rw [List.foldl_cons, foldl_add_eq_sum f l, List.map_cons, List.sum_cons]
    omega

/-- For every transaction, input index in range and flags whose base type is `ALL`, `NONE` or
`SINGLE`, with or without `ANYONECANPAY`, `calculate_sighash_size` is §4.3's count, except under
`SINGLE` with no output at the input's index: there it leaves out the outputs section's count
byte. -/
theorem calculateSighashSize_eq_preimageSize (tx : Transaction) {inputIndex flags : Nat}
    (hi : inputIndex < tx.inputs.length)
    (hb : flags &&& 0x1f = sighashAll ∨ flags &&& 0x1f = sighashNone ∨
      flags &&& 0x1f = sighashSingle) :
    calculateSighashSize tx inputIndex flags = (preimageSize tx inputIndex flags).map fun n =>
      if flags &&& 0x1f = sighashSingle ∧ tx.outputs.length ≤ inputIndex then n - 1 else n := by
  have hI := foldl_add_eq_sum TxInput.preimageBytes tx.inputs
  have hO := foldl_add_eq_sum TxOutput.preimageBytes tx.outputs
  simp only [TxInput.preimageBytes, TxOutput.preimageBytes] at hI hO
  unfold calculateSighashSize preimageSize
  -- `ANYONECANPAY` or not, the input's output present or not, and the three base types: in each
  -- case both sides add up the same section sizes
  by_cases ha : flags &&& sighashAnyonecanpay = 0 <;>
    rcases Nat.lt_or_ge inputIndex tx.outputs.length with ho | ho <;>
    rcases hb with hb | hb | hb <;>
    simp (disch := omega) [ha, hb, hI, hO, List.getElem?_eq_getElem, List.getElem?_eq_none,
      if_pos, if_neg, TxInput.preimageBytes, TxOutput.preimageBytes, sighashAll, sighashNone,
      sighashSingle] <;>
    omega

theorem calculateSighashSize_eq_preimageSize_single :
    1 < [TxInput.mk [0x51], TxInput.mk []].length ∧
      ((0x83 : Nat) &&& 0x1f = sighashAll ∨ (0x83 : Nat) &&& 0x1f = sighashNone ∨
        (0x83 : Nat) &&& 0x1f = sighashSingle) ∧
      calculateSighashSize ⟨[⟨[0x51]⟩, ⟨[]⟩], [⟨[0x51]⟩]⟩ 1 0x83 =
        (preimageSize ⟨[⟨[0x51]⟩, ⟨[]⟩], [⟨[0x51]⟩]⟩ 1 0x83).map fun n =>
          if (0x83 : Nat) &&& 0x1f = sighashSingle ∧ [TxOutput.mk [0x51]].length ≤ 1 then n - 1
          else n :=
  have hi : 1 < [TxInput.mk [0x51], TxInput.mk []].length := by decide
  have hb : (0x83 : Nat) &&& 0x1f = sighashAll ∨ (0x83 : Nat) &&& 0x1f = sighashNone ∨
      (0x83 : Nat) &&& 0x1f = sighashSingle := by decide
  ⟨hi, hb,
    calculateSighashSize_eq_preimageSize ⟨[⟨[0x51]⟩, ⟨[]⟩], [⟨[0x51]⟩]⟩ hi hb⟩

/-- `SIGHASH_SINGLE` for the only input of a transaction without outputs: the source counts 54
bytes where §4.3 counts 55, the outputs section's count byte. -/
theorem calculateSighashSize_single_no_output :
    calculateSighashSize ⟨[⟨[]⟩], []⟩ 0 sighashSingle = some 54 ∧
      preimageSize ⟨[⟨[]⟩], []⟩ 0 sighashSingle = some 55 := by
  decide

end Bsv.Cost
