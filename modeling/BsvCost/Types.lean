import Mathlib.Data.Rat.Floor

/-!
# The estimator's data model

The types of `bsv/cost_estimator.h`: script bytes, the opcode identifiers the executor
dispatches on, the sighash flags, the transaction the signature oracle reads, the safety
limits and the returned estimate.

A `uint64_t` that the estimator only adds to or compares is a `Nat` here and is reduced
modulo `2^64` where the code's arithmetic wraps (`add64`, `sub64`). The limits keep their
fixed-width types (`UInt32`, `UInt64`), so a limit above its type's range cannot be built.
A transaction keeps only the script bytes of its inputs and outputs: those are the only
fields `calculate_sighash_size` reads.
-/

namespace Bsv.Cost

/-- A script: `using Script = std::vector<uint8_t>`. -/
abbrev Script := List UInt8

/-- `enum class OpCode : uint8_t`. A cast `static_cast<OpCode>(op_byte)` of any byte is a
value of the enumeration, named or not, so an opcode is a byte. -/
structure OpCode where
  val : UInt8
  deriving DecidableEq, Repr

namespace OpCode

def opDup : OpCode := ⟨0x76⟩
def opSwap : OpCode := ⟨0x7c⟩
def opPick : OpCode := ⟨0x79⟩
def opRoll : OpCode := ⟨0x7a⟩
def opRot : OpCode := ⟨0x7b⟩
def opCat : OpCode := ⟨0x7e⟩
def opSplit : OpCode := ⟨0x7f⟩
def opNum2bin : OpCode := ⟨0x80⟩
def opBin2num : OpCode := ⟨0x81⟩
def opSha1 : OpCode := ⟨0xa7⟩
def opSha256 : OpCode := ⟨0xa8⟩
def opHash160 : OpCode := ⟨0xa9⟩
def opHash256 : OpCode := ⟨0xaa⟩
def opRipemd160 : OpCode := ⟨0xa6⟩
def opChecksig : OpCode := ⟨0xac⟩
def opChecksigverify : OpCode := ⟨0xad⟩
def opCheckmultisig : OpCode := ⟨0xae⟩
def opIf : OpCode := ⟨0x63⟩
def opElse : OpCode := ⟨0x67⟩
def opEndif : OpCode := ⟨0x68⟩
def op0 : OpCode := ⟨0x00⟩
def op1 : OpCode := ⟨0x51⟩
def opPushdata1 : OpCode := ⟨0x4c⟩
def opPushdata2 : OpCode := ⟨0x4d⟩
def opPushdata4 : OpCode := ⟨0x4e⟩

end OpCode

/-! ## Sighash flags -/

/-- `enum SigHashType : uint32_t`. -/
def sighashAll : Nat := 0x01
def sighashNone : Nat := 0x02
def sighashSingle : Nat := 0x03
def sighashAnyonecanpay : Nat := 0x80

/-! ## Transactions -/

/-- `TxInput`, reduced to the field the estimator reads. -/
structure TxInput where
  scriptSig : Script
  deriving DecidableEq, Repr

/-- `TxOutput`, reduced to the field the estimator reads. -/
structure TxOutput where
  scriptPubkey : Script
  deriving DecidableEq, Repr

/-- `Transaction`: its ordered inputs and outputs. -/
structure Transaction where
  inputs : List TxInput
  outputs : List TxOutput
  deriving DecidableEq, Repr

/-! ## Limits and the estimate -/

/-- `EstimatorLimits`, with the header's defaults. -/
structure EstimatorLimits where
  maxScriptSize : UInt64 := 100000000
  maxStackItems : UInt32 := 10000
  maxStackItemSize : UInt64 := 100000000
  maxOpcodeCount : UInt32 := 1000000
  maxTotalCycles : UInt64 := 10000000000
  deriving DecidableEq, Repr

/-- `CostEstimate::Breakdown`. -/
structure Breakdown where
  parsing : Nat := 0
  dispatch : Nat := 0
  stackOps : Nat := 0
  byteOps : Nat := 0
  hashing : Nat := 0
  signatures : Nat := 0
  controlFlow : Nat := 0
  deriving DecidableEq, Repr

/-- `CostEstimate`: the values the estimator returns. -/
structure CostEstimate where
  totalCycles : Nat
  breakdown : Breakdown
  peakStackBytes : Nat
  peakStackItems : Nat
  signatureCount : Nat
  opcodeCount : Nat
  warnings : List String
  deriving DecidableEq, Repr

/-! ## Fixed-width arithmetic -/

/-- `uint64_t` addition. -/
def add64 (a b : Nat) : Nat := (a + b) % 2 ^ 64

/-- `uint64_t` subtraction of `b` from a value `a < 2^64`. -/
def sub64 (a b : Nat) : Nat := (a + (2 ^ 64 - b % 2 ^ 64)) % 2 ^ 64

theorem add64_lt (a b : Nat) : add64 a b < 2 ^ 64 := Nat.mod_lt _ (Nat.two_pow_pos 64)

theorem sub64_lt (a b : Nat) : sub64 a b < 2 ^ 64 := Nat.mod_lt _ (Nat.two_pow_pos 64)

/-- Subtracting what was added gives back a reduced value. -/
theorem sub64_add64 {a : Nat} (b : Nat) (ha : a < 2 ^ 64) : sub64 (add64 a b) b = a := by
  unfold sub64 add64
  omega

end Bsv.Cost
