import Mathlib.Data.Rat.Floor
import BsvCost.Types

/-!
# The cost model and `calculate_opcode_cost`

`OpcodeCostModel` and the estimator's model state (`c_dispatch`, `c_parse_per_byte`, the map
`opcode_costs`), as `load_model` leaves them. The model file's doubles are exact rationals
here; `static_cast<uint64_t>` is truncation toward zero (`castU64`).

Monotonicity (`calculateOpcodeCost_mono`): a model whose coefficients are non-negative and
pointwise below another's, with the same formula type at every opcode, charges at most as much
for every opcode and every parameter list. The executor's own monotonicity in the model is
built on it.
-/

namespace Bsv.Cost

/-- `static_cast<uint64_t>` of a double: truncation toward zero. On `(-1, 0)` the C++ cast is
`0` as here; below that, and at or above `2^64`, the C++ conversion is undefined, and the
model keeps the floor (clamped at `0`). -/
def castU64 (x : ℚ) : Nat := ⌊x⌋.toNat

theorem castU64_mono {x y : ℚ} (h : x ≤ y) : castU64 x ≤ castU64 y :=
  Int.toNat_le_toNat (Int.floor_mono h)

@[simp] theorem castU64_natCast (n : Nat) : castU64 n = n := by
  simp [castU64]

/-- `OpcodeCostModel::Type`, by its four enumerators. The source's enumeration is scoped, so
its value is an `int`; an uninitialised `type` may hold another value, which this type leaves
out. -/
inductive ModelType
  | constant
  | linear
  | signature
  | multisig
  deriving DecidableEq, Repr

/-- `OpcodeCostModel`: a formula type and its coefficients. -/
structure OpcodeCostModel where
  type : ModelType
  c0 : ℚ := 0
  c1 : ℚ := 0
  cEcdsa : ℚ := 0
  cPreimagePerByte : ℚ := 0
  cKeyscan : ℚ := 0
  cSetup : ℚ := 0
  cAlloc : ℚ := 0

/-- The state of `CostEstimator::Impl` that `estimate` reads: the two global constants, with
their defaults, and the map `opcode_costs` (an opcode absent from the map is `none`). -/
structure CostModel where
  cDispatch : ℚ := 5
  cParsePerByte : ℚ := 4 / 5
  opcodeCosts : OpCode → Option OpcodeCostModel := fun _ => none

/-- `CostEstimator::Impl::calculate_opcode_cost`. `n - m` is `uint64_t` subtraction. The
switch covers the four enumerators `ModelType` holds, so the source's last `return 100`, reached
only by a `type` outside them, has no branch here. -/
def calculateOpcodeCost (M : CostModel) (op : OpCode) (params : List Nat) : Nat :=
  match M.opcodeCosts op with
  | none => 100
  | some model =>
    match model.type with
    | .constant => castU64 model.c0
    | .linear =>
      let n := params.getD 0 0
      castU64 (model.c0 + model.c1 * n + model.cAlloc)
    | .signature =>
      let preimageSize := params.getD 0 1000
      castU64 (model.cEcdsa + model.cPreimagePerByte * preimageSize)
    | .multisig =>
      let m := params.getD 0 1
      let n := params.getD 1 3
      let preimageSize := params.getD 2 1000
      castU64 (m * (model.cEcdsa + model.cPreimagePerByte * preimageSize) +
        (sub64 n m : Nat) * model.cKeyscan + model.cSetup)

theorem calculateOpcodeCost_of_none {M : CostModel} {op : OpCode} (h : M.opcodeCosts op = none)
    (params : List Nat) : calculateOpcodeCost M op params = 100 := by
  simp [calculateOpcodeCost, h]

/-! ## Ordered models -/

/-- Two opcode formulas of the same type whose coefficients are non-negative and pointwise
ordered. -/
structure OpcodeCostModel.Le (a b : OpcodeCostModel) : Prop where
  type_eq : a.type = b.type
  c0 : 0 ≤ a.c0 ∧ a.c0 ≤ b.c0
  c1 : 0 ≤ a.c1 ∧ a.c1 ≤ b.c1
  cEcdsa : 0 ≤ a.cEcdsa ∧ a.cEcdsa ≤ b.cEcdsa
  cPreimagePerByte : 0 ≤ a.cPreimagePerByte ∧ a.cPreimagePerByte ≤ b.cPreimagePerByte
  cKeyscan : 0 ≤ a.cKeyscan ∧ a.cKeyscan ≤ b.cKeyscan
  cSetup : 0 ≤ a.cSetup ∧ a.cSetup ≤ b.cSetup
  cAlloc : 0 ≤ a.cAlloc ∧ a.cAlloc ≤ b.cAlloc

/-- Two cost models giving formulas of the same type to the same opcodes, with every
coefficient non-negative and pointwise ordered. -/
structure CostModel.Le (M₁ M₂ : CostModel) : Prop where
  cDispatch : 0 ≤ M₁.cDispatch ∧ M₁.cDispatch ≤ M₂.cDispatch
  cParsePerByte : 0 ≤ M₁.cParsePerByte ∧ M₁.cParsePerByte ≤ M₂.cParsePerByte
  opcodeCosts : ∀ op, match M₁.opcodeCosts op, M₂.opcodeCosts op with
    | none, none => True
    | some a, some b => a.Le b
    | _, _ => False

theorem OpcodeCostModel.Le.signatureTerm {a b : OpcodeCostModel} (h : a.Le b) (p : ℚ)
    (hp : 0 ≤ p) : a.cEcdsa + a.cPreimagePerByte * p ≤ b.cEcdsa + b.cPreimagePerByte * p :=
  add_le_add h.cEcdsa.2 (mul_le_mul_of_nonneg_right h.cPreimagePerByte.2 hp)

/-- A pointwise smaller model charges at most as much for every opcode. -/
theorem calculateOpcodeCost_mono {M₁ M₂ : CostModel} (h : M₁.Le M₂) (op : OpCode)
    (params : List Nat) : calculateOpcodeCost M₁ op params ≤ calculateOpcodeCost M₂ op params := by
  have hop := h.opcodeCosts op
  unfold calculateOpcodeCost
  cases h₁ : M₁.opcodeCosts op with
  | none =>
    cases h₂ : M₂.opcodeCosts op with
    | none => exact le_rfl
    | some b => simp only [h₁, h₂] at hop
  | some a =>
  cases h₂ : M₂.opcodeCosts op with
  | none => simp only [h₁, h₂] at hop
  | some b =>
  simp only [h₁, h₂] at hop ⊢
  have hn : ∀ n : Nat, (0 : ℚ) ≤ n := fun n => Nat.cast_nonneg n
  rw [← hop.type_eq]
  cases a.type <;> apply castU64_mono
  · exact hop.c0.2
  · exact add_le_add (add_le_add hop.c0.2 (mul_le_mul_of_nonneg_right hop.c1.2 (hn _)))
      hop.cAlloc.2
  · exact hop.signatureTerm _ (hn _)
  · refine add_le_add (add_le_add ?_ ?_) hop.cSetup.2
    · exact mul_le_mul_of_nonneg_left (hop.signatureTerm _ (hn _)) (hn _)
    · exact mul_le_mul_of_nonneg_left hop.cKeyscan.2 (hn _)

end Bsv.Cost
