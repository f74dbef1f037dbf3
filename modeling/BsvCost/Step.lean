import BsvCost.Estimator

/-!
# What one pass of the loop can do

The facts about a single pass of the loop body that the run-level results are built from.

* `ElementFrame`: executing one element moves `pc` forward, changes the size stack by at most one
  entry and the signature count by at most one, lowers no total, and touches neither the opcode
  count, the peaks nor the warnings (`execElement_spec`).
* `loopBody_cases`: a pass either stops at the opcode limit, leaving the state as it was up to
  the warning, or fetches the byte at `pc`, executes it, tracks the peaks and checks the stack
  limits.
* `loopBody_isSome`: entered with `pc` inside the script, a pass reads nothing out of range.
-/

namespace Bsv.Cost

section Step

variable {M : CostModel} {tx : Transaction} {inputIndex : Nat} {limits : EstimatorLimits}
  {combined : Script}

/-! ## Equations of the loop -/

@[simp] theorem loop_zero (st : ExecState) :
    loop M tx inputIndex limits combined 0 st = some st := rfl

theorem loop_succ (fuel : Nat) (st : ExecState) :
    loop M tx inputIndex limits combined (fuel + 1) st =
      if st.pc < combined.length then
        (loopBody M tx inputIndex limits combined st).bind fun
          | .next st => loop M tx inputIndex limits combined fuel st
          | .brk st => some st
      else some st := rfl

theorem loop_succ_of_le {fuel : Nat} {st : ExecState} (h : combined.length ≤ st.pc) :
    loop M tx inputIndex limits combined (fuel + 1) st = some st := by
  rw [loop_succ, if_neg (by omega)]

theorem loop_succ_next {fuel : Nat} {st st' : ExecState} (h : st.pc < combined.length)
    (hb : loopBody M tx inputIndex limits combined st = some (.next st')) :
    loop M tx inputIndex limits combined (fuel + 1) st =
      loop M tx inputIndex limits combined fuel st' := by
  rw [loop_succ, if_pos h, hb]; rfl

theorem loop_succ_brk {fuel : Nat} {st st' : ExecState} (h : st.pc < combined.length)
    (hb : loopBody M tx inputIndex limits combined st = some (.brk st')) :
    loop M tx inputIndex limits combined (fuel + 1) st = some st' := by
  rw [loop_succ, if_pos h, hb]; rfl

/-! ## Equations of the switch cases -/

section Cases

variable (M) {op : OpCode} {st : ExecState}

theorem switchDup_nil (h : st.stackSizes = []) :
    switchDup M op st = some ({ st with breakdown.stackOps :=
      st.breakdown.stackOps + calculateOpcodeCost M op [] }, []) := by
  simp [switchDup, h]

theorem switchDup_cons {t : Nat} {r : List Nat} (h : st.stackSizes = t :: r) :
    switchDup M op st = some
      ({ st with stackSizes := t :: t :: r, currentStackBytes := add64 st.currentStackBytes t,
                 breakdown.stackOps := st.breakdown.stackOps + calculateOpcodeCost M op [t] },
        [t]) := by
  simp [switchDup, h]

theorem switchSwap_of_lt (h : st.stackSizes.length < 2) :
    switchSwap M op st = some ({ st with breakdown.stackOps :=
      st.breakdown.stackOps + calculateOpcodeCost M op [] }, []) := by
  simp [switchSwap, show ¬ 2 ≤ st.stackSizes.length by omega]

theorem switchSwap_cons {a b : Nat} {r : List Nat} (h : st.stackSizes = a :: b :: r) :
    switchSwap M op st = some
      ({ st with stackSizes := b :: a :: r,
                 breakdown.stackOps := st.breakdown.stackOps + calculateOpcodeCost M op [] },
        []) := by
  simp [switchSwap, h]

theorem switchCat_of_lt (h : st.stackSizes.length < 2) :
    switchCat M op st = some ({ st with breakdown.byteOps :=
      st.breakdown.byteOps + calculateOpcodeCost M op [] }, []) := by
  simp [switchCat, show ¬ 2 ≤ st.stackSizes.length by omega]

theorem switchCat_cons {a b : Nat} {r : List Nat} (h : st.stackSizes = b :: a :: r) :
    switchCat M op st = some
      ({ st with stackSizes := add64 a b :: r,
                 currentStackBytes := add64 (sub64 (sub64 st.currentStackBytes a) b) (add64 a b),
                 breakdown.byteOps := st.breakdown.byteOps + calculateOpcodeCost M op [add64 a b] },
        [add64 a b]) := by
  simp [switchCat, h]

theorem switchHash_nil (h : st.stackSizes = []) :
    switchHash M op st = some ({ st with breakdown.hashing :=
      st.breakdown.hashing + calculateOpcodeCost M op [] }, []) := by
  simp [switchHash, h]

theorem switchHash_cons {x : Nat} {r : List Nat} (h : st.stackSizes = x :: r) :
    switchHash M op st = some
      ({ st with stackSizes := 32 :: r,
                 currentStackBytes := add64 (sub64 st.currentStackBytes x) 32,
                 breakdown.hashing := st.breakdown.hashing + calculateOpcodeCost M op [x] },
        [x]) := by
  simp [switchHash, h]

variable (tx inputIndex)

/-- The preimage size `OP_CHECKSIG` charges for. -/
def checksigPreimage : Nat :=
  (calculateSighashSize tx inputIndex sighashAll).getD 0

theorem calculateSighashSize_all_eq :
    calculateSighashSize tx inputIndex sighashAll = some (checksigPreimage tx inputIndex) := by
  simp [checksigPreimage, calculateSighashSize_all]

theorem switchChecksig_of_lt (h : st.stackSizes.length < 2) :
    switchChecksig M tx inputIndex op st = some
      ({ st with breakdown.signatures := st.breakdown.signatures +
                   calculateOpcodeCost M op [checksigPreimage tx inputIndex],
                 signatureCount := st.signatureCount + 1 }, []) := by
  simp [switchChecksig, calculateSighashSize_all_eq, show ¬ 2 ≤ st.stackSizes.length by omega]

theorem switchChecksig_cons {a b : Nat} {r : List Nat} (h : st.stackSizes = a :: b :: r) :
    switchChecksig M tx inputIndex op st = some
      ({ st with stackSizes := 1 :: r,
                 breakdown.signatures := st.breakdown.signatures +
                   calculateOpcodeCost M op [checksigPreimage tx inputIndex],
                 signatureCount := st.signatureCount + 1 }, []) := by
  simp [switchChecksig, calculateSighashSize_all_eq, h]

end Cases

/-! ## The frame of one element -/

variable (M tx inputIndex limits)

/-- What executing one element may change, and by how much. -/
structure ElementFrame (st st' : ExecState) : Prop where
  pc_le : st.pc ≤ st'.pc
  length_le : st'.stackSizes.length ≤ st.stackSizes.length + 1
  signatureCount_le : st'.signatureCount ≤ st.signatureCount + 1
  signatureCount_ge : st.signatureCount ≤ st'.signatureCount
  opcodeCount : st'.opcodeCount = st.opcodeCount
  peakStackBytes : st'.peakStackBytes = st.peakStackBytes
  peakStackItems : st'.peakStackItems = st.peakStackItems
  warnings : st'.warnings = st.warnings
  totalCycles_le : st.totalCycles ≤ st'.totalCycles

/-- Every case of the switch returns, within the element frame and leaving `pc` alone. -/
theorem switchOpcode_spec (op : OpCode) (st : ExecState) :
    ∃ r, switchOpcode M tx inputIndex op st = some r ∧ ElementFrame st r.1 ∧ r.1.pc = st.pc := by
  have hlt : ∀ l : List Nat, l.length < 2 ∨ ∃ a b r, l = a :: b :: r := by
    rintro (_ | ⟨a, _ | ⟨b, r⟩⟩) <;> simp
  unfold switchOpcode
  cases switchCase op
  · rcases hs : st.stackSizes with _ | ⟨t, r⟩
    · exact ⟨_, switchDup_nil M hs, by constructor <;> simp, rfl⟩
    · exact ⟨_, switchDup_cons M hs, by constructor <;> simp [hs], rfl⟩
  · rcases hlt st.stackSizes with hs | ⟨a, b, r, hs⟩
    · exact ⟨_, switchSwap_of_lt M hs, by constructor <;> simp, rfl⟩
    · exact ⟨_, switchSwap_cons M hs, by constructor <;> simp [hs], rfl⟩
  · rcases hlt st.stackSizes with hs | ⟨a, b, r, hs⟩
    · exact ⟨_, switchCat_of_lt M hs, by constructor <;> simp, rfl⟩
    · exact ⟨_, switchCat_cons M hs, by constructor <;> simp [hs], rfl⟩
  · rcases hs : st.stackSizes with _ | ⟨t, r⟩
    · exact ⟨_, switchHash_nil M hs, by constructor <;> simp, rfl⟩
    · exact ⟨_, switchHash_cons M hs, by constructor <;> simp [hs], rfl⟩
  · rcases hlt st.stackSizes with hs | ⟨a, b, r, hs⟩
    · exact ⟨_, switchChecksig_of_lt M tx inputIndex hs, by constructor <;> simp, rfl⟩
    · exact ⟨_, switchChecksig_cons M tx inputIndex hs, by constructor <;> simp [hs], rfl⟩
  · exact ⟨_, rfl, by constructor <;> simp, rfl⟩

theorem execOpcode_of_switchOpcode {op : OpCode} {st st' : ExecState} {params : List Nat}
    (h : switchOpcode M tx inputIndex op st = some (st', params)) :
    execOpcode M tx inputIndex op st =
      some { st' with totalCycles := st'.totalCycles + calculateOpcodeCost M op params } := by
  simp [execOpcode, h]

theorem execOpcode_spec (op : OpCode) (st : ExecState) :
    ∃ st', execOpcode M tx inputIndex op st = some st' ∧ ElementFrame st st' ∧ st'.pc = st.pc := by
  obtain ⟨⟨st₁, params⟩, h, hf, hpc⟩ := switchOpcode_spec M tx inputIndex op st
  refine ⟨_, execOpcode_of_switchOpcode M tx inputIndex h, ?_, hpc⟩
  exact ⟨hf.pc_le, hf.length_le, hf.signatureCount_le, hf.signatureCount_ge, hf.opcodeCount,
    hf.peakStackBytes, hf.peakStackItems, hf.warnings,
    hf.totalCycles_le.trans (Nat.le_add_right _ _)⟩

/-- Every element, push or opcode, is executed without an out-of-range read. -/
theorem execElement_spec (combined : Script) (opByte : UInt8) (st : ExecState) :
    ∃ st', execElement M tx inputIndex combined opByte st = some st' ∧ ElementFrame st st' := by
  unfold execElement
  split_ifs with hpush hpd
  · exact ⟨_, rfl, by constructor <;> simp [ExecState.pushSize]⟩
  · obtain ⟨len, hlen⟩ : ∃ len, combined[st.pc]? = some len :=
      ⟨_, List.getElem?_eq_getElem hpd.2⟩
    refine ⟨{ st with pc := st.pc + 1 + len.toNat }.pushSize len.toNat, by simp [hlen], ?_⟩
    constructor <;> simp [ExecState.pushSize]
    omega
  · obtain ⟨st', h, hf, -⟩ := execOpcode_spec M tx inputIndex ⟨opByte⟩ st
    exact ⟨st', h, hf⟩

/-! ## One pass of the loop body -/

theorem checkLimits_cases (st : ExecState) :
    (checkLimits limits st = .next st ∧ st.currentStackBytes ≤ limits.maxStackItemSize.toNat ∧
      st.stackSizes.length ≤ limits.maxStackItems.toNat) ∨
    ∃ w, checkLimits limits st = .brk (st.warn w) := by
  unfold checkLimits
  split_ifs with h₁ h₂
  · exact .inr ⟨_, rfl⟩
  · exact .inr ⟨_, rfl⟩
  · exact .inl ⟨rfl, by omega, by omega⟩

/-- What one pass of the loop body does, entered with `pc` inside the script: it stops at the
opcode limit, or it fetches the byte at `pc`, executes it within the element frame, tracks the
peaks and checks the stack limits. -/
theorem loopBody_spec {st : ExecState} (h : st.pc < combined.length) :
    (limits.maxOpcodeCount.toNat ≤ st.opcodeCount ∧
      loopBody M tx inputIndex limits combined st =
        some (.brk (st.warn "Opcode count limit exceeded"))) ∨
    (st.opcodeCount < limits.maxOpcodeCount.toNat ∧
      ∃ st₁, execElement M tx inputIndex combined combined[st.pc]
          (st.fetch (castU64 M.cDispatch)) = some st₁ ∧
        ElementFrame (st.fetch (castU64 M.cDispatch)) st₁ ∧
        loopBody M tx inputIndex limits combined st = some (checkLimits limits st₁.trackPeak)) := by
  unfold loopBody
  split_ifs with hop
  · exact .inl ⟨hop, rfl⟩
  · obtain ⟨st₁, he, hf⟩ :=
      execElement_spec M tx inputIndex combined combined[st.pc] (st.fetch (castU64 M.cDispatch))
    exact .inr ⟨by omega, st₁, he, hf, by simp [List.getElem?_eq_getElem h, he]⟩

/-- Entered with `pc` inside the script, a pass reads nothing out of range. -/
theorem loopBody_isSome {st : ExecState} (h : st.pc < combined.length) :
    (loopBody M tx inputIndex limits combined st).isSome := by
  rcases loopBody_spec M tx inputIndex limits h
    with ⟨-, hb⟩ | ⟨-, st₁, -, -, hb⟩ <;> simp [hb]

end Step

end Bsv.Cost
