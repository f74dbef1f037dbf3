import BsvCost.Invariants

/-!
# Raising the limits

The safety limits only stop a run; no pass computes anything from them. So a run that stayed
within one set of limits is, step for step, the run under any higher ones.

* `EstimatorLimits.Le`: each of the four limits `estimate` reads is at most the other's
  (`max_total_cycles` is read by nothing).
* `loopBody_limits_mono`: a pass that goes on under the lower limits goes on, to the same
  state, under the higher ones.
* `loop_limits_mono`, `run_limits_mono`: a run that issued no warning is, after every number of
  passes, the run under the higher limits.
* `estimate_limits_mono`: an estimate without warnings is the estimate under every higher set
  of limits.
-/

namespace Bsv.Cost

/-- Every limit `estimate` reads is at most the other's. -/
structure EstimatorLimits.Le (L L' : EstimatorLimits) : Prop where
  maxScriptSize : L.maxScriptSize.toNat ≤ L'.maxScriptSize.toNat
  maxStackItems : L.maxStackItems.toNat ≤ L'.maxStackItems.toNat
  maxStackItemSize : L.maxStackItemSize.toNat ≤ L'.maxStackItemSize.toNat
  maxOpcodeCount : L.maxOpcodeCount.toNat ≤ L'.maxOpcodeCount.toNat

section Limits

variable {M : CostModel} {tx : Transaction} {inputIndex : Nat} {L L' : EstimatorLimits}
  {combined : Script}

theorem checkLimits_of_le {st : ExecState}
    (hb : st.currentStackBytes ≤ L.maxStackItemSize.toNat)
    (hi : st.stackSizes.length ≤ L.maxStackItems.toNat) : checkLimits L st = .next st := by
  simp only [checkLimits, if_neg (Nat.not_lt.2 hb), if_neg (Nat.not_lt.2 hi)]

theorem loopBody_limits_mono (hL : L.Le L') {st st' : ExecState} (hpc : st.pc < combined.length)
    (h : loopBody M tx inputIndex L combined st = some (.next st')) :
    loopBody M tx inputIndex L' combined st = some (.next st') := by
  obtain ⟨hop, st₁, he, -, rfl, hb, hi⟩ := loopBody_next hpc h
  have hop' : ¬ L'.maxOpcodeCount.toNat ≤ st.opcodeCount := by
    have := hL.maxOpcodeCount; omega
  simp only [loopBody, if_neg hop', List.getElem?_eq_getElem hpc, Option.bind_eq_bind,
    Option.some_bind, he, Option.pure_def,
    checkLimits_of_le (hb.trans hL.maxStackItemSize) (hi.trans hL.maxStackItems)]

/-- A run under the lower limits that issued no warning is the run under the higher ones. -/
theorem loop_limits_mono (hL : L.Le L') :
    ∀ {fuel : Nat} {st st' : ExecState}, loop M tx inputIndex L combined fuel st = some st' →
      st'.warnings = st.warnings → loop M tx inputIndex L' combined fuel st = some st'
  | 0, _, _, h, _ => h
  | fuel + 1, st, st', h, hw => by
    by_cases hpc : st.pc < combined.length
    · cases hb : loopBody M tx inputIndex L combined st with
      | none => simp [loop_succ, hpc, hb] at h
      | some fl =>
        cases fl with
        | next s =>
          rw [loop_succ_next hpc hb] at h
          rw [loop_succ_next hpc (loopBody_limits_mono hL hpc hb)]
          exact loop_limits_mono hL h (hw.trans (loopBody_next_pc hpc hb).2.symm)
        | brk s =>
          -- a pass that breaks appends a warning, which the run's end would carry
          rw [loop_succ_brk hpc hb, Option.some.injEq] at h
          subst h
          obtain ⟨w, -, hw'⟩ := loopBody_brk_warn hpc hb
          simp [hw'] at hw
    · rw [loop_succ_of_le (not_lt.1 hpc)] at h ⊢
      exact h

variable {unlockingScript lockingScript : Script}

theorem run_limits_mono (hL : L.Le L') {fuel : Nat} {st : ExecState}
    (h : run M unlockingScript lockingScript tx inputIndex L fuel = some st)
    (hw : st.warnings = []) :
    run M unlockingScript lockingScript tx inputIndex L' fuel = some st := by
  have hs := run_length_le h hw
  rw [run_eq_loop M tx inputIndex hs] at h
  rw [run_eq_loop M tx inputIndex (hs.trans hL.maxScriptSize)]
  exact loop_limits_mono hL h (by rw [hw]; rfl)

/-- Raising the limits never changes an estimate that carries no warning: for every cost model,
pair of scripts, transaction and input index, if `estimate` under `L` returns `e` without a
warning, it returns the same `e` under every `L'` whose four read limits are at least `L`'s. -/
theorem estimate_limits_mono (hL : L.Le L') {e : CostEstimate}
    (h : estimate M unlockingScript lockingScript tx inputIndex L = some e)
    (hw : e.warnings = []) :
    estimate M unlockingScript lockingScript tx inputIndex L' = some e := by
  obtain ⟨st, hst, rfl⟩ := Option.map_eq_some'.1 h
  simp only [estimate, run_limits_mono hL hst hw, Option.map_some']

end Limits

/-- A push then `OP_DUP` under the default limits, and under twice the item count limit. -/
theorem estimate_limits_mono_push_dup :
    EstimatorLimits.Le {} { maxStackItems := 20000 } ∧
    estimate {} [0x01, 0xAA] [0x76] ⟨[], []⟩ 0 {} = some
      { totalCycles := 112, breakdown := { parsing := 2, dispatch := 10, stackOps := 100 },
        peakStackBytes := 2, peakStackItems := 2, signatureCount := 0, opcodeCount := 2,
        warnings := [] } ∧
    estimate {} [0x01, 0xAA] [0x76] ⟨[], []⟩ 0 { maxStackItems := 20000 } = some
      { totalCycles := 112, breakdown := { parsing := 2, dispatch := 10, stackOps := 100 },
        peakStackBytes := 2, peakStackItems := 2, signatureCount := 0, opcodeCount := 2,
        warnings := [] } :=
  have hL : EstimatorLimits.Le {} { maxStackItems := 20000 } :=
    ⟨le_rfl, by decide, le_rfl, le_rfl⟩
  have h : estimate {} [0x01, 0xAA] [0x76] ⟨[], []⟩ 0 {} = some
      { totalCycles := 112, breakdown := { parsing := 2, dispatch := 10, stackOps := 100 },
        peakStackBytes := 2, peakStackItems := 2, signatureCount := 0, opcodeCount := 2,
        warnings := [] } := by with_unfolding_all decide
  ⟨hL, h, estimate_limits_mono hL h rfl⟩

end Bsv.Cost
