import BsvCost.Run

/-!
# Counts, peaks and limits over every run

The bookkeeping of `estimate` after every pass of its loop, for every input.

* `CountInv`: at every state the loop goes on from, signatures never outnumber opcodes, the
  opcode count is within its limit, and the size stack holds no more entries than opcodes were
  executed, nor more than `max_stack_items`; a pass that breaks may leave one entry more.
* Peak tracking (`loopBody_peak`): each pass sets the peak to the larger of the old peak and the
  new entry count, and the `uint32_t` cast never truncates because the count is bounded by
  `max_opcode_count`. So the peak is the largest entry count of the run (`loop_peak_of`, a run
  induction for any peak tracked this way).
* Totality (`run_isSome`): no pass reads out of range.
* A run whose estimate carries no warning was in range at every step and reached the end of the
  combined script (`estimate_no_warning`).
* Every run carries no warning or exactly one of the four, after which it has stopped
  (`run_warnings`), and the loop ends within `combined.size()` passes (`run_add_fuel`).
-/

namespace Bsv.Cost

section Counts

variable {M : CostModel} {tx : Transaction} {inputIndex : Nat} {limits : EstimatorLimits}
  {combined : Script}

/-- The counts at a state the loop goes on from. -/
structure CountInv (limits : EstimatorLimits) (st : ExecState) : Prop where
  signatureCount_le : st.signatureCount ≤ st.opcodeCount
  opcodeCount_le : st.opcodeCount ≤ limits.maxOpcodeCount.toNat
  length_le_opcodeCount : st.stackSizes.length ≤ st.opcodeCount
  length_le_items : st.stackSizes.length ≤ limits.maxStackItems.toNat
  length_le_peak : st.stackSizes.length ≤ st.peakStackItems

/-- The counts at every state of a run: one entry past `max_stack_items` at most. -/
structure CountBound (limits : EstimatorLimits) (st : ExecState) : Prop where
  signatureCount_le : st.signatureCount ≤ st.opcodeCount
  opcodeCount_le : st.opcodeCount ≤ limits.maxOpcodeCount.toNat
  length_le_opcodeCount : st.stackSizes.length ≤ st.opcodeCount
  length_le_items : st.stackSizes.length ≤ limits.maxStackItems.toNat + 1
  length_le_peak : st.stackSizes.length ≤ st.peakStackItems

theorem CountInv.bound {st : ExecState} (h : CountInv limits st) : CountBound limits st :=
  ⟨h.1, h.2, h.3, by have := h.4; omega, h.5⟩

theorem CountBound.warn {st : ExecState} (h : CountBound limits st) (w : String) :
    CountBound limits (st.warn w) :=
  ⟨h.1, h.2, h.3, h.4, h.5⟩

theorem CountBound.length_lt {st : ExecState} (h : CountBound limits st) :
    st.stackSizes.length < 2 ^ 32 := by
  have := limits.maxOpcodeCount.toNat_lt_size
  have := h.length_le_opcodeCount
  have := h.opcodeCount_le
  simp only [UInt32.size] at *
  omega

/-- The element a pass executes keeps the counts, with one entry of slack. -/
theorem CountInv.element {st st₁ : ExecState} (h : CountInv limits st)
    (hop : st.opcodeCount < limits.maxOpcodeCount.toNat)
    (hf : ElementFrame (st.fetch (castU64 M.cDispatch)) st₁) :
    CountBound limits st₁.trackPeak := by
  have h₁ := hf.length_le; have h₂ := hf.signatureCount_le; have h₃ := hf.opcodeCount
  have h₄ := hf.peakStackItems
  simp only [ExecState.fetch_stackSizes, ExecState.fetch_signatureCount,
    ExecState.fetch_opcodeCount, ExecState.fetch_peakStackItems] at h₁ h₂ h₃ h₄
  have hlen : st₁.stackSizes.length < 2 ^ 32 := by
    have := limits.maxOpcodeCount.toNat_lt_size
    have := h.length_le_opcodeCount
    simp only [UInt32.size] at *
    omega
  refine ⟨?_, ?_, ?_, ?_, ?_⟩ <;>
    simp only [ExecState.trackPeak_stackSizes, ExecState.trackPeak_signatureCount,
      ExecState.trackPeak_opcodeCount, ExecState.trackPeak_peakStackItems,
      Nat.mod_eq_of_lt hlen] <;>
    have := h.1 <;> have := h.3 <;> have := h.4 <;> omega

theorem countInv_next {st st' : ExecState} (h : CountInv limits st) (hpc : st.pc < combined.length)
    (hb : loopBody M tx inputIndex limits combined st = some (.next st')) :
    CountInv limits st' := by
  obtain ⟨hop, st₁, -, hf, rfl, -, hitems⟩ := loopBody_next hpc hb
  have := h.element hop hf
  exact ⟨this.1, this.2, this.3, hitems, this.5⟩

theorem countBound_brk {st st' : ExecState} (h : CountInv limits st)
    (hpc : st.pc < combined.length)
    (hb : loopBody M tx inputIndex limits combined st = some (.brk st')) :
    CountBound limits st' := by
  rcases loopBody_brk hpc hb with ⟨-, rfl⟩ | ⟨hop, st₁, w, hf, rfl⟩
  · exact h.bound.warn _
  · exact (h.element hop hf).warn w

/-- Every state a run reaches from a counted state is within the count bounds. -/
theorem loop_countBound {fuel : Nat} {st st' : ExecState} (h : CountInv limits st)
    (hl : loop M tx inputIndex limits combined fuel st = some st') : CountBound limits st' :=
  loop_induction (fun _ h => h.bound) (fun _ _ h hpc hb => countInv_next h hpc hb)
    (fun _ _ h hpc hb => countBound_brk h hpc hb) fuel st st' h hl

/-! ## The peak entry count -/

/-- Each pass sets the peak to the larger of the old peak and the new entry count. -/
theorem loopBody_peak {st : ExecState} {fl : Flow} (h : CountInv limits st)
    (hpc : st.pc < combined.length) (hb : loopBody M tx inputIndex limits combined st = some fl) :
    fl.state.peakStackItems = max st.peakStackItems fl.state.stackSizes.length := by
  have hlen : ∀ st₁, ElementFrame (st.fetch (castU64 M.cDispatch)) st₁ →
      st.opcodeCount < limits.maxOpcodeCount.toNat →
      st₁.trackPeak.peakStackItems = max st.peakStackItems st₁.trackPeak.stackSizes.length :=
    fun st₁ hf hop => by
      have := (h.element hop hf).length_lt
      have := hf.peakStackItems
      simp only [ExecState.trackPeak_peakStackItems, ExecState.trackPeak_stackSizes,
        ExecState.fetch_peakStackItems] at *
      rw [this, Nat.mod_eq_of_lt (by assumption)]
  cases fl with
  | next st' =>
    obtain ⟨hop, st₁, -, hf, rfl, -⟩ := loopBody_next hpc hb
    exact hlen st₁ hf hop
  | brk st' =>
    rcases loopBody_brk hpc hb with ⟨-, rfl⟩ | ⟨hop, st₁, w, hf, rfl⟩
    · simp [Nat.max_eq_left h.length_le_peak]
    · exact hlen st₁ hf hop

/-- Run induction for a peak: if each pass, from a state satisfying `Inv` (kept by the passes
that go on, and under which the measure `f` is within the peak), sets the peak to the larger of
the old peak and the new measure, then along a run the peak never drops, bounds every measure
reached, and is the starting peak or one of the measures reached. -/
theorem loop_peak_of (peak f : ExecState → Nat) {Inv : ExecState → Prop}
    (hle : ∀ st, Inv st → f st ≤ peak st)
    (hnext : ∀ st st', Inv st → st.pc < combined.length →
      loopBody M tx inputIndex limits combined st = some (.next st') → Inv st')
    (hpeak : ∀ st fl, Inv st → st.pc < combined.length →
      loopBody M tx inputIndex limits combined st = some fl →
        peak fl.state = max (peak st) (f fl.state)) :
    ∀ {fuel : Nat} {st st' : ExecState}, Inv st →
      loop M tx inputIndex limits combined fuel st = some st' →
      peak st ≤ peak st' ∧
      (∀ j ≤ fuel, ∀ u, loop M tx inputIndex limits combined j st = some u → f u ≤ peak st') ∧
      (peak st' = peak st ∨
        ∃ j ≤ fuel, ∃ u, loop M tx inputIndex limits combined j st = some u ∧ f u = peak st')
  | 0, st, st', h, hl => by
    cases hl
    refine ⟨le_rfl, fun j hj u hu => ?_, .inl rfl⟩
    obtain rfl : j = 0 := by omega
    cases hu; exact hle _ h
  | fuel + 1, st, st', h, hl => by
    have hlp := hle _ h
    by_cases hpc : st.pc < combined.length
    · obtain ⟨fl, hb⟩ := Option.isSome_iff_exists.1
        (loopBody_isSome M tx inputIndex limits hpc)
      have hpk := hpeak _ _ h hpc hb
      cases fl with
      | brk s =>
        rw [loop_succ_brk hpc hb, Option.some.injEq] at hl; subst hl
        simp only [Flow.state_brk] at hpk
        refine ⟨by omega, fun j hj u hu => ?_, ?_⟩
        · cases j with
          | zero => cases hu; omega
          | succ j => rw [loop_succ_brk hpc hb] at hu; cases hu; omega
        · rcases Nat.le_total (peak st) (f s) with hle' | hle'
          · exact .inr ⟨1, by omega, s, loop_succ_brk hpc hb, by omega⟩
          · exact .inl (by omega)
      | next s =>
        rw [loop_succ_next hpc hb] at hl
        simp only [Flow.state_next] at hpk
        obtain ⟨ih₁, ih₂, ih₃⟩ := loop_peak_of peak f hle hnext hpeak (hnext _ _ h hpc hb) hl
        refine ⟨by omega, fun j hj u hu => ?_, ?_⟩
        · cases j with
          | zero => cases hu; omega
          | succ j => rw [loop_succ_next hpc hb] at hu; exact ih₂ j (by omega) u hu
        · rcases ih₃ with heq | ⟨j, hj, u, hu, hequ⟩
          · rcases Nat.le_total (peak st) (f s) with hle' | hle'
            · exact .inr ⟨1, by omega, s, by rw [loop_succ_next hpc hb]; rfl, by omega⟩
            · exact .inl (by omega)
          · exact .inr ⟨j + 1, by omega, u, by rw [loop_succ_next hpc hb]; exact hu, hequ⟩
    · have hstay : ∀ j, loop M tx inputIndex limits combined j st = some st := fun j => by
        cases j with
        | zero => rfl
        | succ j => exact loop_succ_of_le (by omega)
      rw [hstay] at hl; cases hl
      refine ⟨le_rfl, fun j _ u hu => ?_, .inl rfl⟩
      rw [hstay] at hu; cases hu; exact hlp

end Counts

/-! ## Every run of `estimate` -/

section Estimate

variable {M : CostModel} {tx : Transaction} {inputIndex : Nat} {limits : EstimatorLimits}
  {unlockingScript lockingScript : Script}

theorem countInv_start (M : CostModel) (combined : Script) : CountInv limits (start M combined) :=
  ⟨le_rfl, Nat.zero_le _, le_rfl, Nat.zero_le _, le_rfl⟩

theorem countBound_tooLarge : CountBound limits tooLarge :=
  ⟨le_rfl, Nat.zero_le _, le_rfl, Nat.zero_le _, le_rfl⟩

variable (M tx inputIndex) in
theorem run_eq_loop (h : (unlockingScript ++ lockingScript).length ≤ limits.maxScriptSize.toNat)
    (fuel : Nat) :
    run M unlockingScript lockingScript tx inputIndex limits fuel =
      loop M tx inputIndex limits (unlockingScript ++ lockingScript) fuel
        (start M (unlockingScript ++ lockingScript)) := by
  simp only [run]; rw [if_neg (by omega)]

theorem run_of_lt (h : limits.maxScriptSize.toNat < (unlockingScript ++ lockingScript).length)
    (fuel : Nat) :
    run M unlockingScript lockingScript tx inputIndex limits fuel = some tooLarge := by
  simp only [run]; rw [if_pos h]; rfl

/-- `estimate` returns the state its full run returns, with the accounts reduced. -/
theorem estimate_of_run {st : ExecState}
    (h : run M unlockingScript lockingScript tx inputIndex limits
      (unlockingScript ++ lockingScript).length = some st) :
    estimate M unlockingScript lockingScript tx inputIndex limits = some st.toEstimate := by
  rw [estimate, h]; rfl

variable (M unlockingScript lockingScript tx inputIndex limits) in
/-- Every run of `estimate` has a state after every number of passes. -/
theorem run_exists (fuel : Nat) :
    ∃ st, run M unlockingScript lockingScript tx inputIndex limits fuel = some st := by
  by_cases h : limits.maxScriptSize.toNat < (unlockingScript ++ lockingScript).length
  · exact ⟨_, run_of_lt h fuel⟩
  · rw [run_eq_loop M tx inputIndex (by omega)]
    exact Option.isSome_iff_exists.1 (loop_isSome _ _)

/-- A run that issued no warning was not rejected for size. -/
theorem run_length_le {fuel : Nat} {st : ExecState}
    (h : run M unlockingScript lockingScript tx inputIndex limits fuel = some st)
    (hw : st.warnings = []) :
    (unlockingScript ++ lockingScript).length ≤ limits.maxScriptSize.toNat := by
  by_contra hs
  rw [run_of_lt (not_le.1 hs), Option.some.injEq] at h
  subst h
  cases hw

/-- No read of `estimate` is out of range, for every pair of scripts, transaction, input index
and limits: after every number of passes the run has a state, and the preimage size that
`OP_CHECKSIG` asks `calculate_sighash_size` for exists. -/
theorem run_isSome (M : CostModel) (unlockingScript lockingScript : Script) (tx : Transaction)
    (inputIndex : Nat) (limits : EstimatorLimits) :
    (∀ fuel, (run M unlockingScript lockingScript tx inputIndex limits fuel).isSome) ∧
      (calculateSighashSize tx inputIndex sighashAll).isSome := by
  refine ⟨fun fuel => ?_, by simp [calculateSighashSize_all]⟩
  obtain ⟨st, h⟩ := run_exists M tx inputIndex limits unlockingScript lockingScript fuel
  simp [h]

/-- Run induction for a peak over a run of `estimate` (see `loop_peak_of`), where the measure
is the peak at the start and at the size rejection: the peak after every number of passes is the
largest measure of the states reached so far. -/
theorem run_peak_of (peak f : ExecState → Nat) {Inv : ExecState → Prop}
    (hle : ∀ st, Inv st → f st ≤ peak st)
    (hnext : ∀ st st', Inv st → st.pc < (unlockingScript ++ lockingScript).length →
      loopBody M tx inputIndex limits (unlockingScript ++ lockingScript) st = some (.next st') →
        Inv st')
    (hpeak : ∀ st fl, Inv st → st.pc < (unlockingScript ++ lockingScript).length →
      loopBody M tx inputIndex limits (unlockingScript ++ lockingScript) st = some fl →
        peak fl.state = max (peak st) (f fl.state))
    (hstart : Inv (start M (unlockingScript ++ lockingScript)))
    (hf₀ : f (start M (unlockingScript ++ lockingScript)) =
      peak (start M (unlockingScript ++ lockingScript)))
    (hf₁ : f tooLarge = peak tooLarge) {fuel : Nat} {st : ExecState}
    (hst : run M unlockingScript lockingScript tx inputIndex limits fuel = some st) :
    (∀ j ≤ fuel, ∀ st', run M unlockingScript lockingScript tx inputIndex limits j = some st' →
      f st' ≤ peak st) ∧
    ∃ j ≤ fuel, ∃ st', run M unlockingScript lockingScript tx inputIndex limits j = some st' ∧
      f st' = peak st := by
  by_cases hs : limits.maxScriptSize.toNat < (unlockingScript ++ lockingScript).length
  · rw [run_of_lt hs, Option.some.injEq] at hst; subst hst
    refine ⟨fun j _ st' h' => ?_, 0, Nat.zero_le _, tooLarge, run_of_lt hs 0, hf₁⟩
    rw [run_of_lt hs, Option.some.injEq] at h'; subst h'; exact hf₁.le
  · simp only [run_eq_loop M tx inputIndex (not_lt.1 hs)] at hst ⊢
    obtain ⟨-, h₂, h₃⟩ := loop_peak_of peak f hle hnext hpeak hstart hst
    refine ⟨h₂, ?_⟩
    rcases h₃ with h₃ | h₃
    · exact ⟨0, Nat.zero_le _, _, rfl, hf₀.trans h₃.symm⟩
    · exact h₃

/-- Every state of every run of `estimate` has a state within the count bounds. -/
theorem run_countBound {fuel : Nat} {st : ExecState}
    (h : run M unlockingScript lockingScript tx inputIndex limits fuel = some st) :
    CountBound limits st := by
  by_cases hs : limits.maxScriptSize.toNat < (unlockingScript ++ lockingScript).length
  · rw [run_of_lt hs, Option.some.injEq] at h; exact h ▸ countBound_tooLarge
  · rw [run_eq_loop _ _ _ (by omega)] at h; exact loop_countBound (countInv_start M _) h

/-- The counts of `estimate` after every number of passes: signatures never outnumber
opcodes, the opcode count stays within `max_opcode_count`, the size stack holds at most
`min(opcode_count, max_stack_items + 1)` entries and fewer than `2^32` (so the `uint32_t` cast of
its size never truncates), and the peak entry count is the largest entry count of the states
reached so far. -/
theorem run_counts (M : CostModel) (unlockingScript lockingScript : Script) (tx : Transaction)
    (inputIndex : Nat) (limits : EstimatorLimits) (fuel : Nat) :
    ∃ st, run M unlockingScript lockingScript tx inputIndex limits fuel = some st ∧
      st.signatureCount ≤ st.opcodeCount ∧ st.opcodeCount ≤ limits.maxOpcodeCount.toNat ∧
      st.stackSizes.length ≤ min st.opcodeCount (limits.maxStackItems.toNat + 1) ∧
      st.stackSizes.length < 2 ^ 32 ∧
      (∀ j ≤ fuel, ∀ st', run M unlockingScript lockingScript tx inputIndex limits j = some st' →
        st'.stackSizes.length ≤ st.peakStackItems) ∧
      ∃ j ≤ fuel, ∃ st', run M unlockingScript lockingScript tx inputIndex limits j = some st' ∧
        st'.stackSizes.length = st.peakStackItems := by
  obtain ⟨st, hst⟩ := run_exists M tx inputIndex limits unlockingScript lockingScript fuel
  have hb := run_countBound hst
  exact ⟨st, hst, hb.1, hb.2, Nat.le_min.2 ⟨hb.3, hb.4⟩, hb.length_lt,
    run_peak_of ExecState.peakStackItems (fun s => s.stackSizes.length)
      (fun _ h => h.length_le_peak) (fun _ _ h hpc hb => countInv_next h hpc hb)
      (fun _ _ h hpc hb => loopBody_peak h hpc hb) (countInv_start M _) rfl rfl hst⟩

/-! ## Runs without a warning -/

/-- The four warnings `estimate` issues. -/
def estimatorWarnings : List String :=
  ["Script exceeds size limit", "Opcode count limit exceeded", "Stack byte limit exceeded",
    "Stack item count limit exceeded"]

/-- A failed stack check appends the warning of the check that failed. -/
theorem checkLimits_brk {st st' : ExecState} (h : checkLimits limits st = .brk st') :
    ∃ w ∈ estimatorWarnings, st' = st.warn w := by
  unfold checkLimits at h
  split_ifs at h <;> cases h <;> exact ⟨_, by simp [estimatorWarnings], rfl⟩

/-- A pass that breaks appends one of the loop's three warnings. -/
theorem loopBody_brk_warn {combined : Script} {st st' : ExecState}
    (hpc : st.pc < combined.length)
    (hb : loopBody M tx inputIndex limits combined st = some (.brk st')) :
    ∃ w ∈ estimatorWarnings, st'.warnings = st.warnings ++ [w] := by
  rcases loopBody_spec M tx inputIndex limits hpc with ⟨-, hb'⟩ | ⟨-, st₁, -, hf, hb'⟩
  · rw [hb', Option.some.injEq, Flow.brk.injEq] at hb
    exact ⟨"Opcode count limit exceeded", by simp [estimatorWarnings], by rw [← hb]; rfl⟩
  · rw [hb', Option.some.injEq] at hb
    obtain ⟨w, hw, rfl⟩ := checkLimits_brk hb
    exact ⟨w, hw, by simp [hf.warnings]⟩

/-- A loop entered without warnings ends with none or with exactly one. -/
theorem loop_warnings {combined : Script} {fuel : Nat} {st st' : ExecState}
    (hw : st.warnings = []) (h : loop M tx inputIndex limits combined fuel st = some st') :
    st'.warnings = [] ∨ ∃ w ∈ estimatorWarnings, st'.warnings = [w] :=
  loop_induction (P := fun s => s.warnings = [])
    (Q := fun s => s.warnings = [] ∨ ∃ w ∈ estimatorWarnings, s.warnings = [w]) (fun _ h => .inl h)
    (fun _ _ h hpc hb => (loopBody_next_pc hpc hb).2.trans h)
    (fun _ _ h hpc hb => by
      obtain ⟨w, hw, h'⟩ := loopBody_brk_warn hpc hb
      exact .inr ⟨w, hw, by rw [h', h]; rfl⟩) fuel st st' hw h

/-- After every number of passes, a run of `estimate` carries no warning, or exactly one of the
four; and once it carries one it has stopped: more passes return the same state. -/
theorem run_warnings (M : CostModel) (unlockingScript lockingScript : Script) (tx : Transaction)
    (inputIndex : Nat) (limits : EstimatorLimits) (fuel : Nat) :
    ∃ st, run M unlockingScript lockingScript tx inputIndex limits fuel = some st ∧
      (st.warnings = [] ∨ (∃ w ∈ estimatorWarnings, st.warnings = [w]) ∧
        ∀ j, run M unlockingScript lockingScript tx inputIndex limits (fuel + j) = some st) := by
  obtain ⟨st, hst⟩ := run_exists M tx inputIndex limits unlockingScript lockingScript fuel
  refine ⟨st, hst, ?_⟩
  by_cases hs : limits.maxScriptSize.toNat < (unlockingScript ++ lockingScript).length
  · rw [run_of_lt hs, Option.some.injEq] at hst
    subst hst
    exact .inr ⟨⟨_, by simp [estimatorWarnings], rfl⟩, fun j => run_of_lt hs _⟩
  · simp only [run_eq_loop M tx inputIndex (not_lt.1 hs)] at hst ⊢
    refine (loop_warnings rfl hst).imp_right fun h => ⟨h, fun j => ?_⟩
    obtain ⟨w, -, hw⟩ := h
    exact loop_add_fuel_of_warned j hst (by simp [hw, start])

variable (M unlockingScript lockingScript tx inputIndex limits) in
/-- The loop of `estimate` ends within as many passes as the combined script has bytes: more
fuel than `combined.size()` changes nothing. -/
theorem run_add_fuel (j : Nat) :
    run M unlockingScript lockingScript tx inputIndex limits
        ((unlockingScript ++ lockingScript).length + j) =
      run M unlockingScript lockingScript tx inputIndex limits
        (unlockingScript ++ lockingScript).length := by
  by_cases hs : limits.maxScriptSize.toNat < (unlockingScript ++ lockingScript).length
  · rw [run_of_lt hs, run_of_lt hs]
  · simp only [run_eq_loop M tx inputIndex (not_lt.1 hs)]
    exact loop_add_fuel j _ _ (by simp [start])

end Estimate

end Bsv.Cost
