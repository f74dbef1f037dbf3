import BsvCost.Invariants

/-!
# The running byte total

`current_stack_bytes` is meant to be the sum of the size stack (the spec's invariant
`sum(items) == current_stack_bytes`). Every branch that moves sizes updates it by what it pops
and pushes, mod `2^64`, except `OP_CHECKSIG`, which pops two sizes and pushes 1 without touching
the total.

* `BytesInv`: the total is the sum of the sizes mod `2^64`.
* `switchOpcode_bytesInv`, `loopBody_bytesInv`: every case of the switch but `OP_CHECKSIG`, and
  so every pass over a script with no `OP_CHECKSIG` byte, keeps it.
* `run_bytesInv`: it holds at every state of every run of `estimate` over such a script.
* `run_peakStackBytes`: for every input, `peak_stack_bytes` is the largest running total of
  the states reached so far (by `run_peak_of`, the run induction for peaks).
* `run_checksig_keeps_bytes`: after two one-byte pushes and `OP_CHECKSIG` the total is 2 over a
  size stack that sums to 1.
-/

namespace Bsv.Cost

/-- `current_stack_bytes` is the sum of `stack_sizes`, as a `uint64_t`. -/
def BytesInv (st : ExecState) : Prop :=
  st.currentStackBytes = st.stackSizes.sum % 2 ^ 64

section Step

variable (M : CostModel) (tx : Transaction) (inputIndex : Nat) (limits : EstimatorLimits)

theorem switchCase_ne_checksig {op : OpCode} (h : op ≠ .opChecksig) :
    switchCase op ≠ .checksig := by
  unfold switchCase
  split_ifs <;> simp_all

/-- Every case of the switch but `OP_CHECKSIG` moves the total by what it pops and pushes. -/
theorem switchOpcode_bytesInv {op : OpCode} {st : ExecState} (hop : op ≠ .opChecksig)
    (h : BytesInv st) : ∃ r, switchOpcode M tx inputIndex op st = some r ∧ BytesInv r.1 := by
  have hlt : ∀ l : List Nat, l.length < 2 ∨ ∃ a b r, l = a :: b :: r := by
    rintro (_ | ⟨a, _ | ⟨b, r⟩⟩) <;> simp
  unfold BytesInv at h ⊢
  unfold switchOpcode
  cases hc : switchCase op
  · rcases hs : st.stackSizes with _ | ⟨t, r⟩
    · exact ⟨_, switchDup_nil M hs, h⟩
    · refine ⟨_, switchDup_cons M hs, ?_⟩
      simp only [hs, List.sum_cons, add64] at h ⊢
      omega
  · rcases hlt st.stackSizes with hs | ⟨a, b, r, hs⟩
    · exact ⟨_, switchSwap_of_lt M hs, h⟩
    · refine ⟨_, switchSwap_cons M hs, ?_⟩
      simp only [hs, List.sum_cons] at h ⊢
      omega
  · rcases hlt st.stackSizes with hs | ⟨a, b, r, hs⟩
    · exact ⟨_, switchCat_of_lt M hs, h⟩
    · refine ⟨_, switchCat_cons M hs, ?_⟩
      simp only [hs, List.sum_cons, add64, sub64] at h ⊢
      omega
  · rcases hs : st.stackSizes with _ | ⟨x, r⟩
    · exact ⟨_, switchHash_nil M hs, h⟩
    · refine ⟨_, switchHash_cons M hs, ?_⟩
      simp only [hs, List.sum_cons, add64, sub64] at h ⊢
      omega
  · exact absurd hc (switchCase_ne_checksig hop)
  · exact ⟨_, rfl, h⟩

theorem pushSize_bytesInv {st : ExecState} (h : BytesInv st) (n : Nat) :
    BytesInv (st.pushSize n) := by
  unfold BytesInv at h ⊢
  simp only [ExecState.pushSize_currentStackBytes, ExecState.pushSize_stackSizes, List.sum_cons,
    add64, h]
  omega

/-- Every element but an `OP_CHECKSIG` keeps the total. -/
theorem execElement_bytesInv (combined : Script) {opByte : UInt8} {st : ExecState}
    (hop : opByte ≠ OpCode.opChecksig.val) (h : BytesInv st) :
    ∃ st', execElement M tx inputIndex combined opByte st = some st' ∧ BytesInv st' := by
  unfold execElement
  split_ifs with hpush hpd
  · exact ⟨_, rfl, pushSize_bytesInv h _⟩
  · obtain ⟨len, hlen⟩ : ∃ len, combined[st.pc]? = some len :=
      ⟨_, List.getElem?_eq_getElem hpd.2⟩
    exact ⟨_, by simp [hlen],
      pushSize_bytesInv (show BytesInv { st with pc := st.pc + 1 + len.toNat } from h) len.toNat⟩
  · obtain ⟨⟨st₁, params⟩, hs, hinv⟩ :=
      switchOpcode_bytesInv M tx inputIndex (fun he => hop (congrArg OpCode.val he)) h
    exact ⟨_, execOpcode_of_switchOpcode M tx inputIndex hs, hinv⟩

/-- Over a script with no `OP_CHECKSIG` byte, every pass keeps the total. -/
theorem loopBody_bytesInv {combined : Script} {st : ExecState} {fl : Flow}
    (hno : OpCode.opChecksig.val ∉ combined) (hpc : st.pc < combined.length) (h : BytesInv st)
    (hb : loopBody M tx inputIndex limits combined st = some fl) : BytesInv fl.state := by
  rcases loopBody_spec M tx inputIndex limits hpc with ⟨-, hb'⟩ | ⟨-, st₁, he, -, hb'⟩
  · rw [hb', Option.some.injEq] at hb
    subst hb
    exact h
  · have hop : combined[st.pc] ≠ OpCode.opChecksig.val := fun he =>
      hno (he ▸ List.getElem_mem hpc)
    obtain ⟨st₂, he₂, hinv⟩ := execElement_bytesInv M tx inputIndex combined hop
      (show BytesInv (st.fetch (castU64 M.cDispatch)) from h)
    rw [he, Option.some.injEq] at he₂
    subst he₂
    rw [hb', Option.some.injEq] at hb
    subst hb
    rcases checkLimits_cases limits st₁.trackPeak with ⟨hc, -⟩ | ⟨w, hc⟩ <;> rw [hc] <;>
      exact hinv

/-- Over a script with no `OP_CHECKSIG` byte, every state of the loop keeps the total. -/
theorem loop_bytesInv {combined : Script} (hno : OpCode.opChecksig.val ∉ combined)
    {fuel : Nat} {st st' : ExecState} (h : BytesInv st)
    (hl : loop M tx inputIndex limits combined fuel st = some st') : BytesInv st' :=
  loop_induction (P := BytesInv) (Q := BytesInv) (fun _ h => h)
    (fun _ _ h hpc hb => loopBody_bytesInv M tx inputIndex limits hno hpc h hb)
    (fun _ _ h hpc hb => loopBody_bytesInv M tx inputIndex limits hno hpc h hb) fuel st st' h hl

/-- Each pass sets the byte peak to the larger of the old peak and the new running total. -/
theorem loopBody_peakBytes {combined : Script} {st : ExecState} {fl : Flow}
    (h : st.currentStackBytes ≤ st.peakStackBytes) (hpc : st.pc < combined.length)
    (hb : loopBody M tx inputIndex limits combined st = some fl) :
    fl.state.peakStackBytes = max st.peakStackBytes fl.state.currentStackBytes := by
  rcases loopBody_spec M tx inputIndex limits hpc with ⟨-, hb'⟩ | ⟨-, st₁, -, hf, hb'⟩
  · rw [hb', Option.some.injEq] at hb
    subst hb
    simp [Nat.max_eq_left h]
  · rw [hb', Option.some.injEq] at hb
    subst hb
    have hp := hf.peakStackBytes
    simp only [ExecState.fetch_peakStackBytes] at hp
    rcases checkLimits_cases limits st₁.trackPeak with ⟨hc, -⟩ | ⟨w, hc⟩ <;> rw [hc] <;>
      simp [hp]

end Step

/-- For every input, `peak_stack_bytes` after every number of passes is the largest
`current_stack_bytes` of the states reached so far. -/
theorem run_peakStackBytes (M : CostModel) (unlockingScript lockingScript : Script)
    (tx : Transaction) (inputIndex : Nat) (limits : EstimatorLimits) (fuel : Nat) :
    ∃ st, run M unlockingScript lockingScript tx inputIndex limits fuel = some st ∧
      (∀ j ≤ fuel, ∀ st', run M unlockingScript lockingScript tx inputIndex limits j = some st' →
        st'.currentStackBytes ≤ st.peakStackBytes) ∧
      ∃ j ≤ fuel, ∃ st', run M unlockingScript lockingScript tx inputIndex limits j = some st' ∧
        st'.currentStackBytes = st.peakStackBytes := by
  obtain ⟨st, hst⟩ := run_exists M tx inputIndex limits unlockingScript lockingScript fuel
  refine ⟨st, hst, run_peak_of ExecState.peakStackBytes ExecState.currentStackBytes
    (fun (s : ExecState) (h : s.currentStackBytes ≤ s.peakStackBytes) => h) (fun _ _ h hpc hb => ?_)
    (fun _ _ h hpc hb => loopBody_peakBytes M tx inputIndex limits h hpc hb) le_rfl rfl rfl hst⟩
  have := loopBody_peakBytes M tx inputIndex limits h hpc hb
  simp only [Flow.state_next] at this
  omega

/-- Over a script with no `OP_CHECKSIG` byte, at every state of every run of `estimate` the
running total `current_stack_bytes` is the sum of the size stack mod `2^64`. -/
theorem run_bytesInv {M : CostModel} {unlockingScript lockingScript : Script} {tx : Transaction}
    {inputIndex : Nat} {limits : EstimatorLimits}
    (hno : OpCode.opChecksig.val ∉ unlockingScript ++ lockingScript) {fuel : Nat} {st : ExecState}
    (hst : run M unlockingScript lockingScript tx inputIndex limits fuel = some st) :
    st.currentStackBytes = st.stackSizes.sum % 2 ^ 64 := by
  by_cases hs : limits.maxScriptSize.toNat < (unlockingScript ++ lockingScript).length
  · rw [run_of_lt hs, Option.some.injEq] at hst
    subst hst
    rfl
  · rw [run_eq_loop M tx inputIndex (not_lt.1 hs)] at hst
    exact loop_bytesInv M tx inputIndex limits hno (by rfl) hst

theorem run_bytesInv_push_cat :
    run {} [0x01, 0xAA, 0x01, 0xBB] [0x7e] ⟨[], []⟩ 0 {} 3 = some
      { pc := 5, stackSizes := [2], currentStackBytes := 2, totalCycles := 119,
        breakdown := { parsing := 4, dispatch := 15, byteOps := 100 }, peakStackBytes := 2,
        peakStackItems := 2, signatureCount := 0, opcodeCount := 3, warnings := [] } ∧
    2 = [2].sum % 2 ^ 64 :=
  have hst : run {} [0x01, 0xAA, 0x01, 0xBB] [0x7e] ⟨[], []⟩ 0 {} 3 = some
      { pc := 5, stackSizes := [2], currentStackBytes := 2, totalCycles := 119,
        breakdown := { parsing := 4, dispatch := 15, byteOps := 100 }, peakStackBytes := 2,
        peakStackItems := 2, signatureCount := 0, opcodeCount := 3, warnings := [] } := by
    with_unfolding_all rfl
  ⟨hst, run_bytesInv (by decide) hst⟩

/-- Two one-byte pushes and `OP_CHECKSIG`: the size stack is `[1]`, the running total 2. -/
theorem run_checksig_keeps_bytes :
    run {} [0x01, 0xAA, 0x01, 0xBB] [0xAC] ⟨[], []⟩ 0 {} 3 = some
      { pc := 5, stackSizes := [1], currentStackBytes := 2, totalCycles := 119,
        breakdown := { parsing := 4, dispatch := 15, signatures := 100 }, peakStackBytes := 2,
        peakStackItems := 2, signatureCount := 1, opcodeCount := 3, warnings := [] } := by
  with_unfolding_all rfl

end Bsv.Cost
