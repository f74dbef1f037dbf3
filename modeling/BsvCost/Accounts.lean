import BsvCost.Ledger

/-!
# The cycle accounts

Where `estimate`'s charges go, and how they depend on the model.

* `estimate_checksig_charges_differ`: `OP_CHECKSIG` charges `signatures` the signature formula
  at the preimage size, but the total the formula at the default of 1000 bytes, since its
  `params` stay empty; the total is then not the sum of the breakdown.
* `estimate_model_mono`: under a pointwise smaller model with formulas of the same types, the
  estimate has the same counts, peaks and warnings, and exact accounts at most the larger
  model's.
* `estimate_model_mono_wraps`: the returned accounts need not compare so, since the larger
  model's total can wrap past `2^64`.
* `run_totalCycles_eq`: the ledger identity. Before any limit stop the exact total is the sum
  of the exact breakdown fields plus what the executed elements charged the total alone
  (`Element.unbooked`): `100` and its price for an opcode outside the switch, and for
  `OP_CHECKSIG` its price without parameters less its price at the preimage size.
* `run_fixedCharges`: for every input, `parsing` is charged once, `dispatch` is `c_dispatch`
  per counted opcode, `signatures` the same price per counted signature, and `control_flow`
  is never charged.
* `estimate_inputIndex`: the transaction is read only through the `SIGHASH_ALL` preimage size,
  so every input index gets the same estimate.
-/

namespace Bsv.Cost

/-- A model that prices `OP_CHECKSIG` by the signature formula, at 85000 cycles a verification
and 2.5 cycles a preimage byte, and every other opcode at the default. -/
def checksigModel : CostModel where
  opcodeCosts op :=
    if op = OpCode.opChecksig then
      some { type := .signature, cEcdsa := 85000, cPreimagePerByte := 5 / 2 }
    else none

/-- One `OP_CHECKSIG` under `checksigModel`: the preimage has 14 bytes, `signatures` is charged
`85000 + 2.5 · 14` and the total `85000 + 2.5 · 1000`, beside the dispatch. -/
theorem estimate_checksig_charges_differ :
    calculateSighashSize ⟨[], []⟩ 0 sighashAll = some 14 ∧
    estimate checksigModel [] [0xAC] ⟨[], []⟩ 0 {} = some
      { totalCycles := 87505, breakdown := { dispatch := 5, signatures := 85035 },
        peakStackBytes := 0, peakStackItems := 0, signatureCount := 1, opcodeCount := 1,
        warnings := [] } :=
  ⟨by decide, by with_unfolding_all rfl⟩

/-- Under two models with formulas of the same types and non-negative, pointwise ordered
coefficients, the two runs of `estimate` take the same path: the states they return have the
same counts, peaks and warnings, and the exact total and every exact breakdown field of the
smaller model's run are at most those of the larger model's run. The estimates are those
states with the accounts reduced modulo `2^64`. -/
theorem estimate_model_mono {M₁ M₂ : CostModel} (hM : M₁.Le M₂)
    (unlockingScript lockingScript : Script) (tx : Transaction) (inputIndex : Nat)
    (limits : EstimatorLimits) :
    ∃ st₁ st₂ : ExecState,
      run M₁ unlockingScript lockingScript tx inputIndex limits
          (unlockingScript ++ lockingScript).length = some st₁ ∧
      run M₂ unlockingScript lockingScript tx inputIndex limits
          (unlockingScript ++ lockingScript).length = some st₂ ∧
      estimate M₁ unlockingScript lockingScript tx inputIndex limits = some st₁.toEstimate ∧
      estimate M₂ unlockingScript lockingScript tx inputIndex limits = some st₂.toEstimate ∧
      LedgerRel (· ≤ ·) (· ≤ ·) st₁ st₂ := by
  obtain ⟨st₁, st₂, h₁, h₂, hrel⟩ : ∃ st₁ st₂ : ExecState,
      run M₁ unlockingScript lockingScript tx inputIndex limits
          (unlockingScript ++ lockingScript).length = some st₁ ∧
      run M₂ unlockingScript lockingScript tx inputIndex limits
          (unlockingScript ++ lockingScript).length = some st₂ ∧
      LedgerRel (· ≤ ·) (· ≤ ·) st₁ st₂ := by
    by_cases hs : limits.maxScriptSize.toNat < (unlockingScript ++ lockingScript).length
    · rw [run_of_lt hs, run_of_lt hs]
      exact ⟨_, _, rfl, rfl, LedgerRel.refl le_rfl ⟨le_rfl, le_rfl, le_rfl, le_rfl, le_rfl,
        le_rfl, le_rfl⟩⟩
    · have hp := castU64_mono (mul_le_mul_of_nonneg_right hM.cParsePerByte.2
        (Nat.cast_nonneg (unlockingScript ++ lockingScript).length))
      rw [run_eq_loop _ _ _ (not_lt.1 hs), run_eq_loop _ _ _ (not_lt.1 hs)]
      exact loop_ledgerRel tx inputIndex limits (ChargeCompat.le hM) (ChargeCompat.le hM) _
        (start_ledgerRel M₁ M₂ _ _ hp hp le_rfl)
  exact ⟨st₁, st₂, h₁, h₂, estimate_of_run h₁, estimate_of_run h₂, hrel⟩

theorem estimate_model_mono_dispatch :
    ∃ st₁ st₂ : ExecState,
      run {} [0x01, 0xAA] [0x76] ⟨[], []⟩ 0 {} ([0x01, 0xAA] ++ [0x76]).length = some st₁ ∧
      run { cDispatch := 6 } [0x01, 0xAA] [0x76] ⟨[], []⟩ 0 {}
          ([0x01, 0xAA] ++ [0x76]).length = some st₂ ∧
      estimate {} [0x01, 0xAA] [0x76] ⟨[], []⟩ 0 {} = some st₁.toEstimate ∧
      estimate { cDispatch := 6 } [0x01, 0xAA] [0x76] ⟨[], []⟩ 0 {} = some st₂.toEstimate ∧
      LedgerRel (· ≤ ·) (· ≤ ·) st₁ st₂ := by
  have hM : CostModel.Le {} { cDispatch := 6 } :=
    ⟨⟨by norm_num, by norm_num⟩, ⟨by norm_num, le_rfl⟩, fun _ => trivial⟩
  exact estimate_model_mono hM [0x01, 0xAA] [0x76] ⟨[], []⟩ 0 {}

/-- Two unknown opcodes under dispatch costs `2^62` and `2^63`: the second model's total wraps
to 400, below the first's `2^63 + 400`. -/
theorem estimate_model_mono_wraps :
    CostModel.Le { cDispatch := 2 ^ 62, cParsePerByte := 0 }
      { cDispatch := 2 ^ 63, cParsePerByte := 0 } ∧
    estimate { cDispatch := 2 ^ 62, cParsePerByte := 0 } [] [0xB0, 0xB0] ⟨[], []⟩ 0 {} = some
      { totalCycles := 2 ^ 63 + 400, breakdown := { dispatch := 2 ^ 63 }, peakStackBytes := 0,
        peakStackItems := 0, signatureCount := 0, opcodeCount := 2, warnings := [] } ∧
    estimate { cDispatch := 2 ^ 63, cParsePerByte := 0 } [] [0xB0, 0xB0] ⟨[], []⟩ 0 {} = some
      { totalCycles := 400, breakdown := { dispatch := 0 }, peakStackBytes := 0,
        peakStackItems := 0, signatureCount := 0, opcodeCount := 2, warnings := [] } :=
  ⟨⟨⟨by norm_num, by norm_num⟩, ⟨le_rfl, le_rfl⟩, fun _ => trivial⟩,
    by with_unfolding_all rfl, by with_unfolding_all rfl⟩

/-! ## The ledger identity -/

/-- The sum of the breakdown fields. -/
def Breakdown.total (b : Breakdown) : Nat :=
  b.parsing + b.dispatch + b.stackOps + b.byteOps + b.hashing + b.signatures + b.controlFlow

/-- What the exact total holds beyond the sum of the breakdown fields. -/
def ExecState.unbooked (st : ExecState) : ℤ :=
  st.totalCycles - st.breakdown.total

section Ledger

variable (M : CostModel) (tx : Transaction) (inputIndex : Nat) (limits : EstimatorLimits)

/-- The cycles an opcode charges the total beyond its breakdown field: an opcode outside the
switch pays the `default:` literal and its price to the total alone, and `OP_CHECKSIG` pays
the total its price with no parameters but `signatures` its price at the preimage size. -/
def opcodeUnbooked (op : OpCode) : ℤ :=
  match switchCase op with
  | .checksig =>
    calculateOpcodeCost M op [] - calculateOpcodeCost M op [checksigPreimage tx inputIndex]
  | .other => 100 + calculateOpcodeCost M op []
  | _ => 0

/-- `opcodeUnbooked` of an element's opcode; a push books everything it is charged. -/
def Element.unbooked : Element → ℤ
  | .push _ _ => 0
  | .op b => opcodeUnbooked M tx inputIndex ⟨b⟩

theorem execOpcode_unbooked {op : OpCode} {st st' : ExecState}
    (h : execOpcode M tx inputIndex op st = some st') :
    st'.unbooked = st.unbooked + opcodeUnbooked M tx inputIndex op := by
  have hlt : ∀ l : List Nat, l.length < 2 ∨ ∃ a b r, l = a :: b :: r := by
    rintro (_ | ⟨a, _ | ⟨b, r⟩⟩) <;> simp
  have key : ∀ {st₁ params}, switchOpcode M tx inputIndex op st = some (st₁, params) →
      st' = { st₁ with totalCycles := st₁.totalCycles + calculateOpcodeCost M op params } :=
    fun hs => by
      rw [execOpcode_of_switchOpcode M tx inputIndex hs, Option.some.injEq] at h
      exact h.symm
  simp only [opcodeUnbooked, ExecState.unbooked, Breakdown.total]
  cases hc : switchCase op <;> simp only [switchOpcode, hc] at key
  · rcases hs : st.stackSizes with _ | ⟨t, r⟩
    · obtain rfl := key (switchDup_nil M hs); push_cast; ring
    · obtain rfl := key (switchDup_cons M hs); push_cast; ring
  · rcases hlt st.stackSizes with hs | ⟨a, b, r, hs⟩
    · obtain rfl := key (switchSwap_of_lt M hs); push_cast; ring
    · obtain rfl := key (switchSwap_cons M hs); push_cast; ring
  · rcases hlt st.stackSizes with hs | ⟨a, b, r, hs⟩
    · obtain rfl := key (switchCat_of_lt M hs); push_cast; ring
    · obtain rfl := key (switchCat_cons M hs); push_cast; ring
  · rcases hs : st.stackSizes with _ | ⟨t, r⟩
    · obtain rfl := key (switchHash_nil M hs); push_cast; ring
    · obtain rfl := key (switchHash_cons M hs); push_cast; ring
  · rcases hlt st.stackSizes with hs | ⟨a, b, r, hs⟩
    · obtain rfl := key (switchChecksig_of_lt M tx inputIndex hs); push_cast; ring
    · obtain rfl := key (switchChecksig_cons M tx inputIndex hs); push_cast; ring
  · obtain rfl := key rfl; push_cast; ring

theorem start_unbooked (combined : Script) : (start M combined).unbooked = 0 := by
  simp [ExecState.unbooked, start, Breakdown.total]

theorem execDecoded_unbooked {e : Element} {st st' : ExecState}
    (h : execDecoded M tx inputIndex e st = some st') :
    st'.unbooked = st.unbooked + e.unbooked M tx inputIndex := by
  cases e with
  | push b payload =>
    obtain rfl := Option.some.inj h
    simp [ExecState.unbooked, Element.unbooked]
  | op b => exact execOpcode_unbooked M tx inputIndex h

/-- A pass that goes on adds its element's unbooked charge; the dispatch is booked. -/
theorem elementPass_unbooked {e : Element} {st s : ExecState}
    (h : elementPass M tx inputIndex limits e st = some (.next s)) :
    s.unbooked = st.unbooked + e.unbooked M tx inputIndex := by
  rcases elementPass_spec M tx inputIndex limits e st with ⟨-, hb⟩ | ⟨-, st₁, hx, -, -, hb⟩
  · rw [hb] at h; cases h
  · rw [hb] at h
    rcases checkLimits_cases limits st₁.trackPeak with ⟨hc, -⟩ | ⟨w, hc⟩ <;> rw [hc] at h <;>
      cases h
    rw [show st₁.trackPeak.unbooked = st₁.unbooked from rfl,
      execDecoded_unbooked M tx inputIndex hx]
    simp only [ExecState.unbooked, Breakdown.total, ExecState.fetch]
    push_cast; ring

theorem elementLoop_unbooked : ∀ {es : List Element} {st st' : ExecState},
    elementLoop M tx inputIndex limits es st = some st' → st'.warnings = st.warnings →
    st'.unbooked = st.unbooked + (es.map (Element.unbooked M tx inputIndex)).sum
  | [], _, _, h, _ => by cases h; simp
  | e :: es, st, st', h, hw => by
    obtain ⟨s, hp, h', hw'⟩ := elementLoop_cons_next M tx inputIndex limits h hw
    rw [elementLoop_unbooked h' hw', elementPass_unbooked M tx inputIndex limits hp, List.map_cons,
      List.sum_cons]
    ring

end Ledger

/-- The ledger identity. For a script whose §4.1 decoding is complete and has none of the pushes
`OP_0`, `OP_PUSHDATA2` and `OP_PUSHDATA4`, at every state of `estimate` before any limit stop
the exact total is the sum of the exact breakdown fields plus what the elements executed so far
charged the total alone: `100` and its price for each opcode outside the switch, and for each
`OP_CHECKSIG` its price without parameters less its price at the preimage size. -/
theorem run_totalCycles_eq {M : CostModel} {unlockingScript lockingScript : Script}
    {tx : Transaction} {inputIndex : Nat} {limits : EstimatorLimits} {es : List Element}
    (hdec : decode (unlockingScript ++ lockingScript) = some es)
    (hes : ∀ e ∈ es, e.estimatorDecodes) {fuel : Nat} {st : ExecState}
    (hrun : run M unlockingScript lockingScript tx inputIndex limits fuel = some st)
    (hw : st.warnings = []) :
    (st.totalCycles : ℤ) =
      st.breakdown.total + ((es.take fuel).map (Element.unbooked M tx inputIndex)).sum := by
  rw [run_eq_elementLoop M tx inputIndex limits (run_length_le hrun hw) hdec hes] at hrun
  have h := elementLoop_unbooked M tx inputIndex limits hrun (by rw [hw]; rfl)
  rw [start_unbooked, zero_add, ExecState.unbooked] at h
  linarith

theorem run_totalCycles_eq_checksig :
    ((87505 : Nat) : ℤ) = Breakdown.total { dispatch := 5, signatures := 85035 } +
      (([Element.op 0xAC].take 1).map (Element.unbooked checksigModel ⟨[], []⟩ 0)).sum := by
  have hrun : run checksigModel [] [0xAC] ⟨[], []⟩ 0 {} 1 = some
      { pc := 1, stackSizes := [], currentStackBytes := 0, totalCycles := 87505,
        breakdown := { dispatch := 5, signatures := 85035 }, peakStackBytes := 0,
        peakStackItems := 0, signatureCount := 1, opcodeCount := 1, warnings := [] } := by
    with_unfolding_all rfl
  have hdec : decode ([] ++ [0xAC]) = some [Element.op 0xAC] := by decide
  exact run_totalCycles_eq hdec (by decide) hrun rfl

/-! ## Charges fixed by the counts -/

/-- What `OP_CHECKSIG` books to `signatures`: its formula at the preimage size. -/
def checksigCharge (M : CostModel) (tx : Transaction) (inputIndex : Nat) : Nat :=
  calculateOpcodeCost M .opChecksig [checksigPreimage tx inputIndex]

/-- The accounts the counts fix: `parsing` keeps its one charge `p`, every dispatch books
`c_dispatch`, every `OP_CHECKSIG` the same signature price, and nothing books `control_flow`. -/
structure FixedCharges (M : CostModel) (tx : Transaction) (inputIndex p : Nat)
    (st : ExecState) : Prop where
  parsing : st.breakdown.parsing = p
  dispatch : st.breakdown.dispatch = st.opcodeCount * castU64 M.cDispatch
  signatures : st.breakdown.signatures = st.signatureCount * checksigCharge M tx inputIndex
  controlFlow : st.breakdown.controlFlow = 0

section Fixed

variable {M : CostModel} {tx : Transaction} {inputIndex p : Nat} {limits : EstimatorLimits}

theorem switchCase_eq_checksig {op : OpCode} (h : switchCase op = .checksig) :
    op = .opChecksig := by
  unfold switchCase at h
  split_ifs at h with _ _ _ _ h₅
  exact h₅

/-- Of the fixed accounts the switch books only one signature, in its `OP_CHECKSIG` case. -/
theorem switchOpcode_fixedCharges {op : OpCode} {st : ExecState}
    (h : FixedCharges M tx inputIndex p st) :
    ∃ r, switchOpcode M tx inputIndex op st = some r ∧ FixedCharges M tx inputIndex p r.1 := by
  have hlt : ∀ l : List Nat, l.length < 2 ∨ ∃ a b r, l = a :: b :: r := by
    rintro (_ | ⟨a, _ | ⟨b, r⟩⟩) <;> simp
  obtain ⟨h₁, h₂, h₃, h₄⟩ := h
  unfold switchOpcode
  cases hc : switchCase op
  · rcases hs : st.stackSizes with _ | ⟨t, r⟩
    · exact ⟨_, switchDup_nil M hs, h₁, h₂, h₃, h₄⟩
    · exact ⟨_, switchDup_cons M hs, h₁, h₂, h₃, h₄⟩
  · rcases hlt st.stackSizes with hs | ⟨a, b, r, hs⟩
    · exact ⟨_, switchSwap_of_lt M hs, h₁, h₂, h₃, h₄⟩
    · exact ⟨_, switchSwap_cons M hs, h₁, h₂, h₃, h₄⟩
  · rcases hlt st.stackSizes with hs | ⟨a, b, r, hs⟩
    · exact ⟨_, switchCat_of_lt M hs, h₁, h₂, h₃, h₄⟩
    · exact ⟨_, switchCat_cons M hs, h₁, h₂, h₃, h₄⟩
  · rcases hs : st.stackSizes with _ | ⟨t, r⟩
    · exact ⟨_, switchHash_nil M hs, h₁, h₂, h₃, h₄⟩
    · exact ⟨_, switchHash_cons M hs, h₁, h₂, h₃, h₄⟩
  · obtain rfl := switchCase_eq_checksig hc
    have hsig : st.breakdown.signatures + checksigCharge M tx inputIndex =
        (st.signatureCount + 1) * checksigCharge M tx inputIndex := by
      rw [h₃, Nat.succ_mul]
    rcases hlt st.stackSizes with hs | ⟨a, b, r, hs⟩
    · exact ⟨_, switchChecksig_of_lt M tx inputIndex hs, h₁, h₂, hsig, h₄⟩
    · exact ⟨_, switchChecksig_cons M tx inputIndex hs, h₁, h₂, hsig, h₄⟩
  · exact ⟨_, rfl, h₁, h₂, h₃, h₄⟩

/-- The dispatch books `c_dispatch` for the opcode it counts. -/
theorem FixedCharges.fetch {st : ExecState} (h : FixedCharges M tx inputIndex p st) :
    FixedCharges M tx inputIndex p (st.fetch (castU64 M.cDispatch)) :=
  ⟨h.1, by simp [h.2, Nat.succ_mul], h.3, h.4⟩

theorem execElement_fixedCharges (combined : Script) {opByte : UInt8} {st : ExecState}
    (h : FixedCharges M tx inputIndex p st) :
    ∃ st', execElement M tx inputIndex combined opByte st = some st' ∧
      FixedCharges M tx inputIndex p st' := by
  unfold execElement
  split_ifs with hpush hpd
  · exact ⟨_, rfl, h.1, h.2, h.3, h.4⟩
  · obtain ⟨len, hlen⟩ : ∃ len, combined[st.pc]? = some len :=
      ⟨_, List.getElem?_eq_getElem hpd.2⟩
    exact ⟨{ st with pc := st.pc + 1 + len.toNat }.pushSize len.toNat, by simp [hlen],
      h.1, h.2, h.3, h.4⟩
  · obtain ⟨⟨st₁, params⟩, hs, hinv⟩ := switchOpcode_fixedCharges h
    exact ⟨_, execOpcode_of_switchOpcode M tx inputIndex hs, hinv.1, hinv.2, hinv.3, hinv.4⟩

/-- Every pass keeps the fixed accounts, whichever way it ends. -/
theorem loopBody_fixedCharges {combined : Script} {st : ExecState} {fl : Flow}
    (hpc : st.pc < combined.length) (h : FixedCharges M tx inputIndex p st)
    (hb : loopBody M tx inputIndex limits combined st = some fl) :
    FixedCharges M tx inputIndex p fl.state := by
  rcases loopBody_spec M tx inputIndex limits hpc with ⟨-, hb'⟩ | ⟨-, st₁, he, -, hb'⟩
  · rw [hb', Option.some.injEq] at hb
    subst hb
    exact ⟨h.1, h.2, h.3, h.4⟩
  · obtain ⟨st₂, he₂, hinv⟩ := execElement_fixedCharges combined h.fetch
    rw [he, Option.some.injEq] at he₂
    subst he₂
    rw [hb', Option.some.injEq] at hb
    subst hb
    rcases checkLimits_cases limits st₁.trackPeak with ⟨hc, -⟩ | ⟨w, hc⟩ <;> rw [hc] <;>
      exact ⟨hinv.1, hinv.2, hinv.3, hinv.4⟩

theorem loop_fixedCharges {combined : Script} {fuel : Nat} {st st' : ExecState}
    (h : FixedCharges M tx inputIndex p st)
    (hl : loop M tx inputIndex limits combined fuel st = some st') :
    FixedCharges M tx inputIndex p st' :=
  loop_induction (P := FixedCharges M tx inputIndex p) (Q := FixedCharges M tx inputIndex p)
    (fun _ h => h) (fun _ _ h hpc hb => loopBody_fixedCharges hpc h hb)
    (fun _ _ h hpc hb => loopBody_fixedCharges hpc h hb) fuel st st' h hl

end Fixed

/-- After every number of passes, for every input, `estimate` has booked `parsing` once (unless
it rejected the script for size), `c_dispatch` to `dispatch` for every opcode counted, the same
signature price to `signatures` for every signature counted, and nothing to `control_flow`. -/
theorem run_fixedCharges (M : CostModel) (unlockingScript lockingScript : Script)
    (tx : Transaction) (inputIndex : Nat) (limits : EstimatorLimits) (fuel : Nat) :
    ∃ st, run M unlockingScript lockingScript tx inputIndex limits fuel = some st ∧
      (FixedCharges M tx inputIndex
          (castU64 (M.cParsePerByte * (unlockingScript ++ lockingScript).length)) st ∨
        st = tooLarge) := by
  obtain ⟨st, hst⟩ := run_exists M tx inputIndex limits unlockingScript lockingScript fuel
  refine ⟨st, hst, ?_⟩
  by_cases hs : limits.maxScriptSize.toNat < (unlockingScript ++ lockingScript).length
  · rw [run_of_lt hs, Option.some.injEq] at hst
    exact .inr hst.symm
  · rw [run_eq_loop M tx inputIndex (not_lt.1 hs)] at hst
    exact .inl (loop_fixedCharges ⟨rfl, (Nat.zero_mul _).symm, (Nat.zero_mul _).symm, rfl⟩ hst)

/-! ## What `estimate` reads of the transaction -/

section Transaction

variable {M : CostModel} {limits : EstimatorLimits} {tx tx' : Transaction} {i j : Nat}

/-- The loop reads the transaction and the input index only through the preimage size. -/
theorem loop_congr_preimage (h : checksigPreimage tx i = checksigPreimage tx' j)
    (combined : Script) :
    ∀ fuel st, loop M tx i limits combined fuel st = loop M tx' j limits combined fuel st
  | 0, _ => rfl
  | fuel + 1, st => by
    have hs : switchChecksig M tx i = switchChecksig M tx' j := by
      funext op st
      simp only [switchChecksig, calculateSighashSize_all_eq, h]
    have hb : loopBody M tx i limits combined = loopBody M tx' j limits combined := by
      funext st
      simp only [loopBody, execElement, execOpcode, switchOpcode, hs]
    simp only [loop_succ, hb, loop_congr_preimage h combined fuel]

theorem estimate_congr_preimage (h : checksigPreimage tx i = checksigPreimage tx' j)
    (unlockingScript lockingScript : Script) :
    estimate M unlockingScript lockingScript tx i limits =
      estimate M unlockingScript lockingScript tx' j limits := by
  simp only [estimate, run, loop_congr_preimage h]

end Transaction

/-- The estimate does not depend on the input being spent: `OP_CHECKSIG` sizes the
`SIGHASH_ALL` preimage, which counts every input and every output of the transaction. -/
theorem estimate_inputIndex (M : CostModel) (unlockingScript lockingScript : Script)
    (tx : Transaction) (i j : Nat) (limits : EstimatorLimits) :
    estimate M unlockingScript lockingScript tx i limits =
      estimate M unlockingScript lockingScript tx j limits :=
  estimate_congr_preimage (by simp [checksigPreimage, calculateSighashSize_all]) _ _

end Bsv.Cost
