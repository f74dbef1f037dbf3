import BsvCost.Decode
import BsvCost.Invariants

/-!
# The estimator's walk against the §4.1 decoding

§4.4's executor drives the §4.1 parser: one pass per decoded element, in which a push pushes its
payload's length and is charged no opcode cost, and any other element is executed as an
opcode (`elementPass`, `elementLoop`). The estimator's loop decodes the script by itself. It
decodes direct pushes and `OP_PUSHDATA1` as §4.1 does, but sends `OP_0`, `OP_PUSHDATA2` and
`OP_PUSHDATA4` to its opcode switch. `OP_0` spans one byte either way, so the loop still walks
the decoded elements, running `OP_0` as an opcode (`Element.estimatorView`); after
`OP_PUSHDATA2` and `OP_PUSHDATA4` it dispatches the length bytes and the payload.

* `loopBody_eq_elementPass`: at the start of an element whose bytes the loop walks as §4.1
  does, a pass of the loop is §4.4's pass over that element as the loop runs it.
* `run_eq_elementLoop_map`: for a script whose decoding is complete and has no `OP_PUSHDATA2`
  or `OP_PUSHDATA4` push, the loop is §4.4's executor over the decoded elements, `OP_0` run as
  an opcode.
* `estimate_eq_elementLoop`: for a script whose decoding is complete and has none of the three
  pushes, `estimate` is §4.4's executor over the decoded elements.
* `estimate_pushdata2_runs_payload`: an `OP_PUSHDATA2` push whose payload is the byte of
  `OP_CHECKSIG` is run as three opcodes, the last one a signature check.
-/

namespace Bsv.Cost

/-- The elements the estimator's loop decodes as §4.1 does: all but the pushes `OP_0`,
`OP_PUSHDATA2` and `OP_PUSHDATA4`. -/
def Element.estimatorDecodes : Element → Bool
  | .push b _ =>
    b != OpCode.op0.val && b != OpCode.opPushdata2.val && b != OpCode.opPushdata4.val
  | .op _ => true

/-- The elements whose bytes the estimator's loop walks as §4.1 does: all but the pushes
`OP_PUSHDATA2` and `OP_PUSHDATA4`. -/
def Element.estimatorWalks : Element → Bool
  | .push b _ => b != OpCode.opPushdata2.val && b != OpCode.opPushdata4.val
  | .op _ => true

/-- An element as the estimator's loop runs it: the push `OP_0` is sent to the opcode switch,
every other element is run as §4.4 runs it. -/
def Element.estimatorView (e : Element) : Element :=
  if e = .push OpCode.op0.val [] then .op OpCode.op0.val else e

theorem Element.estimatorView_of_ne {e : Element} (h : e ≠ .push OpCode.op0.val []) :
    e.estimatorView = e :=
  if_neg h

@[simp] theorem Element.estimatorView_op (b : UInt8) : (Element.op b).estimatorView = .op b :=
  Element.estimatorView_of_ne Element.noConfusion

@[simp] theorem Element.size_estimatorView (e : Element) : e.estimatorView.size = e.size := by
  unfold Element.estimatorView
  split_ifs with h
  · subst h; rfl
  · rfl

theorem Element.estimatorWalks_of_estimatorDecodes {e : Element} (he : e.estimatorDecodes) :
    e.estimatorWalks := by
  cases e <;> simp_all [Element.estimatorDecodes, Element.estimatorWalks]

/-- On elements the loop decodes as §4.1 does, the loop's view changes nothing. -/
theorem Element.map_estimatorView {es : List Element} (hes : ∀ e ∈ es, e.estimatorDecodes) :
    es.map Element.estimatorView = es := by
  refine (List.map_congr_left fun e he => Element.estimatorView_of_ne ?_).trans (List.map_id es)
  rintro rfl
  exact absurd (hes _ he) (by decide)

section Elements

variable (M : CostModel) (tx : Transaction) (inputIndex : Nat) (limits : EstimatorLimits)

/-- §4.4's effect of a decoded element, entered with `pc` past it: a push pushes its payload's
length, any other element is an opcode. -/
def execDecoded (e : Element) (st : ExecState) : Option ExecState :=
  match e with
  | .push _ payload => pure (st.pushSize payload.length)
  | .op b => execOpcode M tx inputIndex ⟨b⟩ st

/-- One pass of §4.4's loop over a decoded element: the opcode limit, the dispatch, the
element, the peaks and the stack limits. -/
def elementPass (e : Element) (st : ExecState) : Option Flow :=
  if limits.maxOpcodeCount.toNat ≤ st.opcodeCount then
    pure (.brk (st.warn "Opcode count limit exceeded"))
  else do
    let st ← execDecoded M tx inputIndex e
      { st.fetch (castU64 M.cDispatch) with pc := st.pc + e.size }
    pure (checkLimits limits st.trackPeak)

/-- §4.4's executor over the decoded elements of a script. -/
def elementLoop : List Element → ExecState → Option ExecState
  | [], st => pure st
  | e :: es, st => do
    match ← elementPass M tx inputIndex limits e st with
    | .next st => elementLoop es st
    | .brk st => pure st

/-! ## One element -/

theorem uint8_eq_iff {a b : UInt8} : a = b ↔ a.toNat = b.toNat :=
  ⟨congrArg _, UInt8.toNat.inj⟩

/-- The four shapes of an element whose bytes the loop walks as §4.1 does. -/
theorem decodeHead_cons_cases {b : UInt8} {rest : Script} {e : Element}
    (h : decodeHead (b :: rest) = .elem e) (he : e.estimatorWalks) :
    (0 < b.toNat ∧ b.toNat < 0x4c ∧ e = .push b (rest.take b.toNat) ∧ b.toNat ≤ rest.length) ∨
    (b = OpCode.opPushdata1.val ∧ ∃ n rest', rest = n :: rest' ∧
      e = .push b (rest'.take n.toNat) ∧ n.toNat ≤ rest'.length) ∨
    (0x4e < b.toNat ∧ e = .op b) ∨
    (b = OpCode.op0.val ∧ e = .push b []) := by
  simp only [decodeHead] at h
  split_ifs at h with h₁ h₂ <;> cases h
  · simp only [Element.estimatorWalks, OpCode.opPushdata2, OpCode.opPushdata4,
      bne_iff_ne, ne_eq, uint8_eq_iff, Bool.and_eq_true, decide_eq_true_eq,
      show UInt8.toNat 0x4d = 0x4d from rfl, show UInt8.toNat 0x4e = 0x4e from rfl] at he
    by_cases hd : b.toNat ≤ 0x4b
    · have hl : lengthBytes b = 0 := if_pos hd
      have hp : pushLength b rest = b.toNat := if_pos hd
      rw [hl, hp] at h₂ ⊢
      by_cases h0 : b.toNat = 0
      · exact .inr (.inr (.inr ⟨uint8_eq_iff.2 h0, by simp [h0]⟩))
      · exact .inl ⟨by omega, by omega, by simp, by omega⟩
    · have h4c : b.toNat = 0x4c := by omega
      have hl : lengthBytes b = 1 := by simp [lengthBytes, h4c]
      obtain _ | ⟨n, rest'⟩ := rest
      · simp [hl] at h₂
      · have hp : pushLength b (n :: rest') = n.toNat := by simp [pushLength, hd, hl, leValue]
        rw [hl, hp] at h₂ ⊢
        exact .inr (.inl ⟨by rw [uint8_eq_iff, h4c]; rfl, n, rest', rfl, by simp,
          by simp at h₂; omega⟩)
  · exact .inr (.inr (.inl ⟨by omega, rfl⟩))

theorem execDecoded_spec (e : Element) (st : ExecState) :
    ∃ st', execDecoded M tx inputIndex e st = some st' ∧ ElementFrame st st' ∧ st'.pc = st.pc := by
  cases e with
  | push b payload => exact ⟨_, rfl, by constructor <;> simp [ExecState.pushSize], rfl⟩
  | op b => exact execOpcode_spec M tx inputIndex ⟨b⟩ st

/-- At the start of an element whose bytes the loop walks as §4.1 does, the loop's push
branches and opcode switch compute §4.4's effect of the element as the loop runs it, with `pc`
moved past it. -/
theorem execElement_decoded {s : Script} {pc : Nat} {e : Element}
    (hd : decodeHead (s.drop pc) = .elem e) (he : e.estimatorWalks) :
    ∃ b, s[pc]? = some b ∧ ∀ st : ExecState, st.pc = pc + 1 →
      execElement M tx inputIndex s b st =
        execDecoded M tx inputIndex e.estimatorView { st with pc := pc + e.size } := by
  obtain ⟨b, rest, hs⟩ : ∃ b rest, s.drop pc = b :: rest := by
    cases h : s.drop pc with
    | nil => rw [h] at hd; cases hd
    | cons b rest => exact ⟨b, rest, rfl⟩
  have hlen : s.length = pc + 1 + rest.length := by
    have := congrArg List.length hs; simp only [List.length_drop, List.length_cons] at this
    omega
  refine ⟨b, by rw [← List.head?_drop, hs]; rfl, fun st hpc => ?_⟩
  rw [hs] at hd
  rcases decodeHead_cons_cases hd he with
    ⟨h0, hlt, rfl, hfit⟩ | ⟨rfl, n, rest', rfl, rfl, hfit⟩ | ⟨hgt, rfl⟩ | ⟨rfl, rfl⟩
  · have hl : lengthBytes b = 0 := if_pos (by omega)
    have hb0 : b.toNat ≠ 0 := by omega
    rw [Element.estimatorView_of_ne fun h => hb0 (congrArg UInt8.toNat (Element.push.inj h).1)]
    simp only [execElement, if_pos (And.intro h0 hlt), execDecoded, Element.size, hl,
      List.length_take, min_eq_left hfit, hpc]
    congr 3; omega
  · have hn : s[st.pc]? = some n := by
      rw [hpc, ← List.head?_drop, ← List.drop_drop, hs]; rfl
    have hl : lengthBytes OpCode.opPushdata1.val = 1 := rfl
    have hlt : ¬ (0 < OpCode.opPushdata1.val.toNat ∧ OpCode.opPushdata1.val.toNat < 0x4c) := by
      decide
    have hin : st.pc < s.length := by rw [hpc, hlen]; simp
    rw [Element.estimatorView_of_ne fun h => absurd (Element.push.inj h).1 (by decide),
      execElement, if_neg hlt, if_pos ⟨rfl, hin⟩]
    simp only [hn, Option.bind_eq_bind, Option.some_bind, execDecoded, Element.size,
      List.length_take, min_eq_left hfit, hl]
    congr 3; rw [hpc]; omega
  · have hne : ¬ b = OpCode.opPushdata1.val := fun h => by
      have : b.toNat = 0x4c := congrArg UInt8.toNat h
      omega
    simp only [execElement, if_neg (show ¬ (0 < b.toNat ∧ b.toNat < 0x4c) by omega), hne,
      false_and, if_false, Element.estimatorView_op, execDecoded, Element.size, ← hpc]
  · have hv : (Element.push OpCode.op0.val []).estimatorView = .op OpCode.op0.val := if_pos rfl
    simp only [execElement, show ¬ (0 < OpCode.op0.val.toNat ∧ OpCode.op0.val.toNat < 0x4c) by
      decide, show OpCode.op0.val ≠ OpCode.opPushdata1.val by decide, false_and, if_false, hv,
      execDecoded, Element.size, show lengthBytes OpCode.op0.val = 0 from rfl, List.length_nil,
      add_zero, ← hpc]

/-! ## One pass -/

/-- What one pass over a decoded element does: it stops at the opcode limit, or it executes the
element past its bytes, tracks the peaks and checks the stack limits. -/
theorem elementPass_spec (e : Element) (st : ExecState) :
    (limits.maxOpcodeCount.toNat ≤ st.opcodeCount ∧
      elementPass M tx inputIndex limits e st =
        some (.brk (st.warn "Opcode count limit exceeded"))) ∨
    (st.opcodeCount < limits.maxOpcodeCount.toNat ∧ ∃ st₁,
      execDecoded M tx inputIndex e
        { st.fetch (castU64 M.cDispatch) with pc := st.pc + e.size } = some st₁ ∧
      ElementFrame { st.fetch (castU64 M.cDispatch) with pc := st.pc + e.size } st₁ ∧
      st₁.pc = st.pc + e.size ∧
      elementPass M tx inputIndex limits e st = some (checkLimits limits st₁.trackPeak)) := by
  unfold elementPass
  split_ifs with hop
  · exact .inl ⟨hop, rfl⟩
  · obtain ⟨st₁, h, hf, hpc⟩ := execDecoded_spec M tx inputIndex e
      { st.fetch (castU64 M.cDispatch) with pc := st.pc + e.size }
    exact .inr ⟨by omega, st₁, h, hf, hpc, by rw [h]; rfl⟩

/-- A pass that goes on moves `pc` past the element and issues no warning; one that breaks
appends a warning. -/
theorem elementPass_next {e : Element} {st st' : ExecState}
    (h : elementPass M tx inputIndex limits e st = some (.next st')) :
    st'.pc = st.pc + e.size ∧ st'.warnings = st.warnings := by
  rcases elementPass_spec M tx inputIndex limits e st with ⟨-, hb⟩ | ⟨-, st₁, -, hf, hpc, hb⟩
  · rw [hb] at h; cases h
  · rw [hb] at h
    rcases checkLimits_cases limits st₁.trackPeak with ⟨hc, -⟩ | ⟨w, hc⟩ <;> rw [hc] at h <;>
      cases h
    exact ⟨hpc, hf.warnings⟩

theorem elementPass_brk {e : Element} {st st' : ExecState}
    (h : elementPass M tx inputIndex limits e st = some (.brk st')) :
    ∃ w, st'.warnings = st.warnings ++ [w] := by
  rcases elementPass_spec M tx inputIndex limits e st with ⟨-, hb⟩ | ⟨-, st₁, -, hf, -, hb⟩
  · rw [hb] at h; cases h; exact ⟨_, rfl⟩
  · rw [hb] at h
    rcases checkLimits_cases limits st₁.trackPeak with ⟨hc, -⟩ | ⟨w, hc⟩ <;> rw [hc] at h <;>
      cases h
    exact ⟨w, by simp [hf.warnings]⟩

/-- At the start of an element whose bytes the loop walks as §4.1 does, a pass of the loop is
§4.4's pass over the element as the loop runs it. -/
theorem loopBody_eq_elementPass {s : Script} {st : ExecState} {e : Element}
    (hd : decodeHead (s.drop st.pc) = .elem e) (he : e.estimatorWalks) :
    loopBody M tx inputIndex limits s st =
      elementPass M tx inputIndex limits e.estimatorView st := by
  obtain ⟨b, hb, hx⟩ := execElement_decoded M tx inputIndex hd he
  unfold loopBody elementPass
  split_ifs
  · rfl
  · simp only [hb, Option.bind_eq_bind, Option.some_bind, hx (st.fetch (castU64 M.cDispatch)) rfl,
      Element.size_estimatorView]

/-! ## Whole runs -/

/-- From the start of a decoding whose bytes the loop walks as §4.1 does, `fuel` passes of the
loop are §4.4's executor over the first `fuel` elements as the loop runs them. -/
theorem loop_eq_elementLoop {s : Script} :
    ∀ {f : Nat} {es : List Element} {st : ExecState}, decodeBytes f (s.drop st.pc) = some es →
      (∀ e ∈ es, e.estimatorWalks) → ∀ fuel,
      loop M tx inputIndex limits s fuel st =
        elementLoop M tx inputIndex limits ((es.map Element.estimatorView).take fuel) st
  | 0, _, _, h, _, _ => by cases h
  | f + 1, es, st, h, hes, fuel => by
    simp only [decodeBytes] at h
    split at h
    · next e hd =>
      obtain ⟨es₁, h₁, rfl⟩ := Option.map_eq_some'.1 h
      cases fuel with
      | zero => rfl
      | succ fuel =>
        have hpc : st.pc < s.length := by
          by_contra hle
          rw [List.drop_eq_nil_of_le (by omega)] at hd; cases hd
        rw [loop_succ, if_pos hpc,
          loopBody_eq_elementPass M tx inputIndex limits hd (hes e (.head _))]
        simp only [List.map_cons, List.take_succ_cons, elementLoop, Option.bind_eq_bind]
        cases hp : elementPass M tx inputIndex limits e.estimatorView st with
        | none => rfl
        | some fl =>
          cases fl with
          | next st' =>
            have h₂ : decodeBytes f (s.drop st'.pc) = some es₁ := by
              rw [(elementPass_next M tx inputIndex limits hp).1, Element.size_estimatorView,
                ← List.drop_drop]
              exact h₁
            exact loop_eq_elementLoop h₂ (fun e' h' => hes e' (.tail _ h')) fuel
          | brk st' => rfl
    · next hd =>
      cases h
      have hle : s.length ≤ st.pc := by
        simpa using decodeHead_eq_done.1 hd
      cases fuel with
      | zero => rfl
      | succ fuel => exact loop_succ_of_le hle
    · cases h

theorem elementLoop_cons_of_next {e : Element} {es : List Element} {st s : ExecState}
    (h : elementPass M tx inputIndex limits e st = some (.next s)) :
    elementLoop M tx inputIndex limits (e :: es) st = elementLoop M tx inputIndex limits es s := by
  simp only [elementLoop, h, Option.bind_eq_bind, Option.some_bind]

/-- A run over `e :: es` that issued no warning went on after `e`. -/
theorem elementLoop_cons_next {e : Element} {es : List Element} {st st' : ExecState}
    (h : elementLoop M tx inputIndex limits (e :: es) st = some st')
    (hw : st'.warnings = st.warnings) :
    ∃ s, elementPass M tx inputIndex limits e st = some (.next s) ∧
      elementLoop M tx inputIndex limits es s = some st' ∧ st'.warnings = s.warnings := by
  simp only [elementLoop, Option.bind_eq_bind] at h
  obtain ⟨fl, hp, h⟩ := Option.bind_eq_some.1 h
  cases fl with
  | next s => exact ⟨s, hp, h, hw.trans (elementPass_next M tx inputIndex limits hp).2.symm⟩
  | brk s =>
    cases h
    obtain ⟨w, hw'⟩ := elementPass_brk M tx inputIndex limits hp
    simp [hw'] at hw

/-- A run of §4.4's executor that issued no warning went through all its elements, so a longer
list of elements goes on from where it stopped. -/
theorem elementLoop_append {es' : List Element} :
    ∀ {es : List Element} {st st' : ExecState},
      elementLoop M tx inputIndex limits es st = some st' → st'.warnings = st.warnings →
      elementLoop M tx inputIndex limits (es ++ es') st = elementLoop M tx inputIndex limits es' st'
  | [], _, _, h, _ => by cases h; rfl
  | e :: es, st, st', h, hw => by
    obtain ⟨s, hp, h', hw'⟩ := elementLoop_cons_next M tx inputIndex limits h hw
    rw [List.cons_append, elementLoop_cons_of_next M tx inputIndex limits hp]
    exact elementLoop_append h' hw'

/-- For a script whose §4.1 decoding is complete and has no `OP_PUSHDATA2` or `OP_PUSHDATA4`
push, `fuel` passes of `estimate`'s loop are §4.4's executor over the first `fuel` decoded
elements, `OP_0` run as an opcode. -/
theorem run_eq_elementLoop_map {unlockingScript lockingScript : Script} {es : List Element}
    (hsize : (unlockingScript ++ lockingScript).length ≤ limits.maxScriptSize.toNat)
    (hdec : decode (unlockingScript ++ lockingScript) = some es)
    (hes : ∀ e ∈ es, e.estimatorWalks) (fuel : Nat) :
    run M unlockingScript lockingScript tx inputIndex limits fuel =
      elementLoop M tx inputIndex limits ((es.map Element.estimatorView).take fuel)
        (start M (unlockingScript ++ lockingScript)) := by
  have h₀ : decodeBytes _ ((unlockingScript ++ lockingScript).drop
      (start M (unlockingScript ++ lockingScript)).pc) = some es := hdec
  rw [run_eq_loop M tx inputIndex hsize, loop_eq_elementLoop M tx inputIndex limits h₀ hes]

/-- For a script whose §4.1 decoding is complete and has none of the pushes `OP_0`,
`OP_PUSHDATA2` and `OP_PUSHDATA4`, `fuel` passes of `estimate`'s loop are §4.4's executor over
the first `fuel` decoded elements. -/
theorem run_eq_elementLoop {unlockingScript lockingScript : Script} {es : List Element}
    (hsize : (unlockingScript ++ lockingScript).length ≤ limits.maxScriptSize.toNat)
    (hdec : decode (unlockingScript ++ lockingScript) = some es)
    (hes : ∀ e ∈ es, e.estimatorDecodes) (fuel : Nat) :
    run M unlockingScript lockingScript tx inputIndex limits fuel =
      elementLoop M tx inputIndex limits (es.take fuel)
        (start M (unlockingScript ++ lockingScript)) := by
  rw [run_eq_elementLoop_map M tx inputIndex limits hsize hdec
    (fun e he => Element.estimatorWalks_of_estimatorDecodes (hes e he)),
    Element.map_estimatorView hes]

/-- For a script whose §4.1 decoding is complete and has none of the pushes `OP_0`,
`OP_PUSHDATA2` and `OP_PUSHDATA4`, `estimate` is §4.4's executor over the decoded elements: it
dispatches exactly at the starts of the elements, a push pushes its payload's length and is
charged no opcode cost, and every other element is executed as an opcode. -/
theorem estimate_eq_elementLoop {unlockingScript lockingScript : Script} {es : List Element}
    (hsize : (unlockingScript ++ lockingScript).length ≤ limits.maxScriptSize.toNat)
    (hdec : decode (unlockingScript ++ lockingScript) = some es)
    (hes : ∀ e ∈ es, e.estimatorDecodes) :
    estimate M unlockingScript lockingScript tx inputIndex limits =
      (elementLoop M tx inputIndex limits es
        (start M (unlockingScript ++ lockingScript))).map ExecState.toEstimate := by
  rw [estimate, run_eq_elementLoop M tx inputIndex limits hsize hdec hes,
    List.take_of_length_le (decode_length_le hdec)]

theorem estimate_eq_elementLoop_pushdata1 :
    estimate {} [0x01, 0xAA] [0x4c, 0x01, 0xBB, 0x76] ⟨[], []⟩ 0 {} =
      (elementLoop {} ⟨[], []⟩ 0 {} [.push 0x01 [0xAA], .push 0x4c [0xBB], .op 0x76]
        (start {} [0x01, 0xAA, 0x4c, 0x01, 0xBB, 0x76])).map ExecState.toEstimate :=
  estimate_eq_elementLoop {} ⟨[], []⟩ 0 {} (by decide) (by decide) (by decide)

end Elements

/-- `OP_PUSHDATA2` with the one-byte payload `0xac`: §4.1 decodes a single push, while the
loop runs `0x4d` as an unknown opcode, `0x01` as a one-byte push over the length byte `0x00`,
and the payload as `OP_CHECKSIG`. -/
theorem estimate_pushdata2_runs_payload :
    decode [0x4d, 0x01, 0x00, 0xAC] = some [.push OpCode.opPushdata2.val [0xAC]] ∧
    estimate {} [] [0x4d, 0x01, 0x00, 0xAC] ⟨[], []⟩ 0 {} = some
      { totalCycles := 318, breakdown := { parsing := 3, dispatch := 15, signatures := 100 },
        peakStackBytes := 1, peakStackItems := 1, signatureCount := 1, opcodeCount := 3,
        warnings := [] } :=
  ⟨by decide, by with_unfolding_all decide⟩

end Bsv.Cost
