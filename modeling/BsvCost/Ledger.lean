import BsvCost.Walk

/-!
# Two runs with the same control

The loop never reads `total_cycles` or the breakdown: the model's charges are only added to
them. Two states that agree on everything else take the same branches, under any two models,
and their accounts move by the two models' charges for the same events. `LedgerRel r rb`
relates two such states, with the totals related by `r` and each breakdown field by `rb`;
`ChargeCompat` says when a relation survives the charges of a pair of models.

* `switchOpcode_ledgerRel`, `execElement_ledgerRel`, `loopBody_ledgerRel`,
  `elementPass_ledgerRel`: one step keeps the relation.
* `loop_ledgerRel`, `elementLoop_ledgerRel`: so do whole runs, from the entry states of two
  runs (`start_ledgerRel`) on.
* `ChargeCompat.le`, `ChargeCompat.le_self`, `ChargeCompat.offset`, `ChargeCompat.any`: a
  pointwise smaller model keeps `≤`, one model keeps `≤` and a fixed offset, and any pair keeps
  the trivial relation.
-/

namespace Bsv.Cost

/-- Two breakdowns related field by field. -/
structure Breakdown.Rel (rb : Nat → Nat → Prop) (b₁ b₂ : Breakdown) : Prop where
  parsing : rb b₁.parsing b₂.parsing
  dispatch : rb b₁.dispatch b₂.dispatch
  stackOps : rb b₁.stackOps b₂.stackOps
  byteOps : rb b₁.byteOps b₂.byteOps
  hashing : rb b₁.hashing b₂.hashing
  signatures : rb b₁.signatures b₂.signatures
  controlFlow : rb b₁.controlFlow b₂.controlFlow

/-- Two states that differ at most in their accounts: the second is the first with another
total and breakdown, related to the first's by `r` and `rb`. -/
def LedgerRel (r rb : Nat → Nat → Prop) (st₁ st₂ : ExecState) : Prop :=
  ∃ T B, st₂ = { st₁ with totalCycles := T, breakdown := B } ∧ r st₁.totalCycles T ∧
    Breakdown.Rel rb st₁.breakdown B

/-- Two outcomes of a pass of the same kind, with related states. -/
def Flow.Rel (R : ExecState → ExecState → Prop) : Flow → Flow → Prop
  | .next a, .next b => R a b
  | .brk a, .brk b => R a b
  | _, _ => False

/-- A relation on account values that survives the charges two models make for one event: the
dispatch, a `calculate_opcode_cost`, and the fallback's literal `100`. -/
structure ChargeCompat (M₁ M₂ : CostModel) (r : Nat → Nat → Prop) : Prop where
  dispatch : ∀ {a b}, r a b → r (a + castU64 M₁.cDispatch) (b + castU64 M₂.cDispatch)
  opcode : ∀ {a b} (op : OpCode) (params : List Nat), r a b →
    r (a + calculateOpcodeCost M₁ op params) (b + calculateOpcodeCost M₂ op params)
  fallback : ∀ {a b}, r a b → r (a + 100) (b + 100)

/-! ## Relations that survive -/

theorem ChargeCompat.le {M₁ M₂ : CostModel} (h : M₁.Le M₂) : ChargeCompat M₁ M₂ (· ≤ ·) where
  dispatch hab := Nat.add_le_add hab (castU64_mono h.cDispatch.2)
  opcode op params hab := Nat.add_le_add hab (calculateOpcodeCost_mono h op params)
  fallback hab := Nat.add_le_add_right hab 100

theorem ChargeCompat.offset (M : CostModel) (k₁ k₂ : Nat) :
    ChargeCompat M M (fun a b => b + k₁ = a + k₂) where
  dispatch hab := by omega
  opcode _ _ hab := by omega
  fallback hab := by omega

theorem ChargeCompat.any (M₁ M₂ : CostModel) : ChargeCompat M₁ M₂ (fun _ _ => True) where
  dispatch _ := trivial
  opcode _ _ _ := trivial
  fallback _ := trivial

/-! ## One step -/

section Step

variable {M₁ M₂ : CostModel} {tx : Transaction} {inputIndex : Nat} {limits : EstimatorLimits}
  {r rb : Nat → Nat → Prop} {st₁ st₂ : ExecState}

theorem LedgerRel.refl (hr : r st₁.totalCycles st₁.totalCycles)
    (hrb : Breakdown.Rel rb st₁.breakdown st₁.breakdown) : LedgerRel r rb st₁ st₁ :=
  ⟨_, _, rfl, hr, hrb⟩

theorem LedgerRel.fetch (hr : ChargeCompat M₁ M₂ r) (hrb : ChargeCompat M₁ M₂ rb)
    (h : LedgerRel r rb st₁ st₂) :
    LedgerRel r rb (st₁.fetch (castU64 M₁.cDispatch)) (st₂.fetch (castU64 M₂.cDispatch)) := by
  obtain ⟨T, B, rfl, ht, hb⟩ := h
  exact ⟨_, _, rfl, hr.dispatch ht, { hb with dispatch := hrb.dispatch hb.dispatch }⟩

theorem LedgerRel.checkLimits (h : LedgerRel r rb st₁ st₂) :
    Flow.Rel (LedgerRel r rb) (checkLimits limits st₁.trackPeak)
      (checkLimits limits st₂.trackPeak) := by
  obtain ⟨T, B, rfl, ht, hb⟩ := h
  unfold Bsv.Cost.checkLimits
  dsimp only [ExecState.trackPeak]
  split_ifs <;> exact ⟨T, B, rfl, ht, hb⟩

/-- The two models' switches take the same case on states with the same control. -/
theorem switchOpcode_ledgerRel (hr : ChargeCompat M₁ M₂ r) (hrb : ChargeCompat M₁ M₂ rb)
    (op : OpCode) (h : LedgerRel r rb st₁ st₂) :
    ∃ r₁ r₂ params, switchOpcode M₁ tx inputIndex op st₁ = some (r₁, params) ∧
      switchOpcode M₂ tx inputIndex op st₂ = some (r₂, params) ∧ LedgerRel r rb r₁ r₂ := by
  obtain ⟨T, B, rfl, ht, hb⟩ := h
  have hnil : ∀ l : List Nat, l = [] ∨ ∃ t r, l = t :: r := by
    rintro (_ | ⟨t, r⟩) <;> simp
  have hlt : ∀ l : List Nat, l.length < 2 ∨ ∃ a b r, l = a :: b :: r := by
    rintro (_ | ⟨a, _ | ⟨b, r⟩⟩) <;> simp
  unfold switchOpcode
  cases switchCase op
  · rcases hnil st₁.stackSizes with hs | ⟨t, rest, hs⟩
    · exact ⟨_, _, _, switchDup_nil M₁ hs, switchDup_nil M₂ hs, _, _, rfl, ht,
        { hb with stackOps := hrb.opcode _ _ hb.stackOps }⟩
    · exact ⟨_, _, _, switchDup_cons M₁ hs, switchDup_cons M₂ hs, _, _, rfl, ht,
        { hb with stackOps := hrb.opcode _ _ hb.stackOps }⟩
  · rcases hlt st₁.stackSizes with hs | ⟨a, b, rest, hs⟩
    · exact ⟨_, _, _, switchSwap_of_lt M₁ hs, switchSwap_of_lt M₂ hs, _, _, rfl, ht,
        { hb with stackOps := hrb.opcode _ _ hb.stackOps }⟩
    · exact ⟨_, _, _, switchSwap_cons M₁ hs, switchSwap_cons M₂ hs, _, _, rfl, ht,
        { hb with stackOps := hrb.opcode _ _ hb.stackOps }⟩
  · rcases hlt st₁.stackSizes with hs | ⟨a, b, rest, hs⟩
    · exact ⟨_, _, _, switchCat_of_lt M₁ hs, switchCat_of_lt M₂ hs, _, _, rfl, ht,
        { hb with byteOps := hrb.opcode _ _ hb.byteOps }⟩
    · exact ⟨_, _, _, switchCat_cons M₁ hs, switchCat_cons M₂ hs, _, _, rfl, ht,
        { hb with byteOps := hrb.opcode _ _ hb.byteOps }⟩
  · rcases hnil st₁.stackSizes with hs | ⟨t, rest, hs⟩
    · exact ⟨_, _, _, switchHash_nil M₁ hs, switchHash_nil M₂ hs, _, _, rfl, ht,
        { hb with hashing := hrb.opcode _ _ hb.hashing }⟩
    · exact ⟨_, _, _, switchHash_cons M₁ hs, switchHash_cons M₂ hs, _, _, rfl, ht,
        { hb with hashing := hrb.opcode _ _ hb.hashing }⟩
  · rcases hlt st₁.stackSizes with hs | ⟨a, b, rest, hs⟩
    · exact ⟨_, _, _, switchChecksig_of_lt M₁ tx inputIndex hs,
        switchChecksig_of_lt M₂ tx inputIndex hs, _, _, rfl, ht,
        { hb with signatures := hrb.opcode _ _ hb.signatures }⟩
    · exact ⟨_, _, _, switchChecksig_cons M₁ tx inputIndex hs,
        switchChecksig_cons M₂ tx inputIndex hs, _, _, rfl, ht,
        { hb with signatures := hrb.opcode _ _ hb.signatures }⟩
  · exact ⟨_, _, _, rfl, rfl, _, _, rfl, hr.fallback ht, hb⟩

theorem execOpcode_ledgerRel (hr : ChargeCompat M₁ M₂ r) (hrb : ChargeCompat M₁ M₂ rb)
    (op : OpCode) (h : LedgerRel r rb st₁ st₂) :
    ∃ r₁ r₂, execOpcode M₁ tx inputIndex op st₁ = some r₁ ∧
      execOpcode M₂ tx inputIndex op st₂ = some r₂ ∧ LedgerRel r rb r₁ r₂ := by
  obtain ⟨r₁, r₂, params, h₁, h₂, T, B, rfl, ht, hb⟩ := switchOpcode_ledgerRel hr hrb op h
  exact ⟨_, _, execOpcode_of_switchOpcode M₁ tx inputIndex h₁,
    execOpcode_of_switchOpcode M₂ tx inputIndex h₂, _, _, rfl, hr.opcode op params ht, hb⟩

theorem execElement_ledgerRel (hr : ChargeCompat M₁ M₂ r) (hrb : ChargeCompat M₁ M₂ rb)
    (combined : Script) (opByte : UInt8) (h : LedgerRel r rb st₁ st₂) :
    ∃ r₁ r₂, execElement M₁ tx inputIndex combined opByte st₁ = some r₁ ∧
      execElement M₂ tx inputIndex combined opByte st₂ = some r₂ ∧ LedgerRel r rb r₁ r₂ := by
  obtain ⟨T, B, rfl, ht, hb⟩ := id h
  unfold execElement
  dsimp only
  split_ifs with hpush hpd
  · exact ⟨_, _, rfl, rfl, T, B, rfl, ht, hb⟩
  · obtain ⟨len, hlen⟩ : ∃ len, combined[st₁.pc]? = some len :=
      ⟨_, List.getElem?_eq_getElem hpd.2⟩
    simp only [hlen, Option.bind_eq_bind, Option.some_bind]
    exact ⟨_, _, rfl, rfl, T, B, rfl, ht, hb⟩
  · exact execOpcode_ledgerRel hr hrb ⟨opByte⟩ h

theorem execDecoded_ledgerRel (hr : ChargeCompat M₁ M₂ r) (hrb : ChargeCompat M₁ M₂ rb)
    (e : Element) (h : LedgerRel r rb st₁ st₂) :
    ∃ r₁ r₂, execDecoded M₁ tx inputIndex e st₁ = some r₁ ∧
      execDecoded M₂ tx inputIndex e st₂ = some r₂ ∧ LedgerRel r rb r₁ r₂ := by
  cases e with
  | push b payload =>
    obtain ⟨T, B, rfl, ht, hb⟩ := h
    exact ⟨_, _, rfl, rfl, T, B, rfl, ht, hb⟩
  | op b => exact execOpcode_ledgerRel hr hrb ⟨b⟩ h

theorem loopBody_ledgerRel (hr : ChargeCompat M₁ M₂ r) (hrb : ChargeCompat M₁ M₂ rb)
    {s : Script} (h : LedgerRel r rb st₁ st₂) (hpc : st₁.pc < s.length) :
    ∃ fl₁ fl₂, loopBody M₁ tx inputIndex limits s st₁ = some fl₁ ∧
      loopBody M₂ tx inputIndex limits s st₂ = some fl₂ ∧ Flow.Rel (LedgerRel r rb) fl₁ fl₂ := by
  obtain ⟨T, B, rfl, ht, hb⟩ := id h
  unfold loopBody
  dsimp only
  split_ifs
  · exact ⟨_, _, rfl, rfl, T, B, rfl, ht, hb⟩
  · obtain ⟨r₁, r₂, h₁, h₂, hrel⟩ :=
      execElement_ledgerRel hr hrb s s[st₁.pc] (h.fetch hr hrb)
    simp only [List.getElem?_eq_getElem hpc, Option.bind_eq_bind, Option.some_bind]
    exact ⟨_, _, by rw [h₁]; rfl, by rw [h₂]; rfl, hrel.checkLimits⟩

theorem elementPass_ledgerRel (hr : ChargeCompat M₁ M₂ r) (hrb : ChargeCompat M₁ M₂ rb)
    (e : Element) (h : LedgerRel r rb st₁ st₂) :
    ∃ fl₁ fl₂, elementPass M₁ tx inputIndex limits e st₁ = some fl₁ ∧
      elementPass M₂ tx inputIndex limits e st₂ = some fl₂ ∧ Flow.Rel (LedgerRel r rb) fl₁ fl₂ := by
  obtain ⟨T, B, rfl, ht, hb⟩ := id h
  unfold elementPass
  dsimp only
  split_ifs
  · exact ⟨_, _, rfl, rfl, T, B, rfl, ht, hb⟩
  · have hf : LedgerRel r rb { st₁.fetch (castU64 M₁.cDispatch) with pc := st₁.pc + e.size }
        { ({ st₁ with totalCycles := T, breakdown := B }).fetch (castU64 M₂.cDispatch) with
          pc := st₁.pc + e.size } := by
      obtain ⟨T', B', h', ht', hb'⟩ := h.fetch hr hrb
      exact ⟨T', B', by rw [h'], ht', hb'⟩
    obtain ⟨r₁, r₂, h₁, h₂, hrel⟩ := execDecoded_ledgerRel hr hrb e hf
    exact ⟨_, _, by rw [h₁]; rfl, by rw [h₂]; rfl, hrel.checkLimits⟩

end Step

/-! ## Whole runs -/

section Run

variable {M₁ M₂ : CostModel} (tx : Transaction) (inputIndex : Nat) (limits : EstimatorLimits)
  {r rb : Nat → Nat → Prop}

/-- The states entering two loops differ only in their parsing charges. -/
theorem start_ledgerRel (M₁ M₂ : CostModel) (s₁ s₂ : Script)
    (hr : r (castU64 (M₁.cParsePerByte * s₁.length)) (castU64 (M₂.cParsePerByte * s₂.length)))
    (hrb : rb (castU64 (M₁.cParsePerByte * s₁.length)) (castU64 (M₂.cParsePerByte * s₂.length)))
    (hrb₀ : rb 0 0) : LedgerRel r rb (start M₁ s₁) (start M₂ s₂) :=
  ⟨_, _, rfl, hr, ⟨hrb, hrb₀, hrb₀, hrb₀, hrb₀, hrb₀, hrb₀⟩⟩

/-- Runs of the loop from related states, under two models that keep the relations, end in
related states. -/
theorem loop_ledgerRel (hr : ChargeCompat M₁ M₂ r) (hrb : ChargeCompat M₁ M₂ rb) {s : Script} :
    ∀ (fuel : Nat) {st₁ st₂ : ExecState}, LedgerRel r rb st₁ st₂ →
      ∃ r₁ r₂, loop M₁ tx inputIndex limits s fuel st₁ = some r₁ ∧
        loop M₂ tx inputIndex limits s fuel st₂ = some r₂ ∧ LedgerRel r rb r₁ r₂
  | 0, _, _, h => ⟨_, _, rfl, rfl, h⟩
  | fuel + 1, st₁, st₂, h => by
    obtain ⟨T, B, rfl, ht, hb⟩ := id h
    by_cases hpc : st₁.pc < s.length
    · obtain ⟨fl₁, fl₂, h₁, h₂, hrel⟩ := loopBody_ledgerRel hr hrb h hpc
      rw [loop_succ, if_pos hpc, h₁, loop_succ, if_pos hpc, h₂]
      cases fl₁ <;> cases fl₂ <;> simp only [Flow.Rel] at hrel
      · exact loop_ledgerRel hr hrb fuel hrel
      · exact ⟨_, _, rfl, rfl, hrel⟩
    · exact ⟨_, _, loop_succ_of_le (by omega), loop_succ_of_le (by simpa using hpc), h⟩

/-- So do runs of §4.4's executor over the same elements. -/
theorem elementLoop_ledgerRel (hr : ChargeCompat M₁ M₂ r) (hrb : ChargeCompat M₁ M₂ rb) :
    ∀ (es : List Element) {st₁ st₂ : ExecState}, LedgerRel r rb st₁ st₂ →
      ∃ r₁ r₂, elementLoop M₁ tx inputIndex limits es st₁ = some r₁ ∧
        elementLoop M₂ tx inputIndex limits es st₂ = some r₂ ∧ LedgerRel r rb r₁ r₂
  | [], _, _, h => ⟨_, _, rfl, rfl, h⟩
  | e :: es, _, _, h => by
    obtain ⟨fl₁, fl₂, h₁, h₂, hrel⟩ := elementPass_ledgerRel hr hrb e h
    simp only [elementLoop]
    rw [h₁, h₂]
    cases fl₁ <;> cases fl₂ <;> simp only [Flow.Rel] at hrel
    · exact elementLoop_ledgerRel hr hrb es hrel
    · exact ⟨_, _, rfl, rfl, hrel⟩

end Run

end Bsv.Cost
