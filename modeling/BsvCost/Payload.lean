import BsvCost.Run

/-!
# The estimate never reads pushed data

The loop of `estimate` reads the byte it dispatches on and, for an `OP_PUSHDATA1` push, the
length byte after it; it jumps over every payload. So the estimate depends on the combined
script only through its length and those bytes: the data a script pushes (signatures, keys,
hashes) never changes what it is charged.

* `nextPc`, `readPositions`: where the loop goes after the element at `pc`, and the positions
  its walk from `pc` reads, the limits aside.
* `execElement_pc`, `loopBody_congr`: one element moves `pc` to `nextPc`, and a pass gives the
  same result on two scripts of one length that agree at the positions it reads.
* `loop_congr_read`, `estimate_congr_unread`: two scripts of one length that agree at every
  position the walk over the first reads have the same estimate.
-/

namespace Bsv.Cost

/-- Where the loop goes after the element whose opcode byte `b` is at `pc`: past a direct
push's payload, past an `OP_PUSHDATA1` push's length byte and payload, or to the next byte. -/
def nextPc (combined : Script) (pc : Nat) (b : UInt8) : Nat :=
  if 0 < b.toNat ∧ b.toNat < 0x4c then pc + 1 + b.toNat
  else if b = OpCode.opPushdata1.val ∧ pc + 1 < combined.length then
    pc + 2 + (combined.getD (pc + 1) 0).toNat
  else pc + 1

/-- The positions the loop reads in `fuel` passes from `pc`, the limits aside: each byte it
dispatches on, and the length byte of an `OP_PUSHDATA1` push. -/
def readPositions (combined : Script) : Nat → Nat → List Nat
  | 0, _ => []
  | fuel + 1, pc =>
    match combined[pc]? with
    | none => []
    | some b =>
      (if b = OpCode.opPushdata1.val ∧ pc + 1 < combined.length then [pc, pc + 1] else [pc]) ++
        readPositions combined fuel (nextPc combined pc b)

section Payload

variable {M : CostModel} {tx : Transaction} {inputIndex : Nat} {limits : EstimatorLimits}
  {s s' : Script}

/-- An element executed after the fetch at `pc` leaves `pc` at `nextPc`. -/
theorem execElement_pc {b : UInt8} {st st' : ExecState} {d : Nat}
    (h : execElement M tx inputIndex s b (st.fetch d) = some st') :
    st'.pc = nextPc s st.pc b := by
  unfold execElement at h
  split_ifs at h with hpush hpd
  · cases h
    simp [nextPc, hpush]
  · obtain ⟨len, hlen, h⟩ := Option.bind_eq_some.1 h
    simp only [Option.pure_def, Option.some.injEq] at h
    subst h
    have hb : ¬ (0 < b.toNat ∧ b.toNat < 0x4c) := by
      rw [hpd.1]; decide
    have hpd' : b = OpCode.opPushdata1.val ∧ st.pc + 1 < s.length := by simpa using hpd
    simp only [ExecState.fetch_pc] at hlen
    simp only [nextPc, if_neg hb, if_pos hpd', List.getD_eq_getElem?_getD, hlen,
      Option.getD_some, ExecState.pushSize_pc, ExecState.fetch_pc]
  · obtain ⟨st₁, h₁, -, hpc⟩ := execOpcode_spec M tx inputIndex ⟨b⟩ (st.fetch d)
    rw [h₁, Option.some.injEq] at h
    subst h
    have hpd' : ¬ (b = OpCode.opPushdata1.val ∧ st.pc + 1 < s.length) := by simpa using hpd
    simp [nextPc, hpush, hpd', hpc]

/-- An element reads the script only for an `OP_PUSHDATA1` push's length byte. -/
theorem execElement_congr (hlen : s'.length = s.length) (b : UInt8) (st : ExecState)
    (h : b = OpCode.opPushdata1.val → st.pc < s.length → s'[st.pc]? = s[st.pc]?) :
    execElement M tx inputIndex s' b st = execElement M tx inputIndex s b st := by
  unfold execElement
  rw [hlen]
  split_ifs with hpush hpd
  · rfl
  · rw [h hpd.1 hpd.2]
  · rfl

/-- A pass gives the same result on two scripts of one length that agree at the byte at `pc`
and, for an `OP_PUSHDATA1` push, at its length byte. -/
theorem loopBody_congr (hlen : s'.length = s.length) {st : ExecState}
    (hb : s'[st.pc]? = s[st.pc]?)
    (hl : s[st.pc]? = some OpCode.opPushdata1.val → st.pc + 1 < s.length →
      s'[st.pc + 1]? = s[st.pc + 1]?) :
    loopBody M tx inputIndex limits s' st = loopBody M tx inputIndex limits s st := by
  unfold loopBody
  split_ifs
  · rfl
  · rw [hb]
    cases hs : s[st.pc]? with
    | none => rfl
    | some b =>
      simp only [Option.bind_eq_bind, Option.some_bind]
      rw [execElement_congr hlen b _ fun hb' hpc => hl (hs ▸ hb' ▸ rfl) hpc]

theorem loopBody_next_nextPc {st st' : ExecState} (hpc : st.pc < s.length)
    (h : loopBody M tx inputIndex limits s st = some (.next st')) :
    st'.pc = nextPc s st.pc s[st.pc] := by
  obtain ⟨-, st₁, he, -, rfl, -⟩ := loopBody_next hpc h
  rw [ExecState.trackPeak_pc]
  exact execElement_pc he

/-- Two scripts of one length that agree at every position the walk over the first reads run
the loop alike. -/
theorem loop_congr_read (hlen : s'.length = s.length) :
    ∀ (fuel : Nat) (st : ExecState), (∀ p ∈ readPositions s fuel st.pc, s'[p]? = s[p]?) →
      loop M tx inputIndex limits s' fuel st = loop M tx inputIndex limits s fuel st
  | 0, _, _ => rfl
  | fuel + 1, st, hread => by
    by_cases hpc : st.pc < s.length
    · have hs : s[st.pc]? = some s[st.pc] := List.getElem?_eq_getElem hpc
      simp only [readPositions, hs, List.mem_append] at hread
      have hbody : loopBody M tx inputIndex limits s' st = loopBody M tx inputIndex limits s st :=
        loopBody_congr hlen (hread _ (.inl (by split_ifs <;> simp)))
          fun h₁ h₂ => hread _ (.inl (by rw [hs, Option.some.injEq] at h₁; simp [h₁, h₂]))
      rw [loop_succ, loop_succ, hlen, if_pos hpc, if_pos hpc, hbody]
      cases hb : loopBody M tx inputIndex limits s st with
      | none => rfl
      | some fl =>
        cases fl with
        | next st₁ =>
          simp only [Option.some_bind]
          refine loop_congr_read hlen fuel st₁ fun p hp => hread p (.inr ?_)
          rwa [loopBody_next_nextPc hpc hb] at hp
        | brk st₁ => rfl
    · rw [loop_succ_of_le (by omega), loop_succ_of_le (not_lt.1 hpc)]

variable {unlockingScript lockingScript unlockingScript' lockingScript' : Script}

/-- The data a script pushes never changes its estimate. For every cost model, transaction,
input index and limits, two pairs of scripts whose combined scripts have one length and agree at
every position the loop's walk over the first reads (each byte it dispatches on and each
`OP_PUSHDATA1` length byte) have the same estimate, whatever their bytes inside push payloads
and past the walk. -/
theorem estimate_congr_unread
    (hlen :
      (unlockingScript' ++ lockingScript').length = (unlockingScript ++ lockingScript).length)
    (hread : ∀ p ∈ readPositions (unlockingScript ++ lockingScript)
        (unlockingScript ++ lockingScript).length 0,
      (unlockingScript' ++ lockingScript')[p]? = (unlockingScript ++ lockingScript)[p]?) :
    estimate M unlockingScript' lockingScript' tx inputIndex limits =
      estimate M unlockingScript lockingScript tx inputIndex limits := by
  have hstart : start M (unlockingScript' ++ lockingScript') =
      start M (unlockingScript ++ lockingScript) := by
    simp only [start, hlen]
  simp only [estimate, run, hlen, hstart,
    loop_congr_read hlen _ (start M (unlockingScript ++ lockingScript)) hread]

end Payload

/-- A two-byte push before `OP_DUP`, with its payload `AA BB` replaced by `00 11`. -/
theorem estimate_congr_unread_push :
    ([0x02, 0x00, 0x11] ++ [0x76] : Script).length =
      ([0x02, 0xAA, 0xBB] ++ [0x76] : Script).length ∧
    (∀ p ∈ readPositions ([0x02, 0xAA, 0xBB] ++ [0x76]) ([0x02, 0xAA, 0xBB] ++ [0x76]).length 0,
      ([0x02, 0x00, 0x11] ++ [0x76] : Script)[p]? =
        ([0x02, 0xAA, 0xBB] ++ [0x76] : Script)[p]?) ∧
    estimate {} [0x02, 0x00, 0x11] [0x76] ⟨[], []⟩ 0 {} =
      estimate {} [0x02, 0xAA, 0xBB] [0x76] ⟨[], []⟩ 0 {} :=
  have hlen : ([0x02, 0x00, 0x11] ++ [0x76] : Script).length =
      ([0x02, 0xAA, 0xBB] ++ [0x76] : Script).length := rfl
  have hread : ∀ p ∈ readPositions ([0x02, 0xAA, 0xBB] ++ [0x76])
      ([0x02, 0xAA, 0xBB] ++ [0x76]).length 0,
      ([0x02, 0x00, 0x11] ++ [0x76] : Script)[p]? =
        ([0x02, 0xAA, 0xBB] ++ [0x76] : Script)[p]? := by
    decide
  ⟨hlen, hread, estimate_congr_unread hlen hread⟩

end Bsv.Cost
