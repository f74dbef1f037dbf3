import Mathlib.Algebra.BigOperators.Group.List
import Mathlib.Data.List.OfFn
import BsvCost.Walk

/-!
# The size stack against a byte-string interpreter

The estimator keeps only the sizes of the stack items. This module gives the byte-string
interpreter the sizes abstract, from the benchmark sources: `SimpleStack`'s `push`, `dup` and
`swap`, `op_cat`, and `op_sha256` and `op_hash256` over a SHA-256 given as a parameter, with
`OP_CHECKSIG` replacing signature and public key by a one-byte boolean. It runs on the §4.1
decoding and fails where `SimpleStack` throws and on any opcode outside those six.

A size is the item's length as the estimator's `uint64_t` holds it (`size64`).

* `execOpcode_refStep`: one opcode of the switch commutes with taking sizes.
* `elementLoop_refRun`: a run of §4.4's executor that issued no warning ends on the sizes of
  the reference stack after the same elements.
* `run_stackSizes_refRun`: for a script that decodes completely into direct and `OP_PUSHDATA1`
  pushes and opcodes the reference interpreter runs, the size stack of `estimate` after each
  step before any limit stop is the reference stack's lengths, each mod `2^64`.
* `run_doubling_wraps`: the reduction is real: 58 `OP_DUP OP_CAT` pairs over a 75-byte push
  leave an item of `75 · 2^58` bytes, whose size has wrapped.
-/

namespace Bsv.Cost

/-- `SimpleStack`'s items, the top first. -/
abbrev RefStack := List (List UInt8)

namespace SimpleStack

/-- `SimpleStack::push`. -/
def push (data : List UInt8) (items : RefStack) : RefStack := data :: items

/-- `SimpleStack::dup`; `none` where it throws "Stack empty". -/
def dup : RefStack → Option RefStack
  | [] => none
  | x :: r => some (x :: x :: r)

/-- `SimpleStack::swap`; `none` where it throws "Insufficient items". -/
def swap : RefStack → Option RefStack
  | x :: y :: r => some (y :: x :: r)
  | _ => none

theorem dup_eq_some {stk stk' : RefStack} :
    dup stk = some stk' ↔ ∃ x r, stk = x :: r ∧ x :: x :: r = stk' := by
  cases stk <;> simp [dup, and_assoc]

theorem swap_eq_some {stk stk' : RefStack} :
    swap stk = some stk' ↔ ∃ x y r, stk = x :: y :: r ∧ y :: x :: r = stk' := by
  rcases stk with _ | ⟨x, _ | ⟨y, r⟩⟩ <;> simp [swap, and_assoc]

end SimpleStack

/-- `op_cat`. -/
def opCat (a b : List UInt8) : List UInt8 := a ++ b

section Reference

variable (sha256 : List UInt8 → Fin 32 → UInt8) (verify : List UInt8 → List UInt8 → Bool)

/-- `op_sha256`: the `SHA256_DIGEST_LENGTH` bytes of the digest. -/
def opSha256 (data : List UInt8) : List UInt8 := List.ofFn (sha256 data)

/-- `op_hash256`: SHA-256 of SHA-256. -/
def opHash256 (data : List UInt8) : List UInt8 := opSha256 sha256 (opSha256 sha256 data)

/-- One opcode on the reference stack: the six opcodes act on the bytes, any other fails. -/
def refOp (b : UInt8) (stk : RefStack) : Option RefStack :=
  if (⟨b⟩ : OpCode) = .opDup then SimpleStack.dup stk
  else if (⟨b⟩ : OpCode) = .opSwap then SimpleStack.swap stk
  else if (⟨b⟩ : OpCode) = .opCat then
    match stk with
    | y :: x :: r => some (opCat x y :: r)
    | _ => none
  else if (⟨b⟩ : OpCode) = .opSha256 then
    match stk with
    | x :: r => some (opSha256 sha256 x :: r)
    | [] => none
  else if (⟨b⟩ : OpCode) = .opHash256 then
    match stk with
    | x :: r => some (opHash256 sha256 x :: r)
    | [] => none
  else if (⟨b⟩ : OpCode) = .opChecksig then
    match stk with
    | pubkey :: sig :: r => some ([if verify sig pubkey then 1 else 0] :: r)
    | _ => none
  else none

/-- One decoded element on the reference stack: a push pushes its payload. -/
def refStep (e : Element) (stk : RefStack) : Option RefStack :=
  match e with
  | .push _ payload => some (SimpleStack.push payload stk)
  | .op b => refOp sha256 verify b stk

@[simp] theorem refStep_push (b : UInt8) (payload : List UInt8) (stk : RefStack) :
    refStep sha256 verify (.push b payload) stk = some (payload :: stk) := rfl

/-- The reference interpreter over decoded elements. -/
def refRun : List Element → RefStack → Option RefStack
  | [], stk => some stk
  | e :: es, stk => (refStep sha256 verify e stk).bind (refRun es)

theorem refRun_append (es' : List Element) :
    ∀ (es : List Element) (stk : RefStack),
      refRun sha256 verify (es ++ es') stk =
        (refRun sha256 verify es stk).bind (refRun sha256 verify es')
  | [], _ => rfl
  | e :: es, stk => by
    simp only [List.cons_append, refRun]
    cases refStep sha256 verify e stk with
    | none => rfl
    | some stk₁ => exact refRun_append es' es stk₁

/-- A reference run that goes through a list of elements goes through each prefix. -/
theorem refRun_take_isSome {es : List Element} {stk : RefStack}
    (h : (refRun sha256 verify es stk).isSome) (n : Nat) :
    (refRun sha256 verify (es.take n) stk).isSome := by
  rw [← List.take_append_drop n es, refRun_append] at h
  cases hn : refRun sha256 verify (es.take n) stk <;> simp_all

theorem refRun_cons_isSome {e : Element} {es : List Element} {stk : RefStack}
    (h : (refRun sha256 verify (e :: es) stk).isSome) :
    ∃ stk₁, refStep sha256 verify e stk = some stk₁ ∧ (refRun sha256 verify es stk₁).isSome := by
  simp only [refRun] at h
  cases hs : refStep sha256 verify e stk <;> simp_all

/-- `OP_DUP OP_CAT` doubles the top item. -/
theorem refRun_doubling (x : UInt8) :
    ∀ (k n : Nat), refRun sha256 verify (List.replicate k [.op 0x76, .op 0x7e]).flatten
      [List.replicate n x] = some [List.replicate (n * 2 ^ k) x]
  | 0, n => by simp [refRun]
  | k + 1, n => by
    rw [List.replicate_succ, List.flatten_cons, refRun_append]
    have h : refRun sha256 verify [.op 0x76, .op 0x7e] [List.replicate n x] =
        some [List.replicate n x ++ List.replicate n x] := rfl
    rw [h, Option.some_bind, List.append_replicate_replicate, refRun_doubling x k (n + n)]
    congr 3
    ring

end Reference

/-! ## Sizes -/

/-- The size the estimator keeps for an item: its length as a `uint64_t`. -/
def size64 (x : List UInt8) : Nat := x.length % 2 ^ 64

theorem add64_size64 (x y : List UInt8) : add64 (size64 x) (size64 y) = size64 (x ++ y) := by
  simp [add64, size64, Nat.add_mod]

theorem size64_opSha256 (sha256 : List UInt8 → Fin 32 → UInt8) (x : List UInt8) :
    size64 (opSha256 sha256 x) = 32 := by
  simp [size64, opSha256, List.length_ofFn]

section Simulation

variable (M : CostModel) (tx : Transaction) (inputIndex : Nat) (limits : EstimatorLimits)
  {sha256 : List UInt8 → Fin 32 → UInt8} {verify : List UInt8 → List UInt8 → Bool}

/-- The opcode switch acts on sizes as the reference interpreter acts on bytes. -/
theorem execOpcode_refStep {b : UInt8} {stk stk' : RefStack} {st : ExecState}
    (hst : st.stackSizes = stk.map size64) (h : refStep sha256 verify (.op b) stk = some stk') :
    ∃ st', execOpcode M tx inputIndex ⟨b⟩ st = some st' ∧ st'.stackSizes = stk'.map size64 := by
  have key : ∀ {op st₁ params}, switchOpcode M tx inputIndex op st = some (st₁, params) →
      st₁.stackSizes = stk'.map size64 →
      ∃ st', execOpcode M tx inputIndex op st = some st' ∧ st'.stackSizes = stk'.map size64 :=
    fun h hs => ⟨_, execOpcode_of_switchOpcode M tx inputIndex h, hs⟩
  change refOp sha256 verify b stk = some stk' at h
  unfold refOp at h
  by_cases h₁ : (⟨b⟩ : OpCode) = .opDup
  · rw [if_pos h₁] at h
    obtain ⟨x, r, rfl, rfl⟩ := SimpleStack.dup_eq_some.1 h
    rw [h₁]
    exact key (switchDup_cons M (by simpa using hst)) (by simp)
  rw [if_neg h₁] at h
  by_cases h₂ : (⟨b⟩ : OpCode) = .opSwap
  · rw [if_pos h₂] at h
    obtain ⟨x, y, r, rfl, rfl⟩ := SimpleStack.swap_eq_some.1 h
    rw [h₂]
    exact key (switchSwap_cons M (by simpa using hst)) (by simp)
  rw [if_neg h₂] at h
  by_cases h₃ : (⟨b⟩ : OpCode) = .opCat
  · rw [if_pos h₃] at h
    rcases stk with _ | ⟨y, _ | ⟨x, r⟩⟩ <;> simp only [Option.some.injEq, reduceCtorEq] at h
    subst h
    rw [h₃]
    exact key (switchCat_cons M (by simpa using hst)) (by simp [add64_size64, opCat])
  rw [if_neg h₃] at h
  by_cases h₄ : (⟨b⟩ : OpCode) = .opSha256
  · rw [if_pos h₄] at h
    rcases stk with _ | ⟨x, r⟩ <;> simp only [Option.some.injEq, reduceCtorEq] at h
    subst h
    rw [h₄]
    exact key (switchHash_cons M (by simpa using hst)) (by simp [size64_opSha256])
  rw [if_neg h₄] at h
  by_cases h₅ : (⟨b⟩ : OpCode) = .opHash256
  · rw [if_pos h₅] at h
    rcases stk with _ | ⟨x, r⟩ <;> simp only [Option.some.injEq, reduceCtorEq] at h
    subst h
    rw [h₅]
    exact key (switchHash_cons M (by simpa using hst)) (by simp [opHash256, size64_opSha256])
  rw [if_neg h₅] at h
  by_cases h₆ : (⟨b⟩ : OpCode) = .opChecksig
  · rw [if_pos h₆] at h
    rcases stk with _ | ⟨pk, _ | ⟨sig, r⟩⟩ <;> simp only [Option.some.injEq, reduceCtorEq] at h
    subst h
    rw [h₆]
    exact key (switchChecksig_cons M tx inputIndex (by simpa using hst)) (by simp [size64])
  rw [if_neg h₆] at h
  cases h

/-- A decoded element acts on sizes as the reference interpreter acts on bytes. -/
theorem execDecoded_refStep {e : Element} {stk stk' : RefStack} {st : ExecState}
    (he : e.size < 2 ^ 64) (hst : st.stackSizes = stk.map size64)
    (h : refStep sha256 verify e stk = some stk') :
    ∃ st', execDecoded M tx inputIndex e st = some st' ∧ st'.stackSizes = stk'.map size64 := by
  cases e with
  | push b payload =>
    rw [refStep_push, Option.some.injEq] at h
    subst h
    refine ⟨_, rfl, ?_⟩
    simp only [Element.size] at he
    have hp : size64 payload = payload.length := Nat.mod_eq_of_lt (by omega)
    simp [hst, hp]
  | op b => exact execOpcode_refStep M tx inputIndex hst h

/-- A pass that goes on leaves the sizes of the reference stack after its element. -/
theorem elementPass_refStep {e : Element} {stk stk' : RefStack} {st s : ExecState}
    (he : e.size < 2 ^ 64) (hst : st.stackSizes = stk.map size64)
    (h : refStep sha256 verify e stk = some stk')
    (hp : elementPass M tx inputIndex limits e st = some (.next s)) :
    s.stackSizes = stk'.map size64 := by
  rcases elementPass_spec M tx inputIndex limits e st with ⟨-, hb⟩ | ⟨-, st₁, hx, -, -, hb⟩
  · rw [hb] at hp; cases hp
  · have hst₁ :
        ({ st.fetch (castU64 M.cDispatch) with pc := st.pc + e.size } : ExecState).stackSizes =
          stk.map size64 := by simpa using hst
    obtain ⟨st₂, hx₂, hs₂⟩ := execDecoded_refStep M tx inputIndex he hst₁ h
    rw [hx, Option.some.injEq] at hx₂
    subst hx₂
    rw [hb] at hp
    rcases checkLimits_cases limits st₁.trackPeak with ⟨hc, -⟩ | ⟨w, hc⟩ <;> rw [hc] at hp <;>
      cases hp
    simpa using hs₂

/-- A run of §4.4's executor that issued no warning ends on the sizes of the reference stack
after the same elements. -/
theorem elementLoop_refRun :
    ∀ {es : List Element} {stk : RefStack} {st st' : ExecState},
      (∀ e ∈ es, e.size < 2 ^ 64) → st.stackSizes = stk.map size64 →
      (refRun sha256 verify es stk).isSome →
      elementLoop M tx inputIndex limits es st = some st' → st'.warnings = st.warnings →
      ∃ stk', refRun sha256 verify es stk = some stk' ∧ st'.stackSizes = stk'.map size64
  | [], stk, _, _, _, hst, _, h, _ => by cases h; exact ⟨stk, rfl, hst⟩
  | e :: es, stk, st, st', hsz, hst, href, h, hw => by
    obtain ⟨s, hp, h', hw'⟩ := elementLoop_cons_next M tx inputIndex limits h hw
    obtain ⟨stk₁, h₁, href'⟩ := refRun_cons_isSome sha256 verify href
    obtain ⟨stk', h₂, hs'⟩ := elementLoop_refRun (fun e' h => hsz e' (.tail _ h))
      (elementPass_refStep M tx inputIndex limits (hsz e (.head _)) hst h₁ hp) href' h' hw'
    exact ⟨stk', by simp [refRun, h₁, h₂], hs'⟩

end Simulation

/-- For a script whose §4.1 decoding is complete and consists of direct and `OP_PUSHDATA1`
pushes and opcodes the reference interpreter runs from the empty stack, the size stack of
`estimate` after each step before any limit stop holds the lengths of the reference stack after
the same elements, each mod `2^64`. -/
theorem run_stackSizes_refRun {M : CostModel} {unlockingScript lockingScript : Script}
    {tx : Transaction} {inputIndex : Nat} {limits : EstimatorLimits} {es : List Element}
    (sha256 : List UInt8 → Fin 32 → UInt8) (verify : List UInt8 → List UInt8 → Bool)
    (hdec : decode (unlockingScript ++ lockingScript) = some es)
    (hes : ∀ e ∈ es, e.estimatorDecodes) (href : (refRun sha256 verify es []).isSome)
    {fuel : Nat} {st : ExecState}
    (hrun : run M unlockingScript lockingScript tx inputIndex limits fuel = some st)
    (hw : st.warnings = []) :
    ∃ stk, refRun sha256 verify (es.take fuel) [] = some stk ∧ st.stackSizes = stk.map size64 := by
  have hsize := run_length_le hrun hw
  rw [run_eq_elementLoop M tx inputIndex limits hsize hdec hes] at hrun
  have hsz : ∀ e ∈ es.take fuel, e.size < 2 ^ 64 := fun e he =>
    calc e.size ≤ (unlockingScript ++ lockingScript).length :=
          decodeBytes_size_le hdec e (List.mem_of_mem_take he)
      _ ≤ limits.maxScriptSize.toNat := hsize
      _ < 2 ^ 64 := limits.maxScriptSize.toNat_lt_size
  exact elementLoop_refRun M tx inputIndex limits hsz rfl
    (refRun_take_isSome sha256 verify href fuel) hrun (by rw [hw]; rfl)

theorem run_stackSizes_refRun_dup_cat :
    ∃ stk, refRun (fun _ _ => 0) (fun _ _ => true)
        ([.push 0x01 [0xAA], .op 0x76, .op 0x7e].take 3) [] = some stk ∧ [2] = stk.map size64 :=
  have hrun : run {} [0x01, 0xAA] [0x76, 0x7e] ⟨[], []⟩ 0 {} 3 = some
      { pc := 4, stackSizes := [2], currentStackBytes := 2, totalCycles := 218,
        breakdown := { parsing := 3, dispatch := 15, stackOps := 100, byteOps := 100 },
        peakStackBytes := 2, peakStackItems := 2, signatureCount := 0, opcodeCount := 3,
        warnings := [] } := by
    with_unfolding_all rfl
  run_stackSizes_refRun (fun _ _ => 0) (fun _ _ => true) (by decide) (by decide) (by rfl) hrun rfl

/-! ## Doubling an item -/

section Doubling

variable (M : CostModel) (tx : Transaction) (inputIndex : Nat) (limits : EstimatorLimits)

/-- A pass whose element leaves the stack within its limits goes on. -/
theorem elementPass_of_execDecoded {e : Element} {st st₁ : ExecState}
    (hop : st.opcodeCount < limits.maxOpcodeCount.toNat)
    (hx : execDecoded M tx inputIndex e
      { st.fetch (castU64 M.cDispatch) with pc := st.pc + e.size } = some st₁)
    (hb : st₁.currentStackBytes ≤ limits.maxStackItemSize.toNat)
    (hi : st₁.stackSizes.length ≤ limits.maxStackItems.toNat) :
    elementPass M tx inputIndex limits e st = some (.next st₁.trackPeak) := by
  rw [elementPass, if_neg (not_le.2 hop)]
  simp only [hx, Option.bind_eq_bind, Option.some_bind, checkLimits,
    ExecState.trackPeak_currentStackBytes, ExecState.trackPeak_stackSizes, if_neg (not_lt.2 hb),
    if_neg (not_lt.2 hi)]
  rfl

/-- `OP_CAT` of an item with its copy leaves the bytes of the stack at the new item's size. -/
theorem cat_bytes_self (x : Nat) :
    add64 (sub64 (sub64 (add64 x x) x) x) (add64 x x) = add64 x x := by
  simp only [add64, sub64]
  omega

/-- Under a stack byte limit of `2^64 - 1`, `k` pairs `OP_DUP OP_CAT` on a lone item multiply
its size by `2^k` mod `2^64`, with no warning. -/
theorem elementLoop_doubling (hlim : limits.maxStackItemSize.toNat = 2 ^ 64 - 1)
    (hitems : 2 ≤ limits.maxStackItems.toNat) :
    ∀ (k : Nat) {st : ExecState} {x : Nat}, st.stackSizes = [x] → st.currentStackBytes = x →
      x < 2 ^ 64 → st.opcodeCount + 2 * k ≤ limits.maxOpcodeCount.toNat →
      ∃ st', elementLoop M tx inputIndex limits (List.replicate k [.op 0x76, .op 0x7e]).flatten st =
          some st' ∧ st'.warnings = st.warnings ∧ st'.stackSizes = [x * 2 ^ k % 2 ^ 64]
  | 0, st, x, hs, _, hx, _ => ⟨st, rfl, rfl, by rw [hs, pow_zero, mul_one, Nat.mod_eq_of_lt hx]⟩
  | k + 1, st, x, hs, hb, hx, hop => by
    have hlt : ∀ a b, add64 a b ≤ limits.maxStackItemSize.toNat := fun a b => by
      rw [hlim]; have := Nat.mod_lt (a + b) (show 0 < 2 ^ 64 by norm_num); unfold add64; omega
    obtain ⟨s₁, h₁, hs₁, hb₁, ho₁, hw₁⟩ : ∃ s,
        elementPass M tx inputIndex limits (.op 0x76) st = some (.next s) ∧ s.stackSizes = [x, x] ∧
          s.currentStackBytes = add64 x x ∧ s.opcodeCount = st.opcodeCount + 1 ∧
          s.warnings = st.warnings :=
      ⟨_, elementPass_of_execDecoded M tx inputIndex limits (by omega)
        (execOpcode_of_switchOpcode M tx inputIndex (switchDup_cons M (by simpa using hs)))
        (hlt _ _) (by simpa using hitems), by simp, by simp [hb], by simp, by simp⟩
    obtain ⟨s₂, h₂, hs₂, hb₂, ho₂, hw₂⟩ : ∃ s,
        elementPass M tx inputIndex limits (.op 0x7e) s₁ = some (.next s) ∧
          s.stackSizes = [add64 x x] ∧ s.currentStackBytes = add64 x x ∧
          s.opcodeCount = s₁.opcodeCount + 1 ∧ s.warnings = s₁.warnings :=
      ⟨_, elementPass_of_execDecoded M tx inputIndex limits (by omega)
        (execOpcode_of_switchOpcode M tx inputIndex (switchCat_cons M (by simpa using hs₁)))
        (hlt _ _) (by simp; omega), by simp, by simp [hb₁, cat_bytes_self], by simp, by simp⟩
    obtain ⟨st', h', hw', hs'⟩ := elementLoop_doubling hlim hitems k hs₂ hb₂
      (Nat.mod_lt _ (by norm_num)) (by omega)
    refine ⟨st', ?_, by rw [hw', hw₂, hw₁], ?_⟩
    · rw [List.replicate_succ, List.flatten_cons, List.cons_append, List.cons_append,
        List.nil_append, elementLoop_cons_of_next M tx inputIndex limits h₁,
        elementLoop_cons_of_next M tx inputIndex limits h₂]
      exact h'
    · rw [hs', add64, Nat.mod_mul_mod, pow_succ]
      congr 2
      ring

end Doubling

/-- `OP_DUP OP_CAT` repeated decodes as its opcodes. -/
theorem decode_doubling : ∀ k : Nat, decode (List.replicate k [0x76, 0x7e]).flatten =
    some (List.replicate k [.op 0x76, .op 0x7e]).flatten
  | 0 => rfl
  | k + 1 => by
    rw [List.replicate_succ, List.flatten_cons, List.replicate_succ, List.flatten_cons]
    exact decode_append (by decide) (decode_doubling k)

/-- Fifty-eight `OP_DUP OP_CAT` pairs over a 75-byte push, under a stack byte limit of
`2^64 - 1`: the reference stack (whose digest and signature check play no part here) ends on
one item of `75 · 2^58` bytes, and `estimate`, with no warning, on one size of
`75 · 2^58 mod 2^64`. -/
theorem run_doubling_wraps :
    decode (0x4b :: List.replicate 75 0 ++ (List.replicate 58 [0x76, 0x7e]).flatten) =
      some (.push 0x4b (List.replicate 75 0) ::
        (List.replicate 58 [.op 0x76, .op 0x7e]).flatten) ∧
    refRun (fun _ _ => 0) (fun _ _ => true) (.push 0x4b (List.replicate 75 0) ::
        (List.replicate 58 [.op 0x76, .op 0x7e]).flatten) [] =
      some [List.replicate (75 * 2 ^ 58) 0] ∧
    (∃ st : ExecState, run {} (0x4b :: List.replicate 75 0) (List.replicate 58 [0x76, 0x7e]).flatten
        ⟨[], []⟩ 0 { maxStackItemSize := 18446744073709551615 } 117 = some st ∧
      st.warnings = [] ∧ st.stackSizes = [3170534137668829184]) ∧
    [3170534137668829184] ≠ [List.replicate (75 * 2 ^ 58) (0 : UInt8)].map List.length := by
  have hpush : decode (0x4b :: List.replicate 75 0) = some [.push 0x4b (List.replicate 75 0)] := by
    decide
  have hdec := decode_append hpush (decode_doubling 58)
  refine ⟨hdec, ?_, ?_, ?_⟩
  · rw [refRun, refStep_push, Option.some_bind]
    exact refRun_doubling (fun _ _ => 0) (fun _ _ => true) 0 58 75
  · have hes : ∀ e ∈ [Element.push 0x4b (List.replicate 75 0)] ++
        (List.replicate 58 [.op 0x76, .op 0x7e]).flatten, e.estimatorDecodes := by
      intro e he
      simp only [List.singleton_append, List.mem_cons, List.mem_flatten, List.mem_replicate] at he
      rcases he with rfl | ⟨l, ⟨-, rfl⟩, he⟩
      · rfl
      · simp only [List.mem_cons, List.mem_singleton, List.not_mem_nil, or_false] at he
        rcases he with rfl | rfl <;> rfl
    have hlen : ([Element.push 0x4b (List.replicate 75 0)] ++
        (List.replicate 58 [Element.op 0x76, .op 0x7e]).flatten).length ≤ 117 := by
      simp only [List.singleton_append, List.length_cons, List.length_nil, List.length_flatten,
        List.map_replicate, List.sum_replicate, smul_eq_mul]
      omega
    have hsize : (0x4b :: List.replicate 75 0 ++ (List.replicate 58 [0x76, 0x7e]).flatten).length ≤
        (({ maxStackItemSize := 18446744073709551615 } : EstimatorLimits)).maxScriptSize.toNat := by
      simp only [List.cons_append, List.length_cons, List.length_append, List.length_replicate,
        List.length_flatten, List.map_replicate, List.sum_replicate, smul_eq_mul]
      decide
    rw [run_eq_elementLoop _ _ _ _ hsize hdec hes, List.take_of_length_le hlen]
    obtain ⟨s₀, h₀, hs₀, hb₀, ho₀, hw₀⟩ : ∃ s, elementPass {} ⟨[], []⟩ 0
        { maxStackItemSize := 18446744073709551615 } (.push 0x4b (List.replicate 75 0))
        (start {} ((0x4b :: List.replicate 75 0) ++ (List.replicate 58 [0x76, 0x7e]).flatten)) =
          some (.next s) ∧ s.stackSizes = [75] ∧ s.currentStackBytes = 75 ∧ s.opcodeCount = 1 ∧
          s.warnings = [] :=
      ⟨_, elementPass_of_execDecoded _ _ _ _ (by decide) (by rfl) (by decide) (by decide), by rfl,
        by rfl, by rfl, by rfl⟩
    obtain ⟨st', h', hw', hs'⟩ := elementLoop_doubling {} ⟨[], []⟩ 0
      { maxStackItemSize := 18446744073709551615 } rfl (by decide) 58 hs₀ hb₀ (by norm_num)
      (by rw [ho₀]; decide)
    refine ⟨st', ?_, by rw [hw', hw₀], by rw [hs']; norm_num⟩
    rw [List.singleton_append, elementLoop_cons_of_next _ _ _ _ h₀]
    exact h'
  · rw [List.map_singleton, List.length_replicate]
    decide

end Bsv.Cost
