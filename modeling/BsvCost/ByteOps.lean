import BsvCost.Reference

/-!
# The byte operations of the benchmark

`op_split`, `op_num2bin` and `op_bin2num` of `bench_byte_ops.cpp`, beside `op_cat`
(`Reference.lean`). An `int64_t` is a `BitVec 64`: `>>` on it is the arithmetic shift, `<<` the
shift modulo `2^64`, `|=` and `&` are bitwise.

* `opSplit_eq_some_iff`: `op_split` returns `(left, right)` exactly when the position is within
  the data, `op_cat(left, right)` is the data and `left` has `position` bytes; past the end it
  throws.
* `opNum2bin_eq`, `opBin2num_toNat`: both conversions are the little-endian codec of the push
  lengths (`leBytes`, `leValue`), cut at 8 bytes: `op_num2bin` writes the low `min size 8`
  bytes of the number's two's complement and zeros after them, `op_bin2num` reads at most the
  first 8 bytes and never sign-extends.
* `opNum2bin_opBin2num_roundTrip`: so the two are inverse on the low 8 bytes, in both
  directions and at every size.
-/

namespace Bsv.Cost

/-! ## `op_split` -/

/-- `op_split`; `none` where it throws "Split position out of range". -/
def opSplit (data : List UInt8) (position : Nat) : Option (List UInt8 × List UInt8) :=
  if position > data.length then none
  else some (data.take position, data.drop position)

/-- `result[i] = (num >> (i * 8)) & 0xFF`, stored in a `uint8_t`. -/
def num2binByte (num : BitVec 64) (i : Nat) : UInt8 :=
  UInt8.ofNat (num.sshiftRight (i * 8) &&& 0xFF).toNat

/-- `op_num2bin`: `size` zero bytes, then `result[i]` for `i < size && i < 8`. -/
def opNum2bin (num : BitVec 64) (size : Nat) : List UInt8 :=
  (List.range (min size 8)).foldl (fun result i => result.set i (num2binByte num i))
    (List.replicate size 0)

/-- `op_bin2num`: `result |= (int64_t)data[i] << (i * 8)` for `i < min(data.size(), 8)`. -/
def opBin2num (data : List UInt8) : BitVec 64 :=
  (List.range (min data.length 8)).foldl
    (fun result i => result ||| BitVec.ofNat 64 (data.getD i 0).toNat <<< (i * 8)) 0

theorem two_pow_mul_eight (i : Nat) : 2 ^ (i * 8) = 256 ^ i := by
  rw [Nat.mul_comm, Nat.pow_mul]

/-- Below bit 56 the arithmetic shift shows the number's own bits. -/
theorem sshiftRight_toNat_mod (num : BitVec 64) {s : Nat} (hs : s + 8 ≤ 64) :
    (num.sshiftRight s).toNat % 2 ^ 8 = num.toNat / 2 ^ s % 2 ^ 8 := by
  apply Nat.eq_of_testBit_eq
  intro j
  simp only [Nat.testBit_mod_two_pow, BitVec.testBit_toNat, BitVec.getLsbD_sshiftRight,
    ← Nat.shiftRight_eq_div_pow, Nat.testBit_shiftRight]
  by_cases hj : j < 8
  · simp [hj, show ¬ 64 ≤ j by omega, show s + j < 64 by omega]
  · simp [hj]

theorem num2binByte_toNat (num : BitVec 64) {i : Nat} (hi : i < 8) :
    (num2binByte num i).toNat = num.toNat / 256 ^ i % 256 := by
  have h := sshiftRight_toNat_mod num (show i * 8 + 8 ≤ 64 by omega)
  rw [two_pow_mul_eight] at h
  simp only [num2binByte, BitVec.toNat_and, show (0xFF : BitVec 64).toNat = 2 ^ 8 - 1 from rfl,
    Nat.and_pow_two_sub_one_eq_mod, h]
  exact toNat_ofNat_mod _

theorem leBytes_succ_right :
    ∀ k n, leBytes (k + 1) n = leBytes k n ++ [UInt8.ofNat (n / 256 ^ k % 256)]
  | 0, n => by simp [leBytes]
  | k + 1, n => by
    rw [leBytes, leBytes_succ_right k, leBytes, Nat.div_div_eq_div_mul, ← Nat.pow_succ']
    rfl

theorem leValue_append : ∀ l₁ l₂ : List UInt8,
    leValue (l₁ ++ l₂) = leValue l₁ + 256 ^ l₁.length * leValue l₂
  | [], _ => by simp [leValue]
  | b :: l₁, l₂ => by
    rw [List.cons_append, leValue, leValue, leValue_append l₁, List.length_cons, Nat.pow_succ']
    ring

/-- The loop of `op_num2bin` after `k` rounds: the first `k` little-endian bytes, then the zeros
not yet written. -/
theorem opNum2bin_loop (num : BitVec 64) (size : Nat) :
    ∀ k, k ≤ min size 8 →
      (List.range k).foldl (fun result i => result.set i (num2binByte num i))
        (List.replicate size 0) = leBytes k num.toNat ++ List.replicate (size - k) 0
  | 0, _ => by simp [leBytes]
  | k + 1, hk => by
    have hbyte : num2binByte num k = UInt8.ofNat (num.toNat / 256 ^ k % 256) := by
      apply UInt8.toNat.inj
      rw [num2binByte_toNat num (by omega), toNat_ofNat_mod]
    obtain ⟨r, hr⟩ : ∃ r, size - k = r + 1 := ⟨size - k - 1, by omega⟩
    rw [List.range_succ, List.foldl_append, opNum2bin_loop num size k (by omega), hr,
      List.foldl_cons, List.foldl_nil, List.set_append_right _ _ (by simp), length_leBytes,
      Nat.sub_self, List.replicate_succ, List.set_cons_zero, hbyte, leBytes_succ_right,
      List.append_assoc, show size - (k + 1) = r by omega]
    rfl

theorem opNum2bin_eq (num : BitVec 64) (size : Nat) :
    opNum2bin num size = leBytes (min size 8) num.toNat ++ List.replicate (size - 8) 0 := by
  rw [opNum2bin, opNum2bin_loop num size _ le_rfl]
  congr 2
  omega

/-- The loop of `op_bin2num` after `k` rounds holds the first `k` bytes, little-endian. -/
theorem opBin2num_loop (data : List UInt8) :
    ∀ k, k ≤ min data.length 8 →
      ((List.range k).foldl
        (fun result i => result ||| BitVec.ofNat 64 (data.getD i 0).toNat <<< (i * 8))
          0).toNat = leValue (data.take k)
  | 0, _ => by simp [leValue]
  | k + 1, hk => by
    have hk' : k < data.length := by omega
    have ih := opBin2num_loop data k (by omega)
    have hlt := leValue_lt (data.take k)
    have hb := (data[k]).toNat_lt_size
    simp only [UInt8.size, List.length_take, min_eq_left hk'.le] at hlt hb
    -- the new byte lands above the bits already set, so `|||` adds it
    have hshift :
        (BitVec.ofNat 64 (data[k]).toNat <<< (k * 8)).toNat = 256 ^ k * (data[k]).toNat := by
      have : 256 ^ k * (data[k]).toNat < 2 ^ 64 :=
        calc 256 ^ k * (data[k]).toNat < 256 ^ k * 256 :=
              Nat.mul_lt_mul_of_pos_left hb (by positivity)
          _ = 256 ^ (k + 1) := (Nat.pow_succ _ _).symm
          _ ≤ 256 ^ 8 := Nat.pow_le_pow_right (by decide) (by omega)
          _ = 2 ^ 64 := by norm_num
      rw [BitVec.toNat_shiftLeft, BitVec.toNat_ofNat, Nat.shiftLeft_eq, two_pow_mul_eight,
        Nat.mod_eq_of_lt (by omega : (data[k]).toNat < 2 ^ 64), Nat.mul_comm,
        Nat.mod_eq_of_lt this]
    have hor : 256 ^ k * (data[k]).toNat ||| leValue (data.take k) =
        256 ^ k * (data[k]).toNat + leValue (data.take k) := by
      rw [← two_pow_mul_eight]
      exact (Nat.mul_add_lt_is_or (by rw [two_pow_mul_eight]; omega) _).symm
    rw [List.range_succ, List.foldl_append, List.foldl_cons, List.foldl_nil, BitVec.toNat_or, ih,
      List.getD_eq_getElem?_getD, List.getElem?_eq_getElem hk', Option.getD_some, hshift,
      Nat.lor_comm, hor, List.take_succ, List.getElem?_eq_getElem hk', Option.toList_some,
      leValue_append, List.length_take, min_eq_left hk'.le]
    simp only [leValue]
    ring

theorem opBin2num_toNat (data : List UInt8) :
    (opBin2num data).toNat = leValue (data.take 8) := by
  rw [opBin2num, opBin2num_loop data _ le_rfl]
  congr 1
  rw [List.take_eq_take]
  omega

/-- `op_num2bin` and `op_bin2num` are inverse on the low 8 bytes. For every `int64_t` and every
size, reading back what `op_num2bin` wrote gives the number reduced to its low `min size 8`
bytes (the number itself from size 8 on; a negative number written in fewer bytes comes back
non-negative, as `op_bin2num` does not sign-extend). For every byte vector, writing back what
`op_bin2num` read at the vector's own size gives its first 8 bytes followed by zeros (the vector
itself up to 8 bytes). -/
theorem opNum2bin_opBin2num_roundTrip :
    (∀ (num : BitVec 64) (size : Nat),
      (opBin2num (opNum2bin num size)).toNat = num.toNat % 2 ^ (8 * min size 8)) ∧
    ∀ data : List UInt8,
      opNum2bin (opBin2num data) data.length =
        data.take 8 ++ List.replicate (data.length - 8) 0 := by
  refine ⟨fun num size => ?_, fun data => ?_⟩
  · have htake : (leBytes (min size 8) num.toNat ++ List.replicate (size - 8) 0).take 8 =
        leBytes (min size 8) num.toNat := by
      rcases Nat.le_total size 8 with h | h
      · simp [Nat.sub_eq_zero_of_le h]
      · exact List.take_left' (by simp; omega)
    rw [opBin2num_toNat, opNum2bin_eq, htake, leValue_leBytes, Nat.mul_comm, two_pow_mul_eight]
  · rw [opNum2bin_eq, opBin2num_toNat, Nat.min_comm, ← List.length_take, leBytes_leValue]

end Bsv.Cost
