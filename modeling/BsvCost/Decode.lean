import BsvCost.Types

/-!
# The script parser of §4.1

The decoding the specification asks of the parser, on the bytes from the cursor on: a push
with its payload (`Push(k, payload_len)`), a non-push opcode (`Op(code)`), the end of the
script (`End`), or a push whose length bytes or payload run past the end (`Truncated`). The
estimator's loop decodes the script by itself; `Walk.lean` compares the two.

* `decodeHead_fits`: a decoded element lies inside the bytes it was decoded from, and
  `decodeHead_append` decodes it alike whatever follows it.
* `decode_length_le`: a complete decoding has at most one element per byte.
* `decode_append`: the decoding of a concatenation of two completely decoded scripts is the
  concatenation of their decodings.
* `decode_eq_some_iff`: the round trip. A script decodes completely to a list of elements
  exactly when the elements are well formed (`Element.wellFormed`) and their encodings
  (`Element.bytes`: opcode, little-endian length bytes, payload) concatenate to the script.
-/

namespace Bsv.Cost

/-- An element of a decoded script: a push, with the opcode that introduces it and its
payload, or a non-push opcode. -/
inductive Element
  | push (opcode : UInt8) (payload : List UInt8)
  | op (code : UInt8)
  deriving DecidableEq, Repr

/-- The parser's answer at the cursor. -/
inductive Decision
  | elem (e : Element)
  | done
  | truncated
  deriving DecidableEq, Repr

/-- The length bytes after a push opcode: none up to `0x4b`, one after `OP_PUSHDATA1`, two
after `OP_PUSHDATA2`, four after `OP_PUSHDATA4`. -/
def lengthBytes (b : UInt8) : Nat :=
  if b.toNat ≤ 0x4b then 0 else if b.toNat = 0x4c then 1 else if b.toNat = 0x4d then 2 else 4

/-- A little-endian number. -/
def leValue : List UInt8 → Nat
  | [] => 0
  | b :: bs => b.toNat + 256 * leValue bs

/-- The payload length a push opcode declares: the opcode itself up to `0x4b`, else the
little-endian number in its length bytes. -/
def pushLength (b : UInt8) (rest : Script) : Nat :=
  if b.toNat ≤ 0x4b then b.toNat else leValue (rest.take (lengthBytes b))

/-- The bytes an element spans. -/
def Element.size : Element → Nat
  | .push b payload => 1 + lengthBytes b + payload.length
  | .op _ => 1

/-- §4.1's decision, given the bytes from the cursor on. -/
def decodeHead : Script → Decision
  | [] => .done
  | b :: rest =>
    if b.toNat ≤ 0x4e then
      if lengthBytes b + pushLength b rest ≤ rest.length then
        .elem (.push b ((rest.drop (lengthBytes b)).take (pushLength b rest)))
      else .truncated
    else .elem (.op b)

/-- The elements decoded for at most `fuel` decisions; `none` if the decoding stops at
`Truncated` or runs out of fuel. -/
def decodeBytes : Nat → Script → Option (List Element)
  | 0, _ => none
  | fuel + 1, bytes =>
    match decodeHead bytes with
    | .elem e => (decodeBytes fuel (bytes.drop e.size)).map (e :: ·)
    | .done => some []
    | .truncated => none

/-- The complete decoding of a script, if it has one. Every element spans a byte at least, so
a decision per byte and one for `End` suffice. -/
def decode (s : Script) : Option (List Element) :=
  decodeBytes (s.length + 1) s

/-! ## One decision -/

theorem Element.size_pos (e : Element) : 0 < e.size := by
  cases e <;> simp only [Element.size] <;> omega

theorem decodeHead_eq_done {bytes : Script} : decodeHead bytes = .done ↔ bytes = [] := by
  constructor
  · intro h
    cases bytes with
    | nil => rfl
    | cons b rest => simp only [decodeHead] at h; split_ifs at h
  · rintro rfl; rfl

/-- A push's payload, when it fits, has the length its header declares. -/
theorem length_take_drop {rest : Script} {n len : Nat} (h : n + len ≤ rest.length) :
    ((rest.drop n).take len).length = len := by
  simp only [List.length_take, List.length_drop]; omega

theorem decodeHead_fits {bytes : Script} {e : Element} (h : decodeHead bytes = .elem e) :
    e.size ≤ bytes.length := by
  cases bytes with
  | nil => cases h
  | cons b rest =>
    simp only [decodeHead] at h
    split_ifs at h with h₁ h₂ <;> cases h
    · simp only [Element.size, length_take_drop h₂, List.length_cons]; omega
    · simp [Element.size]

theorem pushLength_append {b : UInt8} {rest t : Script} (h : lengthBytes b ≤ rest.length) :
    pushLength b (rest ++ t) = pushLength b rest := by
  simp only [pushLength, List.take_append_of_le_length h]

theorem decodeHead_append {bytes t : Script} {e : Element} (h : decodeHead bytes = .elem e) :
    decodeHead (bytes ++ t) = .elem e := by
  cases bytes with
  | nil => cases h
  | cons b rest =>
    simp only [decodeHead, List.cons_append] at h ⊢
    split_ifs at h with h₁ h₂ <;> cases h
    · have hn : lengthBytes b ≤ rest.length := by omega
      rw [pushLength_append hn, if_pos h₁, if_pos (by simp; omega),
        List.drop_append_of_le_length hn,
        List.take_append_of_le_length (by simp only [List.length_drop]; omega)]
    · rw [if_neg h₁]

theorem drop_size_append {bytes t : Script} {e : Element} (h : decodeHead bytes = .elem e) :
    (bytes ++ t).drop e.size = bytes.drop e.size ++ t :=
  List.drop_append_of_le_length (decodeHead_fits h)

theorem decodeHead_op {b : UInt8} {rest : Script} (hb : 0x4e < b.toNat) :
    decodeHead (b :: rest) = .elem (.op b) := by
  simp only [decodeHead, if_neg (show ¬ b.toNat ≤ 0x4e by omega)]

/-! ## Whole decodings -/

theorem decodeBytes_length :
    ∀ {fuel : Nat} {bytes : Script} {es : List Element}, decodeBytes fuel bytes = some es →
      es.length ≤ bytes.length ∧ es.length < fuel
  | 0, _, _, h => by cases h
  | fuel + 1, bytes, es, h => by
    simp only [decodeBytes] at h
    split at h
    · next e he =>
      obtain ⟨es₁, h₁, rfl⟩ := Option.map_eq_some'.1 h
      have := decodeBytes_length h₁
      have := decodeHead_fits he
      have := e.size_pos
      simp only [List.length_drop, List.length_cons] at *; omega
    · cases h; simp
    · cases h

/-- A complete decoding stays the same with more fuel. -/
theorem decodeBytes_of_lt :
    ∀ {fuel fuel' : Nat} {bytes : Script} {es : List Element}, decodeBytes fuel bytes = some es →
      es.length < fuel' → decodeBytes fuel' bytes = some es
  | 0, _, _, _, h, _ => by cases h
  | _ + 1, 0, _, _, _, h' => by omega
  | fuel + 1, fuel' + 1, bytes, es, h, h' => by
    simp only [decodeBytes] at h ⊢
    split at h
    · next e he =>
      obtain ⟨es₁, h₁, rfl⟩ := Option.map_eq_some'.1 h
      rw [decodeBytes_of_lt h₁ (by simpa using h')]; rfl
    · exact h
    · cases h

/-- Every decoded element lies inside the bytes. -/
theorem decodeBytes_size_le :
    ∀ {fuel : Nat} {bytes : Script} {es : List Element}, decodeBytes fuel bytes = some es →
      ∀ e ∈ es, e.size ≤ bytes.length
  | 0, _, _, h => by cases h
  | fuel + 1, bytes, es, h => by
    simp only [decodeBytes] at h
    split at h
    · next e he =>
      obtain ⟨es₁, h₁, rfl⟩ := Option.map_eq_some'.1 h
      rintro e' (_ | ⟨_, h'⟩)
      · exact decodeHead_fits he
      · exact (decodeBytes_size_le h₁ e' h').trans (by simp)
    · cases h; simp
    · cases h

theorem decode_length_le {s : Script} {es : List Element} (h : decode s = some es) :
    es.length ≤ s.length :=
  (decodeBytes_length h).1

theorem decode_op {b : UInt8} (hb : 0x4e < b.toNat) : decode [b] = some [.op b] := by
  simp only [decode, List.length_singleton, decodeBytes, decodeHead_op hb, Element.size]
  rfl

theorem decodeBytes_append {t : Script} {es' : List Element} {g : Nat}
    (ht : decodeBytes g t = some es') :
    ∀ {fuel : Nat} {s : Script} {es : List Element}, decodeBytes fuel s = some es →
      decodeBytes (fuel + g) (s ++ t) = some (es ++ es')
  | 0, _, _, h => by cases h
  | fuel + 1, s, es, h => by
    simp only [decodeBytes] at h
    split at h
    · next e he =>
      obtain ⟨es₁, h₁, rfl⟩ := Option.map_eq_some'.1 h
      rw [Nat.add_right_comm]
      simp only [decodeBytes, decodeHead_append he, drop_size_append he,
        decodeBytes_append ht h₁, Option.map_some', List.cons_append]
    · next he =>
      cases h
      rw [decodeHead_eq_done.1 he]
      have := (decodeBytes_length ht).2
      exact decodeBytes_of_lt ht (by simp only [List.nil_append]; omega)
    · cases h

theorem decode_append {s t : Script} {es es' : List Element} (hs : decode s = some es)
    (ht : decode t = some es') : decode (s ++ t) = some (es ++ es') := by
  have := decode_length_le hs
  have := decode_length_le ht
  exact decodeBytes_of_lt (decodeBytes_append ht hs) (by simp; omega)

/-- Bytes above `OP_PUSHDATA4` decode one by one as opcodes. -/
theorem decode_ops : ∀ {bs : Script}, (∀ b ∈ bs, 0x4e < b.toNat) → decode bs = some (bs.map .op)
  | [], _ => rfl
  | b :: bs, h => by
    simpa using
      decode_append (decode_op (h b (.head _))) (decode_ops fun b' h' => h b' (.tail _ h'))

/-! ## Encoding -/

/-- The `k` little-endian bytes of `n`. -/
def leBytes : Nat → Nat → List UInt8
  | 0, _ => []
  | k + 1, n => UInt8.ofNat (n % 256) :: leBytes k (n / 256)

/-- The bytes of an element: its opcode, the length bytes of a `PUSHDATA` push, its payload. -/
def Element.bytes : Element → Script
  | .push b payload => b :: (leBytes (lengthBytes b) payload.length ++ payload)
  | .op b => [b]

/-- The script of a list of elements. -/
def encode (es : List Element) : Script :=
  (es.map Element.bytes).flatten

/-- An element §4.1 can decode: a push whose opcode is its payload's length, or whose length
bytes can hold that length, or an opcode above `OP_PUSHDATA4`. -/
def Element.wellFormed : Element → Bool
  | .push b payload =>
    decide (b.toNat ≤ 0x4e) &&
      if b.toNat ≤ 0x4b then payload.length == b.toNat
      else decide (payload.length < 256 ^ lengthBytes b)
  | .op b => decide (0x4e < b.toNat)

theorem toNat_ofNat_mod (n : Nat) : (UInt8.ofNat (n % 256)).toNat = n % 256 :=
  UInt8.toNat_ofNat_of_lt (Nat.mod_lt n (by decide : 0 < 256))

@[simp] theorem length_leBytes : ∀ k n, (leBytes k n).length = k
  | 0, _ => rfl
  | k + 1, n => by simp [leBytes, length_leBytes k]

theorem leValue_leBytes : ∀ k n, leValue (leBytes k n) = n % 256 ^ k
  | 0, n => by simp [leBytes, leValue, Nat.mod_one]
  | k + 1, n => by
    rw [leBytes, leValue, leValue_leBytes k, toNat_ofNat_mod, Nat.pow_succ', Nat.mod_mul]

theorem leBytes_leValue : ∀ bs : List UInt8, leBytes bs.length (leValue bs) = bs
  | [] => rfl
  | b :: bs => by
    have hb := b.toNat_lt_size
    simp only [UInt8.size] at hb
    rw [List.length_cons, leBytes, leValue, show (b.toNat + 256 * leValue bs) / 256 = leValue bs by
      omega, leBytes_leValue bs]
    congr 1
    apply UInt8.toNat.inj
    rw [toNat_ofNat_mod]
    omega

theorem leValue_lt : ∀ bs : List UInt8, leValue bs < 256 ^ bs.length
  | [] => by simp [leValue]
  | b :: bs => by
    have hb := b.toNat_lt_size
    have := leValue_lt bs
    simp only [UInt8.size] at hb
    rw [leValue, List.length_cons, Nat.pow_succ']
    omega

/-- The length bytes a decoded push was read from are the encoding of its length. -/
theorem leBytes_pushLength {b : UInt8} {rest : Script} (h : lengthBytes b ≤ rest.length) :
    leBytes (lengthBytes b) (pushLength b rest) = rest.take (lengthBytes b) := by
  unfold pushLength
  split_ifs with hb
  · simp [lengthBytes, hb, leBytes]
  · have := leBytes_leValue (rest.take (lengthBytes b))
    rwa [List.length_take_of_le h] at this

theorem pushLength_bytes {b : UInt8} {payload : List UInt8}
    (h : (Element.push b payload).wellFormed) :
    pushLength b (leBytes (lengthBytes b) payload.length ++ payload) = payload.length := by
  simp only [Element.wellFormed, Bool.and_eq_true, decide_eq_true_eq] at h
  unfold pushLength
  split_ifs at h ⊢ with hb
  · exact (beq_iff_eq.1 h.2).symm
  · rw [List.take_left' (length_leBytes _ _), leValue_leBytes,
      Nat.mod_eq_of_lt (by simpa using h.2)]

/-- A well-formed element decodes from its own bytes. -/
theorem decodeHead_bytes {e : Element} (he : e.wellFormed) : decodeHead e.bytes = .elem e := by
  cases e with
  | op b => exact decodeHead_op (by simpa [Element.wellFormed] using he)
  | push b payload =>
    have hb : b.toNat ≤ 0x4e := by
      simp only [Element.wellFormed, Bool.and_eq_true, decide_eq_true_eq] at he
      exact he.1
    simp only [Element.bytes, decodeHead, if_pos hb, pushLength_bytes he, List.length_append,
      length_leBytes, le_refl, if_true, List.drop_left' (length_leBytes _ _), List.take_length]

/-- A decoded element is well formed. -/
theorem decodeHead_wellFormed {bytes : Script} {e : Element} (h : decodeHead bytes = .elem e) :
    e.wellFormed := by
  cases bytes with
  | nil => cases h
  | cons b rest =>
    simp only [decodeHead] at h
    split_ifs at h with h₁ h₂ <;> cases h
    · simp only [Element.wellFormed, length_take_drop h₂, decide_eq_true_eq, h₁, true_and]
      unfold pushLength
      split_ifs with hb
      · simp
      · have := leValue_lt (rest.take (lengthBytes b))
        rw [List.length_take_of_le (by omega)] at this
        simpa using this
    · simp [Element.wellFormed]; omega

/-- A decoded element is the encoding of the bytes it was decoded from. -/
theorem bytes_append_drop {bytes : Script} {e : Element} (h : decodeHead bytes = .elem e) :
    e.bytes ++ bytes.drop e.size = bytes := by
  cases bytes with
  | nil => cases h
  | cons b rest =>
    simp only [decodeHead] at h
    split_ifs at h with h₁ h₂ <;> cases h
    · have hk : lengthBytes b ≤ rest.length := by omega
      simp only [Element.bytes, Element.size, length_take_drop h₂, leBytes_pushLength hk,
        List.cons_append, List.append_assoc, Nat.add_assoc, List.drop_succ_cons, ← List.drop_drop,
        List.take_append_drop]
      rw [List.drop_zero, List.take_append_drop, List.take_append_drop]
    · rfl

theorem length_bytes (e : Element) : e.bytes.length = e.size := by
  cases e <;> simp [Element.bytes, Element.size]
  omega

theorem decode_bytes {e : Element} (he : e.wellFormed) : decode e.bytes = some [e] := by
  have h₂ : decodeBytes 2 e.bytes = some [e] := by
    simp only [decodeBytes, decodeHead_bytes he, ← length_bytes, List.drop_length]
    rfl
  exact decodeBytes_of_lt h₂ (by have := e.size_pos; simp [length_bytes]; omega)

/-! ## The round trip -/

/-- Well-formed elements decode from their encoding. -/
theorem decode_encode : ∀ {es : List Element}, (∀ e ∈ es, e.wellFormed) →
    decode (encode es) = some es
  | [], _ => rfl
  | e :: es, h => by
    simpa [encode] using decode_append (decode_bytes (h e (.head _)))
      (decode_encode fun e' h' => h e' (.tail _ h'))

theorem decodeBytes_encode :
    ∀ {fuel : Nat} {bytes : Script} {es : List Element}, decodeBytes fuel bytes = some es →
      encode es = bytes ∧ ∀ e ∈ es, e.wellFormed
  | 0, _, _, h => by cases h
  | fuel + 1, bytes, es, h => by
    simp only [decodeBytes] at h
    split at h
    · next e he =>
      obtain ⟨es₁, h₁, rfl⟩ := Option.map_eq_some'.1 h
      obtain ⟨henc, hwf⟩ := decodeBytes_encode h₁
      refine ⟨?_, ?_⟩
      · calc encode (e :: es₁) = e.bytes ++ encode es₁ := rfl
          _ = bytes := by rw [henc]; exact bytes_append_drop he
      · rintro e' (_ | ⟨_, h'⟩)
        · exact decodeHead_wellFormed he
        · exact hwf e' h'
    · next he =>
      cases h
      exact ⟨(decodeHead_eq_done.1 he).symm, by simp⟩
    · cases h

/-- A script decodes completely to a list of elements exactly when the elements are well formed
and their bytes, one after another, are the script. -/
theorem decode_eq_some_iff {s : Script} {es : List Element} :
    decode s = some es ↔ encode es = s ∧ ∀ e ∈ es, e.wellFormed :=
  ⟨decodeBytes_encode, fun ⟨h, hwf⟩ => h ▸ decode_encode hwf⟩

example : encode [.push 0x4d [0xAB], .op 0xAC] = [0x4d, 0x01, 0x00, 0xAB, 0xAC] := by decide

end Bsv.Cost
