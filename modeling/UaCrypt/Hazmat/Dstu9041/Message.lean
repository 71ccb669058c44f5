import UaCrypt.Hazmat.Dstu9041.Curve
import UaCrypt.Hazmat.Kupyna

/-!
# Message formatting (`dstu9041/message.rs`, `message384.rs`, `message512.rs`)

`M'` is the hash identifier, the low-order end of a Kupyna-256 hash of `l(M) ‖ M~`, the bit length
`l(M)` and the message `M~`, padded with zeros in front to the longest length.

- `formatMTilde`, `encodeLMTilde`, `buildMPrime`: the sender's side.
- `parseMPrime`: the receiver's. It checks the hash, the length and the padding by whole bytes.
- `parseMPrime_eq_ok_iff`: it accepts exactly the blocks `buildMPrime` builds, with any identifier
  and with any bits in the top byte of the message.
-/

namespace UaCrypt.Hazmat.Dstu9041

open Limb

namespace Size

/-- `L_MAX_P`. -/
def lMaxP : Size → Nat
  | .l256 => 200
  | .l384 => 296
  | .l512 => 424

/-- `M_TILDE_BYTES`. -/
def mTildeBytes (s : Size) : Nat := s.lMaxP / 8

/-- `L_H_BYTES`. -/
def lHBytes : Size → Nat
  | .l256 => 4
  | .l384 => 8
  | .l512 => 8

/-- `M_PRIME_BYTES`. -/
def mPrimeBytes (s : Size) : Nat := 1 + s.lHBytes + 2 + s.mTildeBytes

end Size

inductive MessageError where
  | zeroLength
  | messageTooLong
  | lengthMismatch
  | hashMismatch
  | paddingNotZero
deriving DecidableEq, Repr

structure Message where
  hashId : UInt8
  bitLength : Nat
  mTilde : List UInt8
deriving DecidableEq, Repr

/-- `message_bits.div_ceil(8)`. -/
def messageBytes (messageBits : Nat) : Nat := (messageBits + 7) / 8

/-- `format_m_tilde`. -/
def formatMTilde (s : Size) (message : List UInt8) (messageBits : Nat) :
    Except MessageError (List UInt8) :=
  if messageBits = 0 then .error .zeroLength
  else if messageBits > s.lMaxP then .error .messageTooLong
  else if message.length ≠ messageBytes messageBits then .error .lengthMismatch
  else .ok (List.replicate (s.mTildeBytes - messageBytes messageBits) 0 ++ message)

/-- `encode_l_m_tilde`: `(message_bits as u16).to_be_bytes()`. -/
def encodeLMTilde (messageBits : Nat) : List UInt8 :=
  [UInt8.ofNat (messageBits / 256), UInt8.ofNat messageBits]

section

variable (p : Tables.Profile) (s : Size)

/-- The hash field of `l(M) ‖ M~`. -/
def hashField (lMTilde mTilde : List UInt8) : List UInt8 :=
  let digest := Kupyna.Kupyna256.digest p (lMTilde ++ mTilde)
  digest.toList.drop (32 - s.lHBytes)

/-- `build_m_prime`. -/
def buildMPrime (hashId : UInt8) (mTilde lMTilde : List UInt8) : List UInt8 :=
  [hashId] ++ hashField p s lMTilde mTilde ++ lMTilde ++ mTilde

/-- `kw_plaintext_from_m_prime`. -/
def kwPlaintextFromMPrime (mPrime : List UInt8) : List UInt8 :=
  mPrime ++ List.replicate s.mPrimeBytes 0

/-- `parse_m_prime`. -/
def parseMPrime (mPrime : List UInt8) : Except MessageError Message :=
  let hashId := mPrime.headD 0
  let embeddedHash := (mPrime.drop 1).take s.lHBytes
  let lMTilde := (mPrime.drop (1 + s.lHBytes)).take 2
  let mTilde := mPrime.drop (3 + s.lHBytes)
  let bitLength := beNat lMTilde
  if bitLength = 0 then .error .zeroLength
  else if bitLength > s.lMaxP then .error .messageTooLong
  else if hashField p s lMTilde mTilde ≠ embeddedHash then .error .hashMismatch
  else
    let paddingLen := s.mTildeBytes - messageBytes bitLength
    -- every byte is looked at, those of the padding count
    let badPadding := mTilde.zipIdx.any fun (byte, i) => decide (i < paddingLen) && byte != 0
    if badPadding then .error .paddingNotZero
    else .ok ⟨hashId, bitLength, mTilde⟩

end

/-! ## Lengths -/

section

variable {p : Tables.Profile} {s : Size}

theorem length_hashField (lMTilde mTilde : List UInt8) :
    (hashField p s lMTilde mTilde).length = s.lHBytes := by
  rw [hashField, List.length_drop, Vector.length_toList]
  cases s <;> rfl

theorem length_buildMPrime (hashId : UInt8) {mTilde : List UInt8} (l : Nat)
    (h : mTilde.length = s.mTildeBytes) :
    (buildMPrime p s hashId mTilde (encodeLMTilde l)).length = s.mPrimeBytes := by
  simp only [buildMPrime, List.length_append, length_hashField, h, encodeLMTilde, List.length_cons,
    List.length_nil, Size.mPrimeBytes]

theorem beNat_encodeLMTilde {l : Nat} (h : l < 2 ^ 16) : beNat (encodeLMTilde l) = l := by
  simp only [beNat, encodeLMTilde, List.foldl_cons, List.foldl_nil, UInt8.toNat_ofNat']
  omega

theorem encodeLMTilde_beNat {bytes : List UInt8} (h : bytes.length = 2) :
    encodeLMTilde (beNat bytes) = bytes := by
  obtain ⟨a, b, rfl⟩ := List.length_eq_two.mp h
  have ha := a.toNat_lt
  have hb := b.toNat_lt
  simp only [beNat, encodeLMTilde, List.foldl_cons, List.foldl_nil]
  have hhigh : UInt8.ofNat ((256 * (256 * 0 + a.toNat) + b.toNat) / 256) = a := by
    apply UInt8.toNat_inj.mp
    rw [UInt8.toNat_ofNat']
    omega
  have hlow : UInt8.ofNat (256 * (256 * 0 + a.toNat) + b.toNat) = b := by
    apply UInt8.toNat_inj.mp
    rw [UInt8.toNat_ofNat']
    omega
  rw [hhigh, hlow]

theorem lMaxP_lt (s : Size) : s.lMaxP < 2 ^ 16 := by
  cases s <;> decide

theorem messageBytes_le {l : Nat} (h : l ≤ s.lMaxP) : messageBytes l ≤ s.mTildeBytes := by
  rw [messageBytes, Size.mTildeBytes]
  cases s <;> simp only [Size.lMaxP] at h ⊢ <;> omega

/-! ## Accepted blocks -/

/-- What the receiver asks of `M~` and `l(M)`: a length in range, and zeros before the bytes that
the length reaches. -/
structure Fields (s : Size) (mTilde : List UInt8) (l : Nat) : Prop where
  length : mTilde.length = s.mTildeBytes
  pos : 0 < l
  le : l ≤ s.lMaxP
  padding : mTilde.take (s.mTildeBytes - messageBytes l)
    = List.replicate (s.mTildeBytes - messageBytes l) 0

/-- The scan of the padding. -/
theorem any_front_eq_false_iff {bytes : List UInt8} {k : Nat} (hk : k ≤ bytes.length) :
    (bytes.zipIdx.any fun (byte, i) => decide (i < k) && byte != 0) = false
      ↔ bytes.take k = List.replicate k 0 := by
  rw [List.any_eq_false]
  constructor
  · intro h
    refine List.ext_getElem ?_ fun i h₁ h₂ => ?_
    · rw [List.length_take, List.length_replicate, Nat.min_eq_left hk]
    · rw [List.length_replicate] at h₂
      have hmem : (bytes[i], i) ∈ bytes.zipIdx := by
        rw [List.mk_mem_zipIdx_iff_getElem?, List.getElem?_eq_getElem]
      have hbyte := h _ hmem
      rw [List.getElem_take, List.getElem_replicate]
      simpa only [h₂, decide_true, Bool.true_and, bne_iff_ne, ne_eq, not_not] using hbyte
  · rintro h ⟨byte, i⟩ hmem
    rw [List.mk_mem_zipIdx_iff_getElem?] at hmem
    obtain ⟨hi, hget⟩ := List.getElem?_eq_some_iff.mp hmem
    by_cases hlt : i < k
    · have hzero : (bytes.take k)[i]? = some 0 := by
        rw [h, List.getElem?_replicate, if_pos hlt]
      rw [List.getElem?_take_of_lt hlt, hmem] at hzero
      rw [Option.some.inj hzero]
      simp only [bne_self_eq_false, Bool.and_false, Bool.false_eq_true, not_false_eq_true]
    · simp only [hlt, decide_false, Bool.false_and, Bool.false_eq_true, not_false_eq_true]

/-- A block of the right length has its four fields. -/
theorem exists_fields {mPrime : List UInt8} (h : mPrime.length = s.mPrimeBytes) :
    ∃ hashId hash lMTilde mTilde, hash.length = s.lHBytes ∧ lMTilde.length = 2
      ∧ mTilde.length = s.mTildeBytes ∧ mPrime = [hashId] ++ hash ++ lMTilde ++ mTilde := by
  rw [Size.mPrimeBytes] at h
  cases mPrime with
  | nil =>
    rw [List.length_nil] at h
    omega
  | cons hashId rest =>
    rw [List.length_cons] at h
    refine ⟨hashId, rest.take s.lHBytes, (rest.drop s.lHBytes).take 2,
      (rest.drop s.lHBytes).drop 2, ?_, ?_, ?_, ?_⟩
    · rw [List.length_take]
      omega
    · rw [List.length_take, List.length_drop]
      omega
    · rw [List.length_drop, List.length_drop]
      omega
    · rw [List.append_assoc, List.append_assoc, List.take_append_drop, List.take_append_drop]
      rfl

/-- What the receiver reads from the four fields. -/
theorem parseMPrime_fields (p : Tables.Profile) (hashId : UInt8) {hash lMTilde mTilde : List UInt8}
    (hhash : hash.length = s.lHBytes) (hl : lMTilde.length = 2) :
    parseMPrime p s ([hashId] ++ hash ++ lMTilde ++ mTilde)
      = if beNat lMTilde = 0 then .error .zeroLength
        else if beNat lMTilde > s.lMaxP then .error .messageTooLong
        else if hashField p s lMTilde mTilde ≠ hash then .error .hashMismatch
        else if mTilde.zipIdx.any (fun (byte, i) =>
            decide (i < s.mTildeBytes - messageBytes (beNat lMTilde)) && byte != 0) then
          .error .paddingNotZero
        else .ok ⟨hashId, beNat lMTilde, mTilde⟩ := by
  have hembedded : (([hashId] ++ hash ++ lMTilde ++ mTilde).drop 1).take s.lHBytes = hash := by
    have hone : [hashId].length = 1 := rfl
    rw [List.append_assoc, List.append_assoc, List.drop_left' hone, List.take_left' hhash]
  have hlength : (([hashId] ++ hash ++ lMTilde ++ mTilde).drop (1 + s.lHBytes)).take 2 = lMTilde := by
    have hfront : ([hashId] ++ hash).length = 1 + s.lHBytes := by
      rw [List.length_append, hhash, List.length_singleton]
    rw [List.append_assoc, List.drop_left' hfront, List.take_left' hl]
  have hmessage : ([hashId] ++ hash ++ lMTilde ++ mTilde).drop (3 + s.lHBytes) = mTilde := by
    refine List.drop_left' ?_
    rw [List.length_append, List.length_append, hhash, hl, List.length_singleton]
    omega
  rw [parseMPrime]
  simp only [hembedded, hlength, hmessage]
  rfl

/-- **The receiver accepts the blocks `buildMPrime` builds**, whatever the identifier. -/
theorem parseMPrime_eq_ok_iff {mPrime : List UInt8} (h : mPrime.length = s.mPrimeBytes)
    {message : Message} :
    parseMPrime p s mPrime = .ok message
      ↔ Fields s message.mTilde message.bitLength
        ∧ mPrime = buildMPrime p s message.hashId message.mTilde
          (encodeLMTilde message.bitLength) := by
  constructor
  · intro hok
    obtain ⟨hashId, hash, lMTilde, mTilde, hhash, hl, hm, rfl⟩ := exists_fields h
    rw [parseMPrime_fields p hashId hhash hl] at hok
    split at hok
    · cases hok
    rename_i hpos
    split at hok
    · cases hok
    rename_i hle
    split at hok
    · cases hok
    rename_i heq
    split at hok
    · cases hok
    rename_i hpadding
    cases hok
    rw [ne_eq, not_not] at heq
    rw [Bool.not_eq_true, any_front_eq_false_iff (by omega)] at hpadding
    refine ⟨⟨hm, Nat.pos_of_ne_zero hpos, Nat.not_lt.mp hle, hpadding⟩, ?_⟩
    rw [buildMPrime, encodeLMTilde_beNat hl, heq]
  · rintro ⟨hfields, rfl⟩
    have hbits := beNat_encodeLMTilde (Nat.lt_of_le_of_lt hfields.le (lMaxP_lt s))
    have hpos := hfields.pos
    have hle := hfields.le
    have hpadding := (any_front_eq_false_iff (by rw [hfields.length]; omega)).mpr hfields.padding
    rw [buildMPrime, parseMPrime_fields p _ (length_hashField _ _) rfl]
    simp only [hbits]
    rw [if_neg (by omega), if_neg (by omega), if_neg (not_not.mpr rfl), if_neg (by
      rw [hpadding]
      exact Bool.false_ne_true)]

/-- What the sender formats is what the receiver asks for. -/
theorem fields_of_formatMTilde {message mTilde : List UInt8} {l : Nat}
    (h : formatMTilde s message l = .ok mTilde) : Fields s mTilde l := by
  rw [formatMTilde] at h
  split at h
  · cases h
  split at h
  · cases h
  split at h
  · cases h
  rename_i hpos hle hlen
  cases h
  rw [ne_eq, not_not] at hlen
  have hbytes := messageBytes_le (s := s) (Nat.not_lt.mp hle)
  refine ⟨?_, Nat.pos_of_ne_zero hpos, Nat.not_lt.mp hle, ?_⟩
  · rw [List.length_append, List.length_replicate, hlen]
    omega
  · exact List.take_left' List.length_replicate

theorem formatMTilde_eq {message : List UInt8} {l : Nat} (hpos : 0 < l) (hle : l ≤ s.lMaxP)
    (hlen : message.length = messageBytes l) :
    formatMTilde s message l
      = .ok (List.replicate (s.mTildeBytes - message.length) 0 ++ message) := by
  rw [formatMTilde, if_neg (by omega), if_neg (by omega), if_neg (not_not.mpr hlen), hlen]

/-- And the other way round. -/
theorem Fields.format {mTilde : List UInt8} {l : Nat} (h : Fields s mTilde l) :
    formatMTilde s (mTilde.drop (s.mTildeBytes - messageBytes l)) l = .ok mTilde := by
  have hbytes := messageBytes_le h.le
  have hlen : (mTilde.drop (s.mTildeBytes - messageBytes l)).length = messageBytes l := by
    rw [List.length_drop, h.length]
    omega
  rw [formatMTilde_eq h.pos h.le hlen, hlen, ← h.padding, List.take_append_drop]

/-- A block shows its identifier. -/
theorem buildMPrime_hashId {hashId hashId' : UInt8} {mTilde lMTilde : List UInt8}
    (h : buildMPrime p s hashId mTilde lMTilde = buildMPrime p s hashId' mTilde lMTilde) :
    hashId = hashId' := by
  rw [buildMPrime, buildMPrime, List.append_assoc, List.append_assoc, List.append_assoc,
    List.append_assoc] at h
  exact (List.cons.inj h).1

/-! ## Unused bits -/

theorem beNat_concat_list (xs ys : List UInt8) :
    beNat (xs ++ ys) = beNat xs * 256 ^ ys.length + beNat ys := by
  induction ys using List.reverseRecOn with
  | nil => rw [List.append_nil, List.length_nil, Nat.pow_zero, Nat.mul_one]; rfl
  | append_singleton ys y ih =>
    rw [← List.append_assoc, beNat_append, ih, beNat_append, List.length_append,
      List.length_singleton, Nat.pow_succ]
    ring

theorem beNat_replicate (k : Nat) : beNat (List.replicate k (0 : UInt8)) = 0 := by
  have h := beNat_replicate_zero k
  rwa [Vector.toList_replicate] at h

/-- The first byte that the length reaches. -/
def topByte (mTilde : List UInt8) (l : Nat) : UInt8 :=
  mTilde.getD (mTilde.length - messageBytes l) 0

/-- The bits above the length are zero where those of the top byte are. -/
theorem Fields.lt_two_pow_iff {mTilde : List UInt8} {l : Nat} (h : Fields s mTilde l) :
    beNat mTilde < 2 ^ l ↔ l % 8 = 0 ∨ (topByte mTilde l).toNat < 2 ^ (l % 8) := by
  have hbytes := messageBytes_le h.le
  have hpos := h.pos
  have hlen := h.length
  have hsplit := List.take_append_drop (s.mTildeBytes - messageBytes l) mTilde
  rw [h.padding] at hsplit
  have htail : (mTilde.drop (s.mTildeBytes - messageBytes l)).length = messageBytes l := by
    rw [List.length_drop]
    omega
  obtain ⟨top, rest, htop⟩ : ∃ top rest, mTilde.drop (s.mTildeBytes - messageBytes l) = top :: rest := by
    refine List.exists_cons_of_length_pos ?_
    rw [htail, messageBytes]
    omega
  have hrest : rest.length + 1 = messageBytes l := by
    rw [← htail, htop, List.length_cons]
  have htopByte : topByte mTilde l = top := by
    rw [topByte, hlen, List.getD_eq_getElem?_getD, ← List.head?_drop, htop]
    rfl
  have hvalue : beNat mTilde = top.toNat * 2 ^ (8 * rest.length) + beNat rest := by
    have hone : beNat [top] = top.toNat := by
      rw [beNat, List.foldl_cons, List.foldl_nil, Nat.mul_zero, Nat.zero_add]
    rw [← hsplit, beNat_concat_list, beNat_replicate, Nat.zero_mul, Nat.zero_add, htop,
      ← List.singleton_append, beNat_concat_list, hone, Nat.pow_mul]
  have hlow : beNat rest < 2 ^ (8 * rest.length) := by
    rw [Nat.pow_mul]
    exact beNat_lt rest
  rw [messageBytes] at hrest
  obtain ⟨e, he⟩ : ∃ e, l = 8 * rest.length + e := ⟨l - 8 * rest.length, by omega⟩
  have hcmp : beNat mTilde < 2 ^ l ↔ top.toNat < 2 ^ e := by
    rw [hvalue, he, Nat.pow_add, Nat.mul_comm (2 ^ (8 * rest.length))]
    constructor
    · intro hlt
      by_contra hge
      have hmul := Nat.mul_le_mul_right (2 ^ (8 * rest.length)) (Nat.not_lt.mp hge)
      omega
    · intro hlt
      have hmul := Nat.mul_le_mul_right (2 ^ (8 * rest.length)) hlt
      rw [Nat.succ_mul] at hmul
      omega
  have hbyte := top.toNat_lt
  rw [hcmp, htopByte]
  obtain he8 | hlt : e = 8 ∨ e < 8 := by omega
  · exact iff_of_true (by rw [he8]; exact hbyte) (.inl (by omega))
  · have hmod : l % 8 = e := by omega
    rw [hmod]
    constructor
    · exact fun h => .inr h
    · exact fun h => h.resolve_left (by omega)

end

end UaCrypt.Hazmat.Dstu9041
