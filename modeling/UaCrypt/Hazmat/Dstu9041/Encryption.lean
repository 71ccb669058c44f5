import UaCrypt.Hazmat.Dstu9041.Recipient
import UaCrypt.Hazmat.Dstu9041.Message
import UaCrypt.Hazmat.KalynaKwP

/-!
# Encryption (`dstu9041/encryption.rs`, `encryption384.rs`, `encryption512.rs`)

The sender multiplies the base point and the recipient's point by an ephemeral scalar: the first
coordinate of the one product goes out, that of the other is the key under which `M'` is wrapped.
The recipient finds a point from the first coordinate and multiplies it by the private scalar.

- `encrypt`, `decrypt`: the three sizes, which differ in the key wrap.
- `Seals`: what the ciphertext of a block is; `decrypt_eq_ok_iff`: `decrypt` opens exactly those.
- `PublicOf.agree`: both sides have one key.
- `decrypt_encrypt`: what is encrypted decrypts.
- `decrypt_canonical_iff`: the identifier and the unused bits of a block go unread.
-/

namespace UaCrypt.Hazmat.Dstu9041

open Limbs Limb FieldElement EdwardsCurve Tables ColumnState Kalyna Chunks

namespace Size

/-- The key wrap's cipher. -/
def variant : Size → Variant
  | .l256 => .kalyna256_256
  | .l384 => .kalyna256_256
  | .l512 => .kalyna512_512

/-- The length of `r`. -/
def rBytes (s : Size) : Nat := 8 * s.curve.field.limbs

/-- `T_BYTES`. -/
def tBytes : Size → Nat
  | .l256 => 96
  | .l384 => 128
  | .l512 => 192

/-- `CIPHERTEXT_BYTES`. -/
def ciphertextBytes (s : Size) : Nat := s.rBytes + s.tBytes

end Size

/-- `HASH_ID_KUPYNA256`. -/
def hashIdKupyna256 : UInt8 := 0x01

inductive EncryptError where
  | invalidMessage
  | invalidEphemeralKey
  | invalidPublicKey
deriving DecidableEq, Repr

inductive DecryptError where
  | invalidCiphertext
deriving DecidableEq, Repr

/-- The key from `x_T`: all of it, or the low-order 32 bytes (`kappa_from_x`). -/
def kappaFromX : (s : Size) → Bytes s.curve → Vector UInt8 s.variant.keyBytes
  | .l256, x => x
  | .l384, x => slice x 16 32 (by decide)
  | .l512, x => x

section

variable (p : Profile) (s : Size)

/-- `t`: KW over `M'` and a zero block, or KW-p over `M'`. -/
def wrapMPrime : (s : Size) → Vector UInt8 s.variant.keyBytes → List UInt8 →
    Except KalynaKw.KwError Unit × List UInt8
  | .l256, kappa, mPrime =>
    KalynaKw.wrap p .kalyna256_256 kappa (kwPlaintextFromMPrime .l256 mPrime)
      (List.replicate 96 0)
  | .l384, kappa, mPrime =>
    KalynaKwP.wrap p .kalyna256_256 kappa mPrime (List.replicate 128 0)
  | .l512, kappa, mPrime =>
    KalynaKw.wrap p .kalyna512_512 kappa (kwPlaintextFromMPrime .l512 mPrime)
      (List.replicate 192 0)

/-- `M'` from what KW recovers, if the appended block is zero. -/
def mPrimeFromKw (s : Size) : Except KalynaKw.KwError Unit × List UInt8 → Option (List UInt8)
  | (.error _, _) => none
  | (.ok (), recovered) =>
    let appendedBlockBad := (recovered.drop s.mPrimeBytes).any fun byte => byte != 0
    if appendedBlockBad then none else some (recovered.take s.mPrimeBytes)

/-- `M'` from what KW-p recovers, if it is as long as `M'` is. -/
def mPrimeFromKwP (s : Size) : Except KalynaKw.KwError Nat × List UInt8 → Option (List UInt8)
  | (.error _, _) => none
  | (.ok len, recovered) => if len ≠ s.mPrimeBytes then none else some (recovered.take s.mPrimeBytes)

/-- The recipient's side of `wrapMPrime`. -/
def unwrapMPrime : (s : Size) → Vector UInt8 s.variant.keyBytes → List UInt8 →
    Option (List UInt8)
  | .l256, kappa, t =>
    mPrimeFromKw .l256 (KalynaKw.unwrap p .kalyna256_256 kappa t (List.replicate 64 0))
  | .l384, kappa, t =>
    mPrimeFromKwP .l384 (KalynaKwP.unwrap p .kalyna256_256 kappa t (List.replicate (128 - 32) 0))
  | .l512, kappa, t =>
    mPrimeFromKw .l512 (KalynaKw.unwrap p .kalyna512_512 kappa t (List.replicate 128 0))

/-- `r ‖ t`. -/
def joinCiphertext (r : Bytes s.curve) (t : List UInt8) : Vector UInt8 s.ciphertextBytes :=
  overwriteAt (overwriteAt (Vector.replicate s.ciphertextBytes 0) 0 r.toList) s.rBytes t

/-- `ciphertext[..r.len()]`. -/
def rPart (ciphertext : Vector UInt8 s.ciphertextBytes) : Bytes s.curve :=
  slice ciphertext 0 s.rBytes (by rw [Size.ciphertextBytes]; omega)

/-- `ciphertext[r.len()..]`. -/
def tPart (ciphertext : Vector UInt8 s.ciphertextBytes) : List UInt8 :=
  ciphertext.toList.drop s.rBytes

/-- `encrypt`. -/
def encrypt (message : List UInt8) (messageBits : Nat) (q : Point s.curve)
    (epsilon : Bytes s.curve) : Except EncryptError (Vector UInt8 s.ciphertextBytes) :=
  if !isValidScalar epsilon then .error .invalidEphemeralKey
  else if !isUsableRecipient q then .error .invalidPublicKey
  else
    match formatMTilde s message messageBits with
    | .error _ => .error .invalidMessage
    | .ok mTilde =>
      let lMTilde := encodeLMTilde messageBits
      let mPrime := buildMPrime p s hashIdKupyna256 mTilde lMTilde
      let rPoint := (basePoint s.curve).scalarMultiply epsilon
      let rBytes := rPoint.x.toBeBytes
      let tPoint := q.scalarMultiply epsilon
      let kappa := kappaFromX s tPoint.x.toBeBytes
      match wrapMPrime p s kappa mPrime with
      | (.error _, _) => .error .invalidMessage
      | (.ok (), t) => .ok (joinCiphertext s rBytes t)

/-- `decrypt`. -/
def decrypt (ciphertext : Vector UInt8 s.ciphertextBytes) (e : Bytes s.curve) :
    Except DecryptError (List UInt8 × Nat) :=
  if !isValidScalar e then .error .invalidCiphertext
  else
    match (fromCandidateBytes (rPart s ciphertext) : Option (FieldElement s.curve.field)) with
    | none => .error .invalidCiphertext
    | some rField =>
      match pointFromX rField with
      | none => .error .invalidCiphertext
      | some rPrime =>
        let tPrime := rPrime.scalarMultiply e
        let kappa := kappaFromX s tPrime.x.toBeBytes
        match unwrapMPrime p s kappa (tPart s ciphertext) with
        | none => .error .invalidCiphertext
        | some mPrime =>
          match parseMPrime p s mPrime with
          | .error _ => .error .invalidCiphertext
          | .ok parsed => .ok (parsed.mTilde, parsed.bitLength)

end

/-! ## Wrapping a block -/

section

variable {p : Profile} {s : Size} {v : Variant}

/-- Two blocks into three. -/
theorem wholeBlocks_two (v : Variant) : KalynaKw.WholeBlocks v 1 KalynaKw.maxR (2 * v.blockBytes) :=
  ⟨2, by decide, by decide, Nat.mul_comm _ _⟩

theorem length_kwPlaintextFromMPrime {mPrime : List UInt8} (h : mPrime.length = s.mPrimeBytes) :
    (kwPlaintextFromMPrime s mPrime).length = 2 * s.mPrimeBytes := by
  rw [kwPlaintextFromMPrime, List.length_append, List.length_replicate, h, Nat.two_mul]

theorem mPrimeFromKw_plaintext {mPrime : List UInt8} (h : mPrime.length = s.mPrimeBytes) :
    mPrimeFromKw s (.ok (), kwPlaintextFromMPrime s mPrime) = some mPrime := by
  have hzero : ((kwPlaintextFromMPrime s mPrime).drop s.mPrimeBytes).any
      (fun byte => byte != 0) = false := by
    rw [kwPlaintextFromMPrime, List.drop_left' h, List.any_replicate]
    split <;> rfl
  simp only [mPrimeFromKw]
  rw [if_neg (Bool.eq_false_iff.mp hzero), kwPlaintextFromMPrime, List.take_left' h]

/-- What passes the check on the appended block. -/
theorem mPrimeFromKw_eq_some {recovered mPrime : List UInt8}
    (hlen : recovered.length = 2 * s.mPrimeBytes)
    (h : mPrimeFromKw s (.ok (), recovered) = some mPrime) :
    mPrime.length = s.mPrimeBytes ∧ recovered = kwPlaintextFromMPrime s mPrime := by
  simp only [mPrimeFromKw] at h
  split at h
  · cases h
  rename_i hbad
  obtain rfl := Option.some.inj h
  refine ⟨?_, ?_⟩
  · rw [List.length_take]
    omega
  · have hzero : recovered.drop s.mPrimeBytes = List.replicate s.mPrimeBytes 0 := by
      refine List.eq_replicate_iff.mpr ⟨?_, ?_⟩
      · rw [List.length_drop]
        omega
      · intro byte hbyte
        rw [Bool.not_eq_true, List.any_eq_false] at hbad
        simpa only [bne_iff_ne, ne_eq, not_not] using hbad byte hbyte
    rw [kwPlaintextFromMPrime, ← hzero, List.take_append_drop]

/-- KW takes a block and gives it back. -/
theorem kw_roundtrip (hs : s.mPrimeBytes = v.blockBytes) (kappa : Vector UInt8 v.keyBytes)
    {mPrime : List UInt8} (h : mPrime.length = s.mPrimeBytes) {out buf : List UInt8}
    (hout : out.length = 3 * v.blockBytes) (hbuf : buf.length = 2 * v.blockBytes) :
    ∃ t, KalynaKw.wrap p v kappa (kwPlaintextFromMPrime s mPrime) out = (.ok (), t)
      ∧ t.length = 3 * v.blockBytes
      ∧ mPrimeFromKw s (KalynaKw.unwrap p v kappa t buf) = some mPrime := by
  have hlen := length_kwPlaintextFromMPrime h
  rw [hs] at hlen
  obtain ⟨t, hwrap, ht, hunwrap⟩ := KalynaKw.unwrapWithCipher_wrapWithCipher
    (decryptBlock_encryptBlock p v kappa) (hlen ▸ wholeBlocks_two v)
    (show out.length = (kwPlaintextFromMPrime s mPrime).length + v.blockBytes by omega)
  refine ⟨t, hwrap, by omega, ?_⟩
  rw [KalynaKw.unwrap, hunwrap buf (by omega)]
  exact mPrimeFromKw_plaintext h

/-- And only what it was given. -/
theorem kw_roundtrip_back (hs : s.mPrimeBytes = v.blockBytes) (kappa : Vector UInt8 v.keyBytes)
    {t mPrime out buf : List UInt8} (ht : t.length = 3 * v.blockBytes)
    (hout : out.length = 3 * v.blockBytes) (hbuf : buf.length = 2 * v.blockBytes)
    (h : mPrimeFromKw s (KalynaKw.unwrap p v kappa t buf) = some mPrime) :
    mPrime.length = s.mPrimeBytes
      ∧ KalynaKw.wrap p v kappa (kwPlaintextFromMPrime s mPrime) out = (.ok (), t) := by
  have hwhole : KalynaKw.WholeBlocks v 2 (KalynaKw.maxR + 1) t.length :=
    ⟨3, by decide, by decide, by omega⟩
  have hiff := (KalynaKw.unwrapWithCipher_eq_ok_iff (decryptBlock_encryptBlock p v kappa)
    (encryptBlock_decryptBlock p v kappa) hwhole
    (show buf.length + v.blockBytes = t.length by omega) (show out.length = t.length by omega)).1
  rcases hu : KalynaKw.unwrap p v kappa t buf with ⟨_ | ⟨⟩, recovered⟩
  · rw [hu] at h
    cases h
  · have hwrap := (hiff recovered).mp hu
    have hlen := (KalynaKw.not_wrapRefuses_iff.mp (KalynaKw.not_wrapRefuses_of_ok hwrap)).2
    rw [hu] at h
    obtain ⟨hm, rfl⟩ := mPrimeFromKw_eq_some (by omega) h
    exact ⟨hm, hwrap⟩

theorem wrappedLen_384 : KalynaKwP.wrappedLen .kalyna256_256 48 = some 128 := by decide

/-- **What is wrapped has its length, and unwraps.** -/
theorem unwrapMPrime_wrapMPrime (kappa : Vector UInt8 s.variant.keyBytes) {mPrime : List UInt8}
    (h : mPrime.length = s.mPrimeBytes) :
    ∃ t, wrapMPrime p s kappa mPrime = (.ok (), t) ∧ t.length = s.tBytes
      ∧ unwrapMPrime p s kappa t = some mPrime := by
  cases s with
  | l256 =>
    exact kw_roundtrip (s := .l256) (v := .kalyna256_256) rfl kappa h List.length_replicate
      List.length_replicate
  | l512 =>
    exact kw_roundtrip (s := .l512) (v := .kalyna512_512) rfl kappa h List.length_replicate
      List.length_replicate
  | l384 =>
    have hlen : mPrime.length = 48 := h
    obtain ⟨t, hwrap, ht, hunwrap⟩ := KalynaKwP.unwrapWithCipher_wrapWithCipher
      (decryptBlock_encryptBlock p .kalyna256_256 kappa)
      (show KalynaKwP.wrappedLen _ mPrime.length = some (List.replicate 128 (0 : UInt8)).length by
        rw [hlen, List.length_replicate]
        exact wrappedLen_384)
    refine ⟨t, hwrap, ht.trans List.length_replicate, ?_⟩
    have hunwrap' : KalynaKwP.unwrap p .kalyna256_256 kappa t (List.replicate (128 - 32) 0) = _ :=
      hunwrap _ (by simp only [List.length_replicate]; rfl)
    rw [unwrapMPrime, hunwrap']
    simp only [mPrimeFromKwP]
    rw [if_neg (not_not.mpr h), List.take_left' h]

/-- **What unwraps was wrapped.** -/
theorem wrapMPrime_unwrapMPrime (kappa : Vector UInt8 s.variant.keyBytes) {t mPrime : List UInt8}
    (ht : t.length = s.tBytes) (h : unwrapMPrime p s kappa t = some mPrime) :
    mPrime.length = s.mPrimeBytes ∧ wrapMPrime p s kappa mPrime = (.ok (), t) := by
  cases s with
  | l256 =>
    exact kw_roundtrip_back (s := .l256) (v := .kalyna256_256) rfl kappa ht List.length_replicate
      List.length_replicate h
  | l512 =>
    exact kw_roundtrip_back (s := .l512) (v := .kalyna512_512) rfl kappa ht List.length_replicate
      List.length_replicate h
  | l384 =>
    have hvalid : ¬KalynaKwP.UnwrapRefuses .kalyna256_256 t (List.replicate (128 - 32) 0) := by
      have htlen : t.length = 128 := ht
      rw [KalynaKwP.not_unwrapRefuses_iff, htlen, List.length_replicate]
      exact ⟨⟨4, by decide, by decide, rfl⟩, rfl⟩
    rw [unwrapMPrime] at h
    change mPrimeFromKwP .l384 (KalynaKwP.unwrapWithCipher _ _ t _) = some mPrime at h
    obtain ⟨m, hlen, hwrap, hunwrap⟩ | herr := KalynaKwP.unwrapWithCipher_cases
      (decryptBlock_encryptBlock p .kalyna256_256 kappa)
      (encryptBlock_decryptBlock p .kalyna256_256 kappa) hvalid
      (show (List.replicate 128 (0 : UInt8)).length = t.length by
        rw [List.length_replicate]
        exact ht.symm)
    · rw [hunwrap] at h
      simp only [mPrimeFromKwP] at h
      split at h
      · cases h
      rename_i hm
      rw [ne_eq, not_not] at hm
      obtain rfl := Option.some.inj h
      rw [List.take_left' hm]
      exact ⟨hm, hwrap⟩
    · rw [herr] at h
      cases h

end

/-! ## Ciphertexts -/

section

variable {p : Profile} {s : Size} {e : Bytes s.curve} {c : Vector UInt8 s.ciphertextBytes}

/-- The block `mPrime` is what the ciphertext `c` seals for the private scalar `e`. -/
def Seals (p : Profile) (s : Size) (e : Bytes s.curve) (c : Vector UInt8 s.ciphertextBytes)
    (mPrime : List UInt8) : Prop :=
  ∃ r R, fromCandidateBytes (rPart s c) = some r ∧ pointFromX r = some R
    ∧ wrapMPrime p s (kappaFromX s (R.scalarMultiply e).x.toBeBytes) mPrime = (.ok (), tPart s c)

theorem length_tPart (c : Vector UInt8 s.ciphertextBytes) : (tPart s c).length = s.tBytes := by
  rw [tPart, List.length_drop, Vector.length_toList, Size.ciphertextBytes, Nat.add_sub_cancel_left]

/-- A ciphertext seals one block. -/
theorem Seals.unique {mPrime mPrime' : List UInt8} (h : Seals p s e c mPrime)
    (h' : Seals p s e c mPrime') (hlen : mPrime.length = s.mPrimeBytes)
    (hlen' : mPrime'.length = s.mPrimeBytes) : mPrime = mPrime' := by
  obtain ⟨r, R, hr, hR, hwrap⟩ := h
  obtain ⟨r', R', hr', hR', hwrap'⟩ := h'
  obtain rfl := Option.some.inj (hr.symm.trans hr')
  obtain rfl := Option.some.inj (hR.symm.trans hR')
  obtain ⟨t, ht, -, hunwrap⟩ := unwrapMPrime_wrapMPrime (p := p)
    (kappaFromX s (R.scalarMultiply e).x.toBeBytes) hlen
  obtain ⟨t', ht', -, hunwrap'⟩ := unwrapMPrime_wrapMPrime (p := p)
    (kappaFromX s (R.scalarMultiply e).x.toBeBytes) hlen'
  rw [hwrap] at ht
  rw [hwrap'] at ht'
  obtain rfl := congrArg Prod.snd ht
  obtain rfl := congrArg Prod.snd ht'
  exact Option.some.inj (hunwrap.symm.trans hunwrap')

/-- **`decrypt` opens the ciphertexts of the blocks that `buildMPrime` builds**, whatever the
identifier and the bits in the top byte. -/
theorem decrypt_eq_ok_iff {mTilde : List UInt8} {l : Nat} :
    decrypt p s c e = .ok (mTilde, l)
      ↔ isValidScalar e = true ∧ Fields s mTilde l
        ∧ ∃ hashId, Seals p s e c (buildMPrime p s hashId mTilde (encodeLMTilde l)) := by
  rw [decrypt]
  constructor
  · intro h
    split at h
    · cases h
    rename_i he
    split at h
    · cases h
    rename_i r hr
    split at h
    · cases h
    rename_i R hR
    dsimp only at h
    split at h
    · cases h
    rename_i mPrime hunwrap
    split at h
    · cases h
    rename_i parsed hparse
    cases h
    obtain ⟨hlen, hwrap⟩ := wrapMPrime_unwrapMPrime _ (length_tPart c) hunwrap
    obtain ⟨hfields, rfl⟩ := (parseMPrime_eq_ok_iff hlen).mp hparse
    rw [Bool.not_eq_true', Bool.not_eq_false] at he
    exact ⟨he, hfields, parsed.hashId, r, R, hr, hR, hwrap⟩
  · rintro ⟨he, hfields, hashId, r, R, hr, hR, hwrap⟩
    have hlen := length_buildMPrime (p := p) hashId l hfields.length
    obtain ⟨t, ht, -, hunwrap⟩ := unwrapMPrime_wrapMPrime (p := p)
      (kappaFromX s (R.scalarMultiply e).x.toBeBytes) hlen
    rw [hwrap] at ht
    obtain rfl := congrArg Prod.snd ht
    have hparse : parseMPrime p s (buildMPrime p s hashId mTilde (encodeLMTilde l))
        = .ok ⟨hashId, l, mTilde⟩ :=
      (parseMPrime_eq_ok_iff hlen).mpr ⟨hfields, rfl⟩
    dsimp only at hunwrap
    simp only [he, Bool.not_true, Bool.false_eq_true, if_false, hr, hR, hunwrap, hparse]

theorem toList_joinCiphertext (r : Bytes s.curve) {t : List UInt8} (ht : t.length = s.tBytes) :
    (joinCiphertext s r t).toList = r.toList ++ t := by
  have hr : r.toList.length = s.rBytes := r.length_toList
  have hroom : s.ciphertextBytes = s.rBytes + s.tBytes := rfl
  rw [joinCiphertext, toList_overwriteAt _ (by omega), toList_overwriteAt _ (by omega), writeAt,
    writeAt, List.take_zero, List.nil_append, List.take_left' hr, Vector.toList_replicate,
    List.drop_of_length_le, List.append_nil]
  rw [List.length_append, List.length_drop, List.length_replicate]
  omega

theorem rPart_joinCiphertext (r : Bytes s.curve) {t : List UInt8} (ht : t.length = s.tBytes) :
    rPart s (joinCiphertext s r t) = r := by
  refine Vector.toList_inj.mp ?_
  have hslice : (rPart s (joinCiphertext s r t)).toList
      = ((joinCiphertext s r t).toList.drop 0).take s.rBytes := toList_slice _ 0 s.rBytes _
  rw [hslice, toList_joinCiphertext r ht, List.drop_zero]
  exact List.take_left' r.length_toList

theorem tPart_joinCiphertext (r : Bytes s.curve) {t : List UInt8} (ht : t.length = s.tBytes) :
    tPart s (joinCiphertext s r t) = t := by
  rw [tPart, toList_joinCiphertext r ht]
  exact List.drop_left' r.length_toList

end

/-! ## Both sides have one key -/

section Group

variable {p : Profile} {s : Size} [Fact s.curve.p.Prime] {P Q : Point s.curve}
  {G H : Group s.curve} {e epsilon : Bytes s.curve}

/-- The point `Q` is the public one of the scalar `e`, or its negative. -/
def PublicOf (Q : Point s.curve) (e : Bytes s.curve) : Prop :=
  ∃ G, Holds Q G ∧ (G = beNat e.toList • base s.curve ∨ G = -(beNat e.toList • base s.curve))

theorem Holds.x_eq (hP : Holds P G) (hQ : Holds Q H) (h : G = H ∨ G = -H) : P.x = Q.x := by
  obtain rfl | rfl := h
  · rw [hP.unique hQ]
  · rw [hP.unique hQ.negate]
    rfl

theorem holds_public (e : Bytes s.curve) :
    Holds ((basePoint s.curve).scalarMultiply e) (beNat e.toList • base s.curve) := by
  have hone : Holds (basePoint s.curve) (1 • base s.curve) := by
    rw [one_nsmul]
    exact holds_base
  have h := holds_multiple hone e
  rwa [one_mul] at h

theorem publicOf_self (e : Bytes s.curve) : PublicOf ((basePoint s.curve).scalarMultiply e) e :=
  ⟨_, holds_public e, .inl rfl⟩

theorem publicOf_negate (e : Bytes s.curve) :
    PublicOf ((basePoint s.curve).scalarMultiply e).negate e :=
  ⟨_, (holds_public e).negate, .inr rfl⟩

theorem nsmul_base_ne_zero (hn : s.curve.n.Prime) {k : Nat} (hpos : 0 < k) (hlt : k < s.curve.n) :
    k • base s.curve ≠ 0 := by
  intro hzero
  have hdvd := addOrderOf_dvd_of_nsmul_eq_zero hzero
  rw [addOrderOf_base hn] at hdvd
  exact absurd (Nat.le_of_dvd hpos hdvd) (Nat.not_le_of_lt hlt)

theorem four_nsmul_ne_zero (hn : s.curve.n.Prime) {k : Nat} (hpos : 0 < k) (hlt : k < s.curve.n) :
    4 • (k • base s.curve) ≠ 0 := by
  have hG := nsmul_base_ne_zero hn hpos hlt
  have htwo := two_nsmul_ne_zero (n_nsmul_nsmul n_nsmul_base k) hG
  have hfour := two_nsmul_ne_zero (n_nsmul_nsmul (n_nsmul_nsmul n_nsmul_base k) 2) htwo
  rwa [← mul_nsmul'] at hfour

/-- A public point passes the sender's check. -/
theorem PublicOf.usable (hn : s.curve.n.Prime) (hQ : PublicOf Q e)
    (he : isValidScalar e = true) : isUsableRecipient Q = true := by
  obtain ⟨hlow, hhigh⟩ := (isValidScalar_iff e).mp he
  obtain ⟨G, hG, hsign⟩ := hQ
  refine (isUsableRecipient_iff hn hG.reduced).mpr ⟨G, hG, ?_⟩
  have hne := four_nsmul_ne_zero (s := s) hn (k := beNat e.toList) (by omega) (by omega)
  obtain rfl | rfl := hsign
  · exact hne
  · rw [neg_nsmul]
    exact neg_ne_zero.mpr hne

/-- **The recipient's point gives the sender's key**: `e (ε P) = ε (e P)`, and the first coordinate
does not see a sign. -/
theorem PublicOf.agree (hQ : PublicOf Q e) {R : Point s.curve}
    (hR : R = (basePoint s.curve).scalarMultiply epsilon
      ∨ R = ((basePoint s.curve).scalarMultiply epsilon).negate) :
    (R.scalarMultiply e).x = (Q.scalarMultiply epsilon).x := by
  obtain ⟨G, hG, hsign⟩ := hQ
  obtain ⟨H, hH, hsign'⟩ : PublicOf R epsilon := by
    obtain rfl | rfl := hR
    · exact publicOf_self epsilon
    · exact publicOf_negate epsilon
  have hn (k : Nat) : s.curve.n • (k • base s.curve) = 0 := n_nsmul_nsmul n_nsmul_base k
  have hnG : s.curve.n • G = 0 := by
    obtain rfl | rfl := hsign
    · exact hn _
    · rw [neg_nsmul, hn, neg_zero]
  have hnH : s.curve.n • H = 0 := by
    obtain rfl | rfl := hsign'
    · exact hn _
    · rw [neg_nsmul, hn, neg_zero]
  refine (holds_scalarMultiply hH hnH e).x_eq (holds_scalarMultiply hG hnG epsilon) ?_
  have hcomm : beNat e.toList • (beNat epsilon.toList • base s.curve)
      = beNat epsilon.toList • (beNat e.toList • base s.curve) := nsmul_left_comm _ _ _
  obtain rfl | rfl := hsign <;> obtain rfl | rfl := hsign'
  · exact .inl hcomm
  · exact .inr (by rw [neg_nsmul, hcomm])
  · exact .inr (by rw [neg_nsmul, neg_neg, hcomm])
  · exact .inl (by rw [neg_nsmul, neg_nsmul, hcomm])

/-- What the sender joins is sealed for the recipient. -/
theorem seals_joinCiphertext (hn : s.curve.n.Prime) (hQ : PublicOf Q e)
    (hepsilon : isValidScalar epsilon = true) {mPrime t : List UInt8} (ht : t.length = s.tBytes)
    (hwrap : wrapMPrime p s (kappaFromX s (Q.scalarMultiply epsilon).x.toBeBytes) mPrime
      = (.ok (), t)) :
    Seals p s e (joinCiphertext s ((basePoint s.curve).scalarMultiply epsilon).x.toBeBytes t)
      mPrime := by
  obtain ⟨hlow, hhigh⟩ := (isValidScalar_iff epsilon).mp hepsilon
  have hholds := holds_public (s := s) epsilon
  have hne := nsmul_base_ne_zero (s := s) hn (k := beNat epsilon.toList) (by omega) (by omega)
  obtain ⟨R, hR, hsign⟩ := pointFromX_holds hholds (n_nsmul_nsmul n_nsmul_base _) hne
  refine ⟨_, R, ?_, hR, ?_⟩
  · rw [rPart_joinCiphertext _ ht]
    obtain ⟨x, y, hspells, -⟩ := hholds
    exact hspells.x.fromCandidateBytes
  · rw [tPart_joinCiphertext _ ht, hQ.agree hsign, hwrap]

/-- **Every block can be sealed.** -/
theorem exists_seals (hn : s.curve.n.Prime) (p : Profile) (e : Bytes s.curve)
    (hepsilon : isValidScalar epsilon = true) {mPrime : List UInt8}
    (hlen : mPrime.length = s.mPrimeBytes) : ∃ c, Seals p s e c mPrime := by
  obtain ⟨t, hwrap, ht, -⟩ := unwrapMPrime_wrapMPrime (p := p) (kappaFromX s
    (((basePoint s.curve).scalarMultiply e).scalarMultiply epsilon).x.toBeBytes) hlen
  exact ⟨_, seals_joinCiphertext hn (publicOf_self e) hepsilon ht hwrap⟩

/-- Given a valid scalar, a usable point and a message of its length, `encrypt` does not refuse. -/
theorem encrypt_of_usable (p : Profile) (hepsilon : isValidScalar epsilon = true)
    (husable : isUsableRecipient Q = true) {message : List UInt8} {l : Nat} (hpos : 0 < l)
    (hle : l ≤ s.lMaxP) (hlen : message.length = messageBytes l) :
    ∃ c, encrypt p s message l Q epsilon = .ok c := by
  have hformat := formatMTilde_eq (s := s) hpos hle hlen
  have hblock := length_buildMPrime (p := p) hashIdKupyna256 l (fields_of_formatMTilde hformat).length
  obtain ⟨t, hwrap, -, -⟩ := unwrapMPrime_wrapMPrime (p := p)
    (kappaFromX s (Q.scalarMultiply epsilon).x.toBeBytes) hblock
  refine ⟨joinCiphertext s ((basePoint s.curve).scalarMultiply epsilon).x.toBeBytes t, ?_⟩
  rw [encrypt]
  simp only [hepsilon, husable, Bool.not_true, Bool.false_eq_true, if_false, hformat, hwrap]

/-- **The sender's ciphertext seals its block for the recipient**, the same one for every point
that has the recipient's first coordinate. -/
theorem exists_encrypt (hn : s.curve.n.Prime) (p : Profile) (he : isValidScalar e = true)
    (hepsilon : isValidScalar epsilon = true) {message : List UInt8} {l : Nat} (hpos : 0 < l)
    (hle : l ≤ s.lMaxP) (hlen : message.length = messageBytes l) :
    ∃ c, (∀ Q, PublicOf Q e → encrypt p s message l Q epsilon = .ok c)
      ∧ decrypt p s c e
        = .ok (List.replicate (s.mTildeBytes - message.length) 0 ++ message, l) := by
  have hformat := formatMTilde_eq (s := s) hpos hle hlen
  have hfields := fields_of_formatMTilde hformat
  generalize List.replicate (s.mTildeBytes - message.length) 0 ++ message = mTilde at *
  have hblock := length_buildMPrime (p := p) hashIdKupyna256 l hfields.length
  obtain ⟨t, hwrap, ht, -⟩ := unwrapMPrime_wrapMPrime (p := p) (kappaFromX s
    (((basePoint s.curve).scalarMultiply e).scalarMultiply epsilon).x.toBeBytes) hblock
  refine ⟨joinCiphertext s ((basePoint s.curve).scalarMultiply epsilon).x.toBeBytes t, ?_, ?_⟩
  · intro Q hQ
    have hkey : (Q.scalarMultiply epsilon).x
        = (((basePoint s.curve).scalarMultiply e).scalarMultiply epsilon).x :=
      (hQ.agree (.inl rfl)).symm.trans ((publicOf_self e).agree (.inl rfl))
    have husable := hQ.usable hn he
    rw [encrypt]
    simp only [hepsilon, husable, Bool.not_true, Bool.false_eq_true, if_false, hformat, hkey, hwrap]
  · exact decrypt_eq_ok_iff.mpr
      ⟨he, hfields, _, seals_joinCiphertext hn (publicOf_self e) hepsilon ht hwrap⟩

end Group

/-- **What is encrypted decrypts**, with the recipient's point or its negative, and so with the
point found from its first coordinate. -/
theorem decrypt_encrypt (p : Profile) (s : Size) (hn : s.curve.n.Prime) (e epsilon : Bytes s.curve)
    (he : isValidScalar e = true) (hepsilon : isValidScalar epsilon = true) (message : List UInt8)
    (messageBits : Nat) (hpos : 1 ≤ messageBits) (hle : messageBits ≤ s.lMaxP)
    (hlen : message.length = messageBytes messageBits) :
    ∃ c R, encrypt p s message messageBits ((basePoint s.curve).scalarMultiply e) epsilon = .ok c
      ∧ encrypt p s message messageBits ((basePoint s.curve).scalarMultiply e).negate epsilon
        = .ok c
      ∧ pointFromX ((basePoint s.curve).scalarMultiply e).x = some R
      ∧ encrypt p s message messageBits R epsilon = .ok c
      ∧ decrypt p s c e
        = .ok (List.replicate (s.mTildeBytes - message.length) 0 ++ message, messageBits) := by
  have hprime : Fact s.curve.p.Prime := ⟨s.curve.p_prime hn⟩
  obtain ⟨c, hencrypt, hdecrypt⟩ := exists_encrypt hn p he hepsilon hpos hle hlen
  obtain ⟨hlow, hhigh⟩ := (isValidScalar_iff e).mp he
  have hne := nsmul_base_ne_zero (s := s) hn (k := beNat e.toList) (by omega) (by omega)
  obtain ⟨R, hR, hsign⟩ := pointFromX_holds (holds_public e) (n_nsmul_nsmul n_nsmul_base _) hne
  refine ⟨c, R, hencrypt _ (publicOf_self e), hencrypt _ (publicOf_negate e), hR, ?_, hdecrypt⟩
  obtain rfl | rfl := hsign
  · exact hencrypt _ (publicOf_self e)
  · exact hencrypt _ (publicOf_negate e)

theorem lastByte_lt : 31 < 32 := by decide

/-- The scalar two. -/
def two256 : Bytes (Size.curve .l256) := (Vector.replicate 32 0).set 31 2 lastByte_lt

theorem isValidScalar_two256 : isValidScalar two256 = true := by
  rw [isValidScalar_iff]
  decide +kernel

/-- One byte to the recipient whose scalar is two. -/
theorem decrypt_encrypt_256 :
    ∃ c R, encrypt .fused .l256 [0x41] 8 ((basePoint _).scalarMultiply two256) two256 = .ok c
      ∧ encrypt .fused .l256 [0x41] 8 ((basePoint _).scalarMultiply two256).negate two256 = .ok c
      ∧ pointFromX ((basePoint _).scalarMultiply two256).x = some R
      ∧ encrypt .fused .l256 [0x41] 8 R two256 = .ok c
      ∧ decrypt .fused .l256 c two256 = .ok (List.replicate 24 0 ++ [0x41], 8) :=
  decrypt_encrypt .fused .l256 order256_prime two256 two256 isValidScalar_two256
    isValidScalar_two256 [0x41] 8 (by decide) (by decide) (by decide)

/-! ## Messages that no sender formats -/

/-- What clause 12 asks of a message: its block has the identifier this module implements, the bits
above the length are zero, and the sender can be given it. -/
structure Canonical (p : Profile) (s : Size) (e : Bytes s.curve)
    (c : Vector UInt8 s.ciphertextBytes) (mTilde : List UInt8) (l : Nat) : Prop where
  block : Seals p s e c (buildMPrime p s hashIdKupyna256 mTilde (encodeLMTilde l))
  bits : beNat mTilde < 2 ^ l
  message : ∃ message, formatMTilde s message l = .ok mTilde

/-- **`decrypt` returns canonical messages** from the ciphertexts whose block has the identifier of
Kupyna-256 and no bit above the length in its top byte. It looks at neither. -/
theorem decrypt_canonical_iff (p : Profile) (s : Size) (e : Bytes s.curve)
    (c : Vector UInt8 s.ciphertextBytes) :
    (∀ mTilde l, decrypt p s c e = .ok (mTilde, l) → Canonical p s e c mTilde l)
      ↔ (isValidScalar e = true → ∀ hashId mTilde l, Fields s mTilde l →
          Seals p s e c (buildMPrime p s hashId mTilde (encodeLMTilde l)) →
          hashId = hashIdKupyna256 ∧ (l % 8 = 0 ∨ (topByte mTilde l).toNat < 2 ^ (l % 8))) := by
  constructor
  · intro h he hashId mTilde l hfields hseals
    obtain ⟨hblock, hbits, -⟩ := h mTilde l (decrypt_eq_ok_iff.mpr ⟨he, hfields, hashId, hseals⟩)
    have heq := hseals.unique hblock (length_buildMPrime hashId l hfields.length)
      (length_buildMPrime hashIdKupyna256 l hfields.length)
    exact ⟨buildMPrime_hashId heq, hfields.lt_two_pow_iff.mp hbits⟩
  · intro h mTilde l hok
    obtain ⟨he, hfields, hashId, hseals⟩ := decrypt_eq_ok_iff.mp hok
    obtain ⟨rfl, hbits⟩ := h he hashId mTilde l hfields hseals
    exact ⟨hseals, hfields.lt_two_pow_iff.mpr hbits, _, hfields.format⟩

/-- **A bit above the length, and an identifier of no hash function**, both accepted. -/
theorem decrypt_not_canonical :
    (∃ c, encrypt .fused .l256 [0xFF] 1 ((basePoint _).scalarMultiply two256) two256 = .ok c
      ∧ decrypt .fused .l256 c two256 = .ok (List.replicate 24 0 ++ [0xFF], 1)
      ∧ ¬Canonical .fused .l256 two256 c (List.replicate 24 0 ++ [0xFF]) 1)
    ∧ ∃ c, Seals .fused .l256 two256 c
        (buildMPrime .fused .l256 0x02 (List.replicate 24 0 ++ [0x41]) (encodeLMTilde 8))
      ∧ decrypt .fused .l256 c two256 = .ok (List.replicate 24 0 ++ [0x41], 8)
      ∧ ¬Canonical .fused .l256 two256 c (List.replicate 24 0 ++ [0x41]) 8 := by
  constructor
  · obtain ⟨c, hencrypt, hdecrypt⟩ := exists_encrypt (s := .l256) order256_prime .fused
      isValidScalar_two256 isValidScalar_two256 (show 0 < 1 by decide) (by decide)
      (show ([0xFF] : List UInt8).length = _ by decide)
    refine ⟨c, hencrypt _ (publicOf_self two256), hdecrypt, ?_⟩
    intro hcanonical
    exact absurd hcanonical.bits (by decide)
  · have hfields : Fields .l256 (List.replicate 24 0 ++ [0x41]) 8 :=
      fields_of_formatMTilde (formatMTilde_eq (by decide) (by decide)
        (show ([0x41] : List UInt8).length = _ by decide))
    have hlen := length_buildMPrime (p := .fused) 0x02 8 hfields.length
    obtain ⟨c, hseals⟩ := exists_seals (s := .l256) order256_prime .fused two256 isValidScalar_two256 hlen
    refine ⟨c, hseals, decrypt_eq_ok_iff.mpr ⟨isValidScalar_two256, hfields, 0x02, hseals⟩, ?_⟩
    intro hcanonical
    have heq := hseals.unique hcanonical.block hlen
      (length_buildMPrime hashIdKupyna256 8 hfields.length)
    exact absurd (buildMPrime_hashId heq) (by decide)

end UaCrypt.Hazmat.Dstu9041
