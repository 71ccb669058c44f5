import UaCrypt.CryptoSign
import UaCrypt.Lib.RejectionSampling
import UaCrypt.Hazmat.KupynaKmac
import UaCrypt.Hazmat.KalynaGcm
import UaCrypt.Hazmat.Profiles

/-!
# Signing keys (`crypto_sign.rs`, `crypto_sign257.rs`)

A signing key is a scalar of `[1, n)`. Its nonce for a digest is the MAC of the digest and a
counter under the key itself, and a degenerate nonce is answered by the next counter, a byte
that wraps around. The two modules differ in the MAC and in how a key is drawn.

- `signDigest_eq_some_iff`: the signature is the one of the first counter that gives any.
- `sign_verify_encoded`: **what is signed verifies**, after key and signature have been
  through their encodings.
- `generate_uniform`: a drawn key is uniform.
-/

namespace UaCrypt.CryptoSign

open Hazmat Chunks RejectionSampling
open Hazmat.Signature Hazmat.CurvePoint Hazmat.Gf2mCurve Hazmat.Gf2mCurve.Reduction
open Hazmat.Limb Hazmat.KupynaKmac
open Hazmat.Kupyna
open Hazmat.Dstu4145 (Scalar)

/-- The MAC of `derive_nonce`. -/
def nonceKmac : Dstu4145.Curve → Size
  | .m163 => .kupyna256
  | .m257 => .kupyna384

/-- What `generate` keeps of a candidate's first byte. -/
def candidateMask : Dstu4145.Curve → UInt8
  | .m163 => 0x07
  | .m257 => 0

/-- The bytes of a private scalar. -/
abbrev ScalarBytes (curve : Dstu4145.Curve) := (signatureParams curve).Bytes

/-- `SigningKey`: a scalar of `[1, n)`. -/
structure SigningKey (curve : Dstu4145.Curve) where
  d : Scalar (signatureParams curve).group
  inRange : 1 ≤ d.toNat ∧ d.toNat < (signatureParams curve).group.nat
  deriving DecidableEq

section

variable {curve : Dstu4145.Curve}

theorem inRange_of_candidate {bytes : ScalarBytes curve}
    {d : Scalar (signatureParams curve).group} (h : Scalar.fromCandidateBytes bytes = some d) :
    1 ≤ d.toNat ∧ d.toNat < (signatureParams curve).group.nat := by
  rw [Scalar.fromCandidateBytes_eq] at h
  split at h
  · rename_i hrange
    cases h
    rwa [Scalar.toNat_fromBeBytes]
  · cases h

namespace SigningKey

/-- `from_bytes`. -/
def fromBytes (bytes : ScalarBytes curve) : Option (SigningKey curve) :=
  match h : Scalar.fromCandidateBytes bytes with
  | some d => some ⟨d, inRange_of_candidate h⟩
  | none => none

/-- `to_bytes`. -/
def toBytes (key : SigningKey curve) : ScalarBytes curve := key.d.toBeBytes

/-- `verifying_key`. -/
def verifyingKey (b : Build) (key : SigningKey curve) : VerifyingKey (signatureParams curve) :=
  ⟨((Point.generator (signatureParams curve).curve).scalarMultiply b.clmul key.toBytes).negate⟩

end SigningKey

end

theorem scalarBytes_le (curve : Dstu4145.Curve) :
    (signatureParams curve).curve.scalarBytes ≤ (nonceKmac curve).outputBytes := by
  cases curve <;> decide

/-- `derive_nonce`: the scalar's bytes, zeros in front, are the key of the MAC. -/
def deriveNonce (b : Build) {curve : Dstu4145.Curve} (key : SigningKey curve)
    (hash : Vector UInt8 32) (counter : UInt8) : Scalar (signatureParams curve).group :=
  let macLen := (nonceKmac curve).outputBytes
  let macKey := overwriteAt (Vector.replicate macLen 0)
    (macLen - (signatureParams curve).curve.scalarBytes) key.toBytes.toList
  Scalar.reduceWideBytes (macSized b.profile (nonceKmac curve) macKey
    (hash.toList ++ [counter])).toList

namespace Signature

variable {S : SignatureParams}

/-- `to_bytes`. -/
def toBytes (sig : Signature S) : KeyBytes S := sig.r ++ sig.s

/-- `from_bytes`. -/
def fromBytes (bytes : KeyBytes S) : Signature S := ⟨xBytes bytes, yBytes bytes⟩

end Signature

section

variable (b : Build) {curve : Dstu4145.Curve} (key : SigningKey curve)

namespace SigningKey

/-- One pass of the loop of `sign_digest`. -/
def attempt (digest : Vector UInt8 32) (counter : UInt8) :
    Option (Signature (signatureParams curve)) :=
  ((signatureParams curve).sign b.clmul digest.toList key.d (deriveNonce b key digest counter)
    (Point.generator (signatureParams curve).curve)).map fun pair => ⟨pair.1, pair.2⟩

/-- The loop of `sign_digest`, `passes` of it. -/
def signLoop (digest : Vector UInt8 32) : Nat → UInt8 → Option (Signature (signatureParams curve))
  | 0, _ => none
  | passes + 1, counter =>
    match key.attempt b digest counter with
    | some sig => some sig
    | none => signLoop digest passes (counter + 1)

/-- `sign_digest` after so many passes: `none` while it is still running. -/
def signDigest (digest : Vector UInt8 32) (passes : Nat) :
    Option (Signature (signatureParams curve)) := key.signLoop b digest passes 0

/-- `sign`. -/
def sign (message : List UInt8) (passes : Nat) : Option (Signature (signatureParams curve)) :=
  key.signDigest b (Kupyna256.digest b.profile message) passes

end SigningKey

/-- `verify`. -/
def VerifyingKey.verify (verifier : VerifyingKey (signatureParams curve)) (message : List UInt8)
    (sig : Signature (signatureParams curve)) : Bool :=
  verifier.verifyDigest b.clmul (b.profile == .smallTables) (Kupyna256.digest b.profile message) sig

end

/-! ## Encodings -/

section

variable {curve : Dstu4145.Curve}

theorem SigningKey.ext_d {key key' : SigningKey curve} (h : key.d = key'.d) : key = key' := by
  cases key
  cases key'
  cases h
  rfl

/-- A key has one encoding, and everything that is read is a key. -/
theorem SigningKey.fromBytes_eq_some_iff {bytes : ScalarBytes curve} {key : SigningKey curve} :
    SigningKey.fromBytes bytes = some key ↔ key.toBytes = bytes := by
  have hread (d : Scalar (signatureParams curve).group)
      (h : Scalar.fromCandidateBytes bytes = some d) : d.toBeBytes = bytes := by
    rw [Scalar.fromCandidateBytes_eq] at h
    split at h
    · cases h
      exact limbsToBeBytes_limbsFromBeBytes _ bytes
    · cases h
  constructor
  · intro h
    rw [fromBytes] at h
    split at h
    · rename_i d hd
      cases h
      exact hread d hd
    · cases h
  · rintro rfl
    have hvalue := Scalar.beNat_toBeBytes key.inRange.2
    have hsome : Scalar.fromCandidateBytes key.toBytes
        = some (Scalar.fromBeBytes (signatureParams curve).group.fits key.toBytes) := by
      rw [Scalar.fromCandidateBytes_eq, if_pos]
      rw [toBytes, hvalue]
      exact key.inRange
    rw [fromBytes]
    split
    · rename_i d hd
      rw [hsome] at hd
      refine congrArg some (ext_d ?_)
      have hlimbs : d.toNat = key.d.toNat := by
        rw [← Option.some.inj hd, Scalar.toNat_fromBeBytes, toBytes, hvalue]
      obtain ⟨limbs⟩ := d
      obtain ⟨⟨limbs'⟩, hrange⟩ := key
      exact congrArg Scalar.mk (Limbs.value_injective hlimbs)
    · rename_i hd
      rw [hsome] at hd
      cases hd

variable {S : SignatureParams}

theorem xBytes_append (x y : S.Bytes) : xBytes (x ++ y : KeyBytes S) = x := by
  apply Vector.ext
  intro i hi
  rw [xBytes, Vector.getElem_ofFn, Vector.getElem_append_left hi]

theorem yBytes_append (x y : S.Bytes) : yBytes (x ++ y : KeyBytes S) = y := by
  apply Vector.ext
  intro i hi
  rw [yBytes, Vector.getElem_ofFn, Vector.getElem_append_right (by omega) (by omega)]
  congr 1
  exact Nat.add_sub_cancel_left _ i

theorem Signature.fromBytes_toBytes (sig : Signature S) : Signature.fromBytes sig.toBytes = sig := by
  cases sig with
  | mk r s => rw [Signature.toBytes, Signature.fromBytes, xBytes_append, yBytes_append]

end

/-! ## Signing -/

section

variable (b : Build) {curve : Dstu4145.Curve} (key : SigningKey curve) (digest : Vector UInt8 32)

/-- The loop ends with the first counter, from its own on, that gives a signature. -/
theorem SigningKey.signLoop_eq_some_iff {passes : Nat} {counter : UInt8}
    {sig : Signature (signatureParams curve)} :
    key.signLoop b digest passes counter = some sig
      ↔ ∃ k < passes, (∀ j < k, key.attempt b digest (counter + UInt8.ofNat j) = none)
        ∧ key.attempt b digest (counter + UInt8.ofNat k) = some sig := by
  -- on the passes: the counter is a byte and wraps
  induction passes generalizing counter with
  | zero =>
    constructor
    · intro h
      cases h
    · rintro ⟨k, hk, -⟩
      exact absurd hk (Nat.not_lt_zero k)
  | succ passes ih =>
    have hstep (j : Nat) : counter + 1 + UInt8.ofNat j = counter + UInt8.ofNat (j + 1) := by
      rw [UInt8.ofNat_add, UInt8.add_assoc, UInt8.add_comm (UInt8.ofNat j)]
      rfl
    have hfirst : counter + UInt8.ofNat 0 = counter := UInt8.add_zero counter
    rw [signLoop]
    cases hattempt : key.attempt b digest counter with
    | some found =>
      constructor
      · intro h
        cases h
        exact ⟨0, Nat.zero_lt_succ _, nofun, by rw [hfirst, hattempt]⟩
      · rintro ⟨k, -, hbefore, hk⟩
        cases k with
        | zero =>
          rw [hfirst, hattempt] at hk
          exact hk
        | succ k =>
          have hnone := hbefore 0 (Nat.zero_lt_succ k)
          rw [hfirst, hattempt] at hnone
          cases hnone
    | none =>
      dsimp only
      rw [ih]
      constructor
      · rintro ⟨k, hk, hbefore, hsome⟩
        refine ⟨k + 1, Nat.succ_lt_succ hk, ?_, by rw [← hstep, hsome]⟩
        intro j hj
        cases j with
        | zero => rw [hfirst, hattempt]
        | succ j => rw [← hstep, hbefore j (Nat.lt_of_succ_lt_succ hj)]
      · rintro ⟨k, hk, hbefore, hsome⟩
        cases k with
        | zero =>
          rw [hfirst, hattempt] at hsome
          cases hsome
        | succ k =>
          refine ⟨k, Nat.lt_of_succ_lt_succ hk, fun j hj => ?_, by rw [hstep, hsome]⟩
          rw [hstep, hbefore (j + 1) (Nat.succ_lt_succ hj)]

/-- The signature is the one of the first counter that gives any. There are 256. -/
theorem SigningKey.signDigest_eq_some_iff {passes : Nat}
    {sig : Signature (signatureParams curve)} :
    key.signDigest b digest passes = some sig
      ↔ ∃ k < min passes 256, (∀ j < k, key.attempt b digest (UInt8.ofNat j) = none)
        ∧ key.attempt b digest (UInt8.ofNat k) = some sig := by
  have hzero (j : Nat) : (0 : UInt8) + UInt8.ofNat j = UInt8.ofNat j := UInt8.zero_add _
  rw [signDigest, signLoop_eq_some_iff]
  simp only [hzero]
  constructor
  · rintro ⟨k, hk, hbefore, hsome⟩
    refine ⟨k, lt_min hk ?_, hbefore, hsome⟩
    -- after 256 counters the same ones come again
    by_contra hle
    have hagain : UInt8.ofNat (k - 256) = UInt8.ofNat k := by
      apply UInt8.toNat.inj
      rw [UInt8.toNat_ofNat', UInt8.toNat_ofNat']
      omega
    have hnone := hbefore (k - 256) (by omega)
    rw [hagain, hsome] at hnone
    cases hnone
  · rintro ⟨k, hk, hbefore, hsome⟩
    exact ⟨k, lt_of_lt_of_le hk (min_le_left _ _), hbefore, hsome⟩

theorem SigningKey.signDigest_isSome_iff :
    (∃ passes, (key.signDigest b digest passes).isSome)
      ↔ ∃ counter, (key.attempt b digest counter).isSome := by
  constructor
  · rintro ⟨passes, h⟩
    obtain ⟨sig, hsig⟩ := Option.isSome_iff_exists.mp h
    obtain ⟨k, -, -, hsome⟩ := (key.signDigest_eq_some_iff b digest).mp hsig
    exact ⟨UInt8.ofNat k, Option.isSome_iff_exists.mpr ⟨sig, hsome⟩⟩
  · rintro ⟨counter, h⟩
    have hex : ∃ k, (key.attempt b digest (UInt8.ofNat k)).isSome :=
      ⟨counter.toNat, by rwa [UInt8.ofNat_toNat]⟩
    have hle : Nat.find hex ≤ counter.toNat := Nat.find_min' hex (by rwa [UInt8.ofNat_toNat])
    obtain ⟨sig, hsome⟩ := Option.isSome_iff_exists.mp (Nat.find_spec hex)
    refine ⟨256, Option.isSome_iff_exists.mpr ⟨sig, (key.signDigest_eq_some_iff b digest).mpr
      ⟨Nat.find hex, ?_, ?_, hsome⟩⟩⟩
    · rw [min_self]
      exact Nat.lt_of_le_of_lt hle counter.toNat_lt
    · intro j hj
      have hmin := Nat.find_min hex hj
      rwa [Option.not_isSome_iff_eq_none] at hmin

theorem toNat_deriveNonce_lt (counter : UInt8) :
    (deriveNonce b key digest counter).toNat < (signatureParams curve).group.nat := by
  rw [deriveNonce, Scalar.toNat_reduceWideBytes]
  exact Nat.mod_lt _ (signatureParams curve).group.pos

end

section

variable {S : SignatureParams}

/-- The multiples of the base point that signing takes. -/
theorem represents_multiple (h : S.Sound) (clmul : Bool) {e : Scalar S.group}
    (he : e.toNat < S.group.nat) {G : Group S.curve}
    (hG : Represents (Point.generator S.curve) G) :
    Represents ((Point.generator S.curve).scalarMultiply clmul e.toBeBytes) (e.toNat • G) := by
  have hmultiple := scalarMultiply_represents clmul hG (k := e.toBeBytes) (by
    rw [Scalar.beNat_toBeBytes he]
    exact Nat.lt_trans he h.order_lt)
  rwa [Scalar.beNat_toBeBytes he] at hmultiple

/-- A nonce that signs is not zero. -/
theorem nonce_pos_of_sign (h : S.Sound) {clmul : Bool} {hash : List UInt8} {d e : Scalar S.group}
    (he : e.toNat < S.group.nat) {r s : S.Bytes}
    (hsign : S.sign clmul hash d e (Point.generator S.curve) = some (r, s)) : 1 ≤ e.toNat := by
  obtain ⟨G, hG, -⟩ := h.base
  obtain ⟨x, y, hpoint, -⟩ := (SignatureParams.sign_eq_some_iff clmul).mp hsign
  by_contra hzero
  have hmultiple := represents_multiple h clmul he hG
  have hinfinity : Represents (.infinity : Point S.curve) (e.toNat • G) := by
    rw [Nat.eq_zero_of_not_pos hzero, zero_nsmul]
    exact .infinity
  have heq := hmultiple.unique hinfinity
  rw [hpoint] at heq
  cases heq

/-- Signing does not depend on the multiplication it runs on. -/
theorem sign_clmul (h : S.Sound) (clmul clmul' : Bool) (hash : List UInt8) (d : Scalar S.group)
    {e : Scalar S.group} (he : e.toNat < S.group.nat) :
    S.sign clmul hash d e (Point.generator S.curve)
      = S.sign clmul' hash d e (Point.generator S.curve) := by
  obtain ⟨G, hG, -⟩ := h.base
  have hpoint := (represents_multiple h clmul he hG).unique (represents_multiple h clmul' he hG)
  have hpoint' := represents_multiple h clmul' he hG
  rw [SignatureParams.sign, SignatureParams.sign, hpoint]
  cases hmul : (Point.generator S.curve).scalarMultiply clmul' e.toBeBytes with
  | infinity => rfl
  | affine x y =>
    rw [hmul] at hpoint'
    have hx : Canonical x := by
      cases hpoint' with
      | affine hx _ _ => exact hx
    dsimp only
    rw [SignatureParams.multiply_build clmul clmul' (SignatureParams.canonical_hashElement hash) hx]

end

section

variable {curve : Dstu4145.Curve} (key : SigningKey curve)

theorem digest_profile (p p' : Tables.Profile) (message : List UInt8) :
    Kupyna256.digest p message = Kupyna256.digest p' message := by
  rw [Kupyna256.digest, Kupyna256.digest, digestGeneric_profile p, digestGeneric_profile p']

theorem macSized_profile (p p' : Tables.Profile) (s : Size) (macKey : Vector UInt8 s.outputBytes)
    (message : List UInt8) : macSized p s macKey message = macSized p' s macKey message := by
  rw [macSized_eq, macSized_eq, Size.digest_eq, Size.digest_eq, digestGeneric_profile p,
    digestGeneric_profile p']

/-- A signature depends on the key and the digest alone. -/
theorem SigningKey.attempt_build (b b' : Build) (digest : Vector UInt8 32) (counter : UInt8) :
    key.attempt b digest counter = key.attempt b' digest counter := by
  have hnonce : deriveNonce b key digest counter = deriveNonce b' key digest counter := by
    rw [deriveNonce, deriveNonce, macSized_profile b.profile b'.profile]
  rw [attempt, attempt, hnonce, sign_clmul (SignatureParams.sound curve) b.clmul b'.clmul _ _
    (toNat_deriveNonce_lt b' key digest counter)]

theorem SigningKey.signLoop_build (b b' : Build) (digest : Vector UInt8 32) (passes : Nat)
    (counter : UInt8) :
    key.signLoop b digest passes counter = key.signLoop b' digest passes counter := by
  induction passes generalizing counter with
  | zero => rfl
  | succ passes ih => rw [signLoop, signLoop, key.attempt_build b b', ih]

theorem SigningKey.sign_build (b b' : Build) (message : List UInt8) (passes : Nat) :
    key.sign b message passes = key.sign b' message passes := by
  rw [sign, sign, signDigest, signDigest, digest_profile b.profile b'.profile,
    key.signLoop_build b b']

/-- What one pass comes up with verifies, under the key and under the key read back. -/
theorem SigningKey.verifyDigest_attempt (b verifier : Build) (digest : Vector UInt8 32)
    {counter : UInt8} {sig : Signature (signatureParams curve)}
    (h : key.attempt b digest counter = some sig) (smallTables : Bool) :
    (key.verifyingKey b).verifyDigest verifier.clmul smallTables digest sig = true := by
  obtain ⟨⟨r, s⟩, hsign, rfl⟩ := Option.map_eq_some_iff.mp h
  have hsound := SignatureParams.sound curve
  have he := toNat_deriveNonce_lt b key digest counter
  exact (hsound.sign_verify b.clmul verifier.clmul smallTables key.inRange
    ⟨nonce_pos_of_sign hsound he hsign, he⟩ hsign).2

theorem VerifyingKey.fromUncompressedBytes_toUncompressedBytes_of_verify {clmul smallTables : Bool}
    {verifier : VerifyingKey (signatureParams curve)} {digest : Vector UInt8 32}
    {sig : Signature (signatureParams curve)}
    (h : verifier.verifyDigest clmul smallTables digest sig = true) :
    VerifyingKey.fromUncompressedBytes verifier.toUncompressedBytes = verifier := by
  obtain ⟨-, hkey, -⟩ := (SignatureParams.verify_eq_true_iff clmul).mp h
  obtain ⟨P, hP, horder⟩ := ((SignatureParams.sound curve).usableKey_iff clmul _).mp hkey
  refine fromUncompressedBytes_toUncompressedBytes hP ?_
  intro hinfinity
  have hzero := hP.eq_infinity_iff.mp hinfinity
  rw [hzero, addOrderOf_zero] at horder
  have hfour := four_lt_order curve
  omega

/-- **Signing and verifying, through the encodings.** A key is read from exactly its own bytes.
What `sign` returns verifies on every build once signature and verifying key have been written
out and read back; it depends on the key and the message alone, not on the build nor on how long
the loop may run; and the loop returns exactly when one of the 256 counters gives a signature. -/
theorem sign_verify_encoded (curve : Dstu4145.Curve) :
    (∀ bytes (key : SigningKey curve),
      SigningKey.fromBytes bytes = some key ↔ key.toBytes = bytes)
    ∧ ∀ (key : SigningKey curve) (signer : Build) (message : List UInt8),
      (∀ passes sig, key.sign signer message passes = some sig →
        (∀ b : Build, (VerifyingKey.fromUncompressedBytes
            (key.verifyingKey signer).toUncompressedBytes).verify b message
              (Signature.fromBytes sig.toBytes) = true)
        ∧ ∀ b passes', 256 ≤ passes' → key.sign b message passes' = some sig)
      ∧ ((∃ passes, (key.sign signer message passes).isSome)
        ↔ ∃ counter, (key.attempt signer (Kupyna256.digest signer.profile message) counter).isSome)
    := by
  refine ⟨fun bytes key => SigningKey.fromBytes_eq_some_iff, ?_⟩
  intro key signer message
  refine ⟨?_, key.signDigest_isSome_iff signer _⟩
  intro passes sig hsign
  obtain ⟨k, hk, hbefore, hattempt⟩ := (key.signDigest_eq_some_iff signer _).mp hsign
  constructor
  · intro b
    have hverify := key.verifyDigest_attempt signer b _ hattempt (b.profile == .smallTables)
    rw [Signature.fromBytes_toBytes, VerifyingKey.verify, digest_profile b.profile signer.profile,
      VerifyingKey.fromUncompressedBytes_toUncompressedBytes_of_verify hverify]
    exact hverify
  · intro b passes' hpasses
    rw [key.sign_build b signer]
    refine (key.signDigest_eq_some_iff signer _).mpr ⟨k, ?_, hbefore, hattempt⟩
    have hmin := lt_of_lt_of_le hk (min_le_right passes 256)
    rwa [min_eq_right hpasses]

end

/-! ## Drawing a key -/

/-- The key that a draw of random bytes is taken for. -/
def candidate (curve : Dstu4145.Curve) (draw : ScalarBytes curve) : Option (SigningKey curve) :=
  SigningKey.fromBytes
    (maskFirst (signatureParams curve).scalarBytes_pos (candidateMask curve) draw)

/-- `generate`, over the draws that the system answers with. -/
def SigningKey.generate {curve : Dstu4145.Curve} (draws : List (Option (ScalarBytes curve))) :
    Option (Option (SigningKey curve)) := firstAccepted (candidate curve) draws

/-- The draws that come to the same key. -/
def drawsPerKey : Dstu4145.Curve → Nat
  | .m163 => 32
  | .m257 => 256

/-- A private scalar's first byte is inside the mask. -/
theorem card_masked_first {curve : Dstu4145.Curve} (key : SigningKey curve) :
    (masked (candidateMask curve) (getElem key.toBytes 0 (signatureParams curve).scalarBytes_pos)).card
      = drawsPerKey curve := by
  have hpos := (signatureParams curve).scalarBytes_pos
  obtain ⟨rest, -, hbytes⟩ := SignatureParams.beNat_set_zero key.toBytes hpos
  have hfirst := hbytes (getElem key.toBytes 0 hpos)
  have hvalue : beNat key.toBytes.toList = key.d.toNat := Scalar.beNat_toBeBytes key.inRange.2
  have hlt := key.inRange.2
  rw [Vector.set_getElem_self, hvalue] at hfirst
  have htop : (getElem key.toBytes 0 hpos).toNat
      * 256 ^ ((signatureParams curve).curve.scalarBytes - 1) < (signatureParams curve).group.nat :=
    by omega
  generalize getElem key.toBytes 0 hpos = first at htop ⊢
  cases curve with
  | m163 =>
    have horder : (signatureParams .m163).group.nat
        ≤ 5 * 256 ^ ((signatureParams .m163).curve.scalarBytes - 1) := by decide +kernel
    have hle : first.toNat < 5 :=
      Nat.lt_of_mul_lt_mul_right (Nat.lt_of_lt_of_le htop horder)
    have hall : ∀ t : Fin 5, (masked 0x07 (UInt8.ofNat t.val)).card = 32 := by decide +kernel
    have hcard := hall ⟨first.toNat, hle⟩
    rwa [UInt8.ofNat_toNat] at hcard
  | m257 =>
    have horder : (signatureParams .m257).group.nat
        ≤ 1 * 256 ^ ((signatureParams .m257).curve.scalarBytes - 1) := by decide +kernel
    have hle : first.toNat < 1 :=
      Nat.lt_of_mul_lt_mul_right (Nat.lt_of_lt_of_le htop horder)
    have hzero : first = 0 := UInt8.toNat.inj (Nat.lt_one_iff.mp hle)
    rw [hzero]
    decide +kernel

/-- **Every key has the same number of draws.** -/
theorem card_accepted {curve : Dstu4145.Curve} (key : SigningKey curve) :
    (accepted (candidate curve) key).card = drawsPerKey curve := by
  have hsame : accepted (candidate curve) key = Finset.univ.filter fun draw : ScalarBytes curve =>
      maskFirst (signatureParams curve).scalarBytes_pos (candidateMask curve) draw
        = key.toBytes := by
    ext draw
    rw [accepted, Finset.mem_filter, Finset.mem_filter, candidate,
      SigningKey.fromBytes_eq_some_iff, eq_comm (a := key.toBytes)]
  rw [hsame, card_maskFirst, card_masked_first]

/-- Every number that fits has its bytes. -/
theorem exists_bytes {m v : Nat} (h : v < 256 ^ m) : ∃ bytes : Vector UInt8 m,
    beNat bytes.toList = v := by
  have hmaps : ∀ bytes ∈ (Finset.univ : Finset (Vector UInt8 m)),
      beNat bytes.toList ∈ Finset.range (256 ^ m) := by
    intro bytes _
    have hlt := beNat_lt bytes.toList
    rwa [Vector.length_toList, ← Finset.mem_range] at hlt
  have hsurj := Finset.surj_on_of_inj_on_of_card_le
    (fun (bytes : Vector UInt8 m) _ => beNat bytes.toList) hmaps
    (fun bytes bytes' _ _ heq => beNat_injective heq)
    (by rw [Finset.card_range, Finset.card_univ, card_bytes])
  obtain ⟨bytes, -, hbytes⟩ := hsurj v (Finset.mem_range.mpr h)
  exact ⟨bytes, hbytes.symm⟩

theorem fromBytes_injective {curve : Dstu4145.Curve} (bytes bytes' : ScalarBytes curve)
    (key : SigningKey curve) (h : key ∈ SigningKey.fromBytes bytes)
    (h' : key ∈ SigningKey.fromBytes bytes') : bytes = bytes' := by
  rw [Option.mem_def, SigningKey.fromBytes_eq_some_iff] at h h'
  rw [← h, h']

/-- All keys. -/
def keys (curve : Dstu4145.Curve) : Finset (SigningKey curve) :=
  (Finset.univ : Finset (ScalarBytes curve)).filterMap SigningKey.fromBytes fromBytes_injective

theorem mem_keys {curve : Dstu4145.Curve} (key : SigningKey curve) : key ∈ keys curve := by
  rw [keys, Finset.mem_filterMap]
  exact ⟨key.toBytes, Finset.mem_univ _, SigningKey.fromBytes_eq_some_iff.mpr rfl⟩

theorem card_keys (curve : Dstu4145.Curve) :
    (keys curve).card + 1 = (signatureParams curve).group.nat := by
  have hpos := (signatureParams curve).group.pos
  have hbij : (keys curve).card = (Finset.Ico 1 (signatureParams curve).group.nat).card := by
    apply Finset.card_bij fun key _ => key.d.toNat
    · intro key _
      exact Finset.mem_Ico.mpr key.inRange
    · intro key _ key' _ h
      have hbytes : key.toBytes = key'.toBytes := by
        apply beNat_injective
        rw [SigningKey.toBytes, SigningKey.toBytes, Scalar.beNat_toBeBytes key.inRange.2,
          Scalar.beNat_toBeBytes key'.inRange.2, h]
      have hread := SigningKey.fromBytes_eq_some_iff.mpr hbytes
      rw [SigningKey.fromBytes_eq_some_iff.mpr rfl] at hread
      exact (Option.some.inj hread).symm
    · intro v hv
      rw [Finset.mem_Ico] at hv
      have hfits := beNat_lt (signatureParams curve).order.toList
      rw [Vector.length_toList] at hfits
      obtain ⟨bytes, hbytes⟩ := exists_bytes (Nat.lt_trans hv.2 hfits)
      have hd := Scalar.toNat_fromBeBytes (signatureParams curve).group.fits bytes
      rw [hbytes] at hd
      exact ⟨⟨_, hd ▸ hv⟩, mem_keys _, hd⟩
  rw [hbij, Nat.card_Ico]
  exact Nat.sub_add_cancel hpos

/-- At most every other draw is rejected. -/
theorem card_rejected_candidate (curve : Dstu4145.Curve) :
    2 * (rejected (candidate curve)).card ≤ 256 ^ (signatureParams curve).curve.scalarBytes := by
  have hshare : ∀ key ∈ keys curve, (accepted (candidate curve) key).card = drawsPerKey curve :=
    fun key _ => card_accepted key
  have htotal := card_rejected (candidate curve) hshare (fun _ key _ => mem_keys key)
  have hkeys := card_keys curve
  have hhalf : 256 ^ (signatureParams curve).curve.scalarBytes
      ≤ 2 * (((signatureParams curve).group.nat - 1) * drawsPerKey curve) := by
    cases curve <;> decide +kernel
  rw [card_bytes, Nat.eq_sub_of_add_eq hkeys] at htotal
  omega

/-- **A drawn key is uniform.** Whatever the number of draws, every two keys have equally many
tapes of random draws that `generate` returns them on; a draw is taken for a given key by
exactly 32 (256) of the byte strings; and the tapes that leave the loop running after `n` draws
are at most a `2^n`-th of all. -/
theorem generate_uniform (curve : Dstu4145.Curve) :
    (∀ key : SigningKey curve, (Finset.univ.filter fun draw : ScalarBytes curve =>
        SigningKey.generate [some draw] = some (some key)).card = drawsPerKey curve)
    ∧ (∀ (n : Nat) (key key' : SigningKey curve),
      (Finset.univ.filter fun tape : Fin n → ScalarBytes curve =>
          SigningKey.generate ((List.ofFn tape).map some) = some (some key)).card
        = (Finset.univ.filter fun tape : Fin n → ScalarBytes curve =>
          SigningKey.generate ((List.ofFn tape).map some) = some (some key')).card)
    ∧ ∀ n : Nat, 2 ^ n * (Finset.univ.filter fun tape : Fin n → ScalarBytes curve =>
          (SigningKey.generate ((List.ofFn tape).map some)).isNone).card
        ≤ (256 ^ (signatureParams curve).curve.scalarBytes) ^ n := by
  refine ⟨?_, ?_, ?_⟩
  · intro key
    rw [← card_accepted key]
    refine congrArg Finset.card ?_
    ext draw
    rw [accepted, Finset.mem_filter, Finset.mem_filter, SigningKey.generate, firstAccepted]
    cases candidate curve draw with
    | none => simp [firstAccepted]
    | some found => simp
  · intro n key key'
    exact card_yielding_eq (candidate curve) ((card_accepted key).trans (card_accepted key').symm) n
  · intro n
    have hundecided := card_undecided (candidate curve) n
    calc 2 ^ n * (undecided (candidate curve) n).card
        = (2 * (rejected (candidate curve)).card) ^ n := by rw [hundecided, Nat.mul_pow]
      _ ≤ (256 ^ (signatureParams curve).curve.scalarBytes) ^ n :=
        Nat.pow_le_pow_left (card_rejected_candidate curve) n

end UaCrypt.CryptoSign
