import UaCrypt.Hazmat.Signature

/-!
# Verifying keys (`crypto_sign.rs`, `crypto_sign257.rs`)

A key is read from any byte string of its length; what is not a point of the order `n` in canonical
coordinates is turned down when a signature is verified.

- `toUncompressedBytes_fromUncompressedBytes`, `fromUncompressedBytes_toUncompressedBytes`: the
  two round trips.
- `eq_of_represents`: one encoding of a point.
- `verifying_keys_canonical`: the keys that any signature is accepted under.
-/

namespace UaCrypt.CryptoSign

open Hazmat
open Hazmat.Signature Hazmat.CurvePoint Hazmat.Gf2mCurve Hazmat.Gf2mCurve.Reduction
open Hazmat.Limb

/-- `Signature`. -/
structure Signature (S : SignatureParams) where
  r : S.Bytes
  s : S.Bytes

/-- `VerifyingKey`: the point `-d*G`. -/
structure VerifyingKey (S : SignatureParams) where
  point : Point S.curve

/-- The bytes of a key. -/
abbrev KeyBytes (S : SignatureParams) := Vector UInt8 (S.curve.scalarBytes + S.curve.scalarBytes)

variable {S : SignatureParams}

/-- The bytes of the first coordinate. -/
def xBytes (bytes : KeyBytes S) : S.Bytes := Vector.ofFn fun i => bytes[i.val]

/-- The bytes of the second coordinate. -/
def yBytes (bytes : KeyBytes S) : S.Bytes := Vector.ofFn fun i => bytes[S.curve.scalarBytes + i.val]

namespace VerifyingKey

/-- `from_uncompressed_bytes`. -/
def fromUncompressedBytes (bytes : KeyBytes S) : VerifyingKey S :=
  ⟨.affine (S.elementFromBeBytes (xBytes bytes)) (S.elementFromBeBytes (yBytes bytes))⟩

/-- `to_uncompressed_bytes`. -/
def toUncompressedBytes (key : VerifyingKey S) : KeyBytes S :=
  match key.point with
  | .affine x y => S.elementToBeBytes x ++ S.elementToBeBytes y
  | .infinity => Vector.replicate _ 0

/-- `verify_digest`. -/
def verifyDigest (clmul smallTables : Bool) (key : VerifyingKey S) (digest : Vector UInt8 32)
    (sig : Signature S) : Bool :=
  S.verify clmul smallTables digest.toList sig.r sig.s key.point (Point.generator S.curve)

end VerifyingKey

/-! ## Encodings -/

theorem xBytes_append_yBytes (bytes : KeyBytes S) : xBytes bytes ++ yBytes bytes = bytes := by
  apply Vector.ext
  intro i hi
  rw [Vector.getElem_append]
  split
  · rw [xBytes, Vector.getElem_ofFn]
  · rename_i hle
    rw [yBytes, Vector.getElem_ofFn]
    congr 1
    exact Nat.add_sub_of_le (Nat.le_of_not_lt hle)

theorem toUncompressedBytes_fromUncompressedBytes (bytes : KeyBytes S) :
    (VerifyingKey.fromUncompressedBytes bytes).toUncompressedBytes = bytes := by
  rw [VerifyingKey.toUncompressedBytes, VerifyingKey.fromUncompressedBytes]
  dsimp only [SignatureParams.elementToBeBytes, SignatureParams.elementFromBeBytes]
  rw [limbsToBeBytes_limbsFromBeBytes, limbsToBeBytes_limbsFromBeBytes, xBytes_append_yBytes]

/-- The encoding of a point is read as the point. -/
theorem fromUncompressedBytes_toUncompressedBytes {key : VerifyingKey S} {P : Group S.curve}
    (h : Represents key.point P) (hne : key.point ≠ .infinity) :
    VerifyingKey.fromUncompressedBytes key.toUncompressedBytes = key := by
  obtain ⟨point⟩ := key
  cases h with
  | infinity => exact absurd rfl hne
  | @affine x y _ hx hy _ =>
    have hxBytes : xBytes (S.elementToBeBytes x ++ S.elementToBeBytes y) = S.elementToBeBytes x := by
      apply Vector.ext
      intro i hi
      rw [xBytes, Vector.getElem_ofFn, Vector.getElem_append_left hi]
    have hyBytes : yBytes (S.elementToBeBytes x ++ S.elementToBeBytes y) = S.elementToBeBytes y := by
      apply Vector.ext
      intro i hi
      rw [yBytes, Vector.getElem_ofFn, Vector.getElem_append_right (by omega) (by omega)]
      congr 1
      exact Nat.add_sub_cancel_left _ i
    rw [VerifyingKey.toUncompressedBytes, VerifyingKey.fromUncompressedBytes, hxBytes, hyBytes,
      SignatureParams.elementFromBeBytes_elementToBeBytes hx,
      SignatureParams.elementFromBeBytes_elementToBeBytes hy]

/-- Bytes that are the same point are the same. -/
theorem eq_of_represents {k k' : KeyBytes S} {P : Group S.curve}
    (h : Represents (VerifyingKey.fromUncompressedBytes k).point P)
    (h' : Represents (VerifyingKey.fromUncompressedBytes k').point P) : k' = k := by
  have hpoint := h'.unique h
  rw [← toUncompressedBytes_fromUncompressedBytes k', ← toUncompressedBytes_fromUncompressedBytes k,
    VerifyingKey.toUncompressedBytes, VerifyingKey.toUncompressedBytes, hpoint]

/-- A key that is a point has canonical coordinates on the curve. -/
theorem coordinates_of_represents {k : KeyBytes S} {P : Group S.curve}
    (h : Represents (VerifyingKey.fromUncompressedBytes k).point P) :
    (beNat (xBytes k).toList < 2 ^ S.curve.field.degree
        ∧ beNat (yBytes k).toList < 2 ^ S.curve.field.degree)
      ∧ BinaryCurve.At P (toField (S.elementFromBeBytes (xBytes k)))
        (toField (S.elementFromBeBytes (yBytes k))) := by
  cases h with
  | affine hx hy hat => exact ⟨⟨SignatureParams.canonical_elementFromBeBytes.mp hx,
      SignatureParams.canonical_elementFromBeBytes.mp hy⟩, hat⟩

theorem four_lt_order (curve : Dstu4145.Curve) : 4 < (signatureParams curve).group.nat := by
  cases curve <;> decide +kernel

/-- **Verification accepts only canonical keys of the subgroup of the order `n`**: if any signature
is accepted under the key read from `k`, its coordinates are below `2^m` and satisfy the equation,
the point is not infinity, its order is `n`, and `k` is its one encoding. -/
theorem verifying_keys_canonical (curve : Dstu4145.Curve) (clmul smallTables : Bool)
    (k : KeyBytes (signatureParams curve)) (digest : Vector UInt8 32)
    (sig : Signature (signatureParams curve))
    (h : (VerifyingKey.fromUncompressedBytes k).verifyDigest clmul smallTables digest sig = true) :
    let S := signatureParams curve
    let n := S.group.nat
    let key : VerifyingKey S := VerifyingKey.fromUncompressedBytes k
    let x := toField (S.elementFromBeBytes (xBytes k))
    let y := toField (S.elementFromBeBytes (yBytes k))
    (beNat (xBytes k).toList < 2 ^ S.curve.field.degree
        ∧ beNat (yBytes k).toList < 2 ^ S.curve.field.degree)
      ∧ y ^ 2 + x * y = x ^ 3 + coeffA S.curve * x ^ 2 + toField (b S.curve)
      ∧ key.point ≠ .infinity
      ∧ (∃ P : Group S.curve, Represents key.point P ∧ addOrderOf P = n
        ∧ (∀ order ∈ [2, 4, 2 * n, 4 * n], addOrderOf P ≠ order)
        ∧ ∀ k' : KeyBytes S, Represents (VerifyingKey.fromUncompressedBytes k').point P → k' = k)
      ∧ key.toUncompressedBytes = k := by
  have hsound := SignatureParams.sound curve
  obtain ⟨-, hkey, -⟩ := (SignatureParams.verify_eq_true_iff clmul).mp h
  obtain ⟨P, hP, horder⟩ := (hsound.usableKey_iff clmul _).mp hkey
  obtain ⟨hbytes, hat⟩ := coordinates_of_represents hP
  have hfour := four_lt_order curve
  refine ⟨hbytes, hat.equation, nofun, ⟨P, hP, horder, ?_, ?_⟩,
    toUncompressedBytes_fromUncompressedBytes k⟩
  · rw [horder]
    simp only [List.forall_mem_cons, List.not_mem_nil, false_imp_iff, implies_true, and_true]
    omega
  · intro k' hk'
    exact eq_of_represents hP hk'

/-- The key of the private scalar one. -/
def key163 : VerifyingKey signature163 := ⟨(Point.generator params163).negate⟩

/-- It is a point of the order `n`. -/
theorem verifying_keys_canonical_one163 :
    ∃ P : Group params163,
      Represents (VerifyingKey.fromUncompressedBytes key163.toUncompressedBytes).point P
        ∧ addOrderOf P = signature163.group.nat := by
  obtain ⟨G, hG, -⟩ := SignatureParams.sound163.base
  have hread : VerifyingKey.fromUncompressedBytes key163.toUncompressedBytes = key163 :=
    fromUncompressedBytes_toUncompressedBytes (negate_represents hG) nofun
  have hverify : (VerifyingKey.fromUncompressedBytes key163.toUncompressedBytes).verifyDigest true
      false (Vector.replicate 32 0) ⟨signed163.1, signed163.2⟩ = true := by
    rw [hread]
    exact verify_one163
  obtain ⟨-, -, -, ⟨P, hP, horder, -, -⟩, -⟩ :=
    verifying_keys_canonical .m163 true false key163.toUncompressedBytes (Vector.replicate 32 0)
      ⟨signed163.1, signed163.2⟩ hverify
  exact ⟨P, hP, horder⟩

end UaCrypt.CryptoSign
