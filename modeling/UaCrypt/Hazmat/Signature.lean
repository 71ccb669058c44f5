import UaCrypt.Hazmat.VerifyCombine
import UaCrypt.Hazmat.BasePoint
import UaCrypt.Hazmat.Scalar

/-!
# Signatures (`dstu4145/signature.rs`, `dstu4145/signature257.rs`)

`sign` takes `r` from the first coordinate of `e*G` and answers with `s = r*d + e`; `verify`
computes the point again as `s*G + r*Q`. The public key is `Q = -d*G`, which the caller negates.

- `SignatureParams`: what the two modules differ in. `Sound`: what a signature rests on, and
  `sound` for both.
- `usableKey_iff`: the check of a key accepts the points of the order `n`.
- `verify_eq_true_iff`: what `verify` accepts, in the group.
- `sign_verify`: it accepts what `sign` answers with.
-/

namespace UaCrypt.Hazmat.Signature

open Dstu4145 (GroupOrder Scalar)
open CurvePoint Gf2mCurve Gf2mCurve.Reduction Limb Limbs

/-- What `signature.rs` and `signature257.rs` differ in. -/
structure SignatureParams where
  curve : CurveParams
  /-- The words of a scalar. -/
  scalarLimbs : Nat
  order : Vector UInt8 curve.scalarBytes
  scalarFits : curve.scalarBytes ≤ 8 * scalarLimbs
  orderPos : 0 < beNat order.toList
  headroom : 2 * beNat order.toList ≤ 2 ^ (64 * scalarLimbs)
  /-- The bits of the top byte that are below the degree. -/
  hashMask : UInt8
  hashMask_lt : hashMask.toNat < 2 ^ (curve.field.degree - 8 * (curve.scalarBytes - 1))
  degree_le : 8 * (curve.scalarBytes - 1) ≤ curve.field.degree
  scalarBytes_pos : 0 < curve.scalarBytes
  truncate : Vector UInt8 curve.scalarBytes → Vector UInt8 curve.scalarBytes
  /-- `s*G + r*Q`; the first argument is the build. -/
  combine : (smallTables clmul : Bool) → (g : Point curve) → (s : Vector UInt8 curve.scalarBytes) →
    (q : Point curve) → (r : Vector UInt8 curve.scalarBytes) → Point curve

/-- `truncate_162`, of the bytes of an element. -/
def truncate162 (bytes : Vector UInt8 21) : Vector UInt8 21 := bytes.set 0 (bytes[0] &&& 0x03)

/-- `truncate_255`, of the bytes of an element. -/
def truncate255 (bytes : Vector UInt8 33) : Vector UInt8 33 :=
  let bytes := bytes.set 0 0
  bytes.set 1 (bytes[1] &&& 0x7F)

/-- `signature.rs`. -/
def signature163 : SignatureParams where
  curve := params163
  scalarLimbs := 3
  order := Dstu4145.order163
  scalarFits := by decide
  orderPos := by decide
  headroom := by decide +kernel
  hashMask := 0x07
  hashMask_lt := by decide
  degree_le := by decide
  scalarBytes_pos := by decide
  truncate := truncate162
  combine := fun smallTables clmul => verifyCombine clmul smallTables

/-- `signature257.rs`: there is one build. -/
def signature257 : SignatureParams where
  curve := params257
  scalarLimbs := 5
  order := Dstu4145.order257
  scalarFits := by decide
  orderPos := by decide
  headroom := by decide +kernel
  hashMask := 0x01
  hashMask_lt := by decide
  degree_le := by decide
  scalarBytes_pos := by decide
  truncate := truncate255
  combine := fun _ clmul g s q r => (g.scalarMultiply clmul s).add clmul (q.scalarMultiply clmul r)

/-- The two modules. -/
def signatureParams : Dstu4145.Curve → SignatureParams
  | .m163 => signature163
  | .m257 => signature257

namespace SignatureParams

/-- The scalars. -/
@[reducible] def group (S : SignatureParams) : GroupOrder where
  limbs := S.scalarLimbs
  scalarBytes := S.curve.scalarBytes
  order := S.order
  fits := S.scalarFits
  pos := S.orderPos
  headroom := S.headroom

/-- A coordinate, `r` or `s`. -/
abbrev Bytes (S : SignatureParams) := Vector UInt8 S.curve.scalarBytes

variable (S : SignatureParams)

/-- `FieldElement::from_be_bytes`. -/
def elementFromBeBytes (bytes : S.Bytes) : FieldElement S.curve :=
  limbsFromBeBytes S.curve.field.limbs S.curve.fits bytes

/-- `FieldElement::to_be_bytes`. -/
def elementToBeBytes (x : FieldElement S.curve) : S.Bytes :=
  limbsToBeBytes S.curve.scalarBytes S.curve.fits x

/-- The last bytes of the hash, zeros in front. -/
def hashTail (hash : List UInt8) : S.Bytes :=
  let take := min hash.length S.curve.scalarBytes
  ⟨(List.replicate (S.curve.scalarBytes - take) 0 ++ hash.drop (hash.length - take)).toArray, by
    simp [take]
    omega⟩

/-- The bytes of `hash_to_field`. -/
def hashBytes (hash : List UInt8) : S.Bytes :=
  let take := min hash.length S.curve.scalarBytes
  let bytes := S.hashTail hash
  if take = S.curve.scalarBytes then
    bytes.set 0 (getElem bytes 0 S.scalarBytes_pos &&& S.hashMask) S.scalarBytes_pos
  else bytes

/-- `hash_to_field`. -/
def hashToField (hash : List UInt8) : FieldElement S.curve :=
  S.elementFromBeBytes (S.hashBytes hash)

/-- The element that signs for a hash: one in the place of zero. -/
def hashElement (hash : List UInt8) : FieldElement S.curve :=
  let h := S.hashToField hash
  if h = S.curve.field.zero then S.curve.field.one else h

/-- `is_zero`. -/
def isZero (bytes : S.Bytes) : Bool := bytes.all fun b => b == 0

/-- `less_than`. -/
def lessThan (a b : S.Bytes) : Bool := decide (a < b)

variable (clmul : Bool)

/-- The check of a public key in `verify`. -/
def usableKey (q : Point S.curve) : Bool :=
  q.isOnCurve clmul && q.scalarMultiply clmul S.order == .infinity

/-- `verify`. -/
def verify (smallTables : Bool) (hash : List UInt8) (r s : S.Bytes) (q g : Point S.curve) : Bool :=
  let n := S.order
  if S.isZero r || S.isZero s || !S.lessThan r n || !S.lessThan s n then false
  else if !S.usableKey clmul q then false
  else
    let h := S.hashElement hash
    match S.combine smallTables clmul g s q r with
    | .infinity => false
    | .affine rx _ =>
      let y := S.curve.field.multiply clmul h rx
      S.truncate (S.elementToBeBytes y) == r

/-- `sign`. -/
def sign (hash : List UInt8) (d e : Scalar S.group) (g : Point S.curve) :
    Option (S.Bytes × S.Bytes) :=
  let h := S.hashElement hash
  match g.scalarMultiply clmul e.toBeBytes with
  | .infinity => none
  | .affine feX _ =>
    if feX = S.curve.field.zero then none
    else
      let y := S.curve.field.multiply clmul h feX
      let rBytes := S.truncate (S.elementToBeBytes y)
      if S.isZero rBytes then none
      else
        let r : Scalar S.group := Scalar.fromBeBytes S.scalarFits rBytes
        let s := r.multiply d + e
        if s.isZero then none else some (rBytes, s.toBeBytes)

/-! ## Byte strings -/

theorem isZero_iff (bytes : S.Bytes) : S.isZero bytes = true ↔ beNat bytes.toList = 0 := by
  have hzero : S.isZero bytes = true ↔ bytes = Vector.replicate _ 0 := by
    rw [isZero, Vector.all_eq_true_iff_forall_mem, Vector.eq_replicate_iff]
    simp
  rw [hzero]
  refine ⟨fun h => by rw [h, beNat_replicate_zero], fun h => beNat_injective ?_⟩
  rw [h, beNat_replicate_zero]

theorem isZero_eq_false_iff (bytes : S.Bytes) : S.isZero bytes = false ↔ 0 < beNat bytes.toList := by
  rw [← Bool.not_eq_true, isZero_iff, Nat.pos_iff_ne_zero]

theorem lessThan_iff (a b : S.Bytes) :
    S.lessThan a b = true ↔ beNat a.toList < beNat b.toList := by
  rw [lessThan, decide_eq_true_eq, ← Vector.lt_toList]
  exact lt_iff_beNat_lt (by simp)

variable {S} in
theorem canonical_elementFromBeBytes {bytes : S.Bytes} :
    Canonical (S.elementFromBeBytes bytes) ↔ beNat bytes.toList < 2 ^ S.curve.field.degree := by
  rw [canonical_iff_value_lt, elementFromBeBytes, value_limbsFromBeBytes]

variable {S} in
/-- A canonical element fits its bytes. -/
theorem elementFromBeBytes_elementToBeBytes {x : FieldElement S.curve} (hx : Canonical x) :
    S.elementFromBeBytes (S.elementToBeBytes x) = x := by
  have hlt := (canonical_iff_value_lt x).mp hx
  have hbits : 2 ^ S.curve.field.degree ≤ 256 ^ S.curve.scalarBytes := by
    rw [show 256 = 2 ^ 8 from rfl, ← Nat.pow_mul]
    exact Nat.pow_le_pow_right (by decide) S.curve.bits
  apply value_injective
  rw [elementFromBeBytes, value_limbsFromBeBytes, elementToBeBytes, beNat_limbsToBeBytes]
  exact Nat.mod_eq_of_lt (Nat.lt_of_lt_of_le hlt hbits)

/-- The first byte and the rest. -/
theorem beNat_set_zero {m : Nat} (v : Vector UInt8 m) (h : 0 < m) :
    ∃ rest, rest < 256 ^ (m - 1)
      ∧ ∀ byte, beNat (v.set 0 byte h).toList = byte.toNat * 256 ^ (m - 1) + rest := by
  obtain ⟨b, l, hl⟩ : ∃ b l, v.toList = b :: l :=
    List.exists_cons_of_length_pos (by simpa using h)
  have hlen : l.length = m - 1 := by
    have hlength := congrArg List.length hl
    rw [Vector.length_toList, List.length_cons] at hlength
    omega
  refine ⟨beNat l, hlen ▸ beNat_lt l, fun byte => ?_⟩
  rw [Vector.toList_set, hl, List.set_cons_zero, beNat_cons, hlen]

theorem beNat_zeros_append (k : Nat) (l : List UInt8) :
    beNat (List.replicate k 0 ++ l) = beNat l := by
  induction k with
  | zero => rfl
  | succ k ih =>
    have hzero : (0 : UInt8).toNat = 0 := rfl
    rw [List.replicate_succ, List.cons_append, beNat_cons, ih, hzero, Nat.zero_mul, Nat.zero_add]

/-- Whatever the hash, its bytes are below the degree. -/
theorem beNat_hashBytes_lt (hash : List UInt8) :
    beNat (S.hashBytes hash).toList < 2 ^ S.curve.field.degree := by
  have hdegree := S.degree_le
  have hpos := S.scalarBytes_pos
  have hpow : (256 : Nat) ^ (S.curve.scalarBytes - 1) = 2 ^ (8 * (S.curve.scalarBytes - 1)) :=
    (Nat.pow_mul 2 8 _).symm
  rw [hashBytes]
  split
  · obtain ⟨rest, hrest, hset⟩ := beNat_set_zero (S.hashTail hash) hpos
    have hand : ((S.hashTail hash)[0] &&& S.hashMask).toNat + 1
        ≤ 2 ^ (S.curve.field.degree - 8 * (S.curve.scalarBytes - 1)) := by
      rw [UInt8.toNat_and]
      exact Nat.lt_of_le_of_lt Nat.and_le_right S.hashMask_lt
    have hmul := Nat.mul_le_mul_right (2 ^ (8 * (S.curve.scalarBytes - 1))) hand
    rw [Nat.succ_mul, ← Nat.pow_add, Nat.sub_add_cancel hdegree] at hmul
    rw [hpow] at hrest
    rw [hset, hpow]
    omega
  · rename_i htake
    have hlt := beNat_lt (hash.drop (hash.length - min hash.length S.curve.scalarBytes))
    have hlength : (hash.drop (hash.length - min hash.length S.curve.scalarBytes)).length
        ≤ S.curve.scalarBytes - 1 := by
      rw [List.length_drop]
      omega
    have hle := Nat.pow_le_pow_right (show 0 < 256 by decide) hlength
    have hdeg := Nat.pow_le_pow_right (show 0 < 2 by decide) hdegree
    rw [hashTail, Vector.toList_mk, beNat_zeros_append]
    rw [hpow] at hle
    omega

/-! ## What a signature rests on -/

/-- The base point has a prime order, which is below the degree; `r` is below it; and the
combination is the sum of the multiples. -/
structure Sound : Prop where
  prime : S.group.nat.Prime
  order_lt : S.group.nat < 2 ^ S.curve.field.degree
  base : ∃ G : Group S.curve, Represents (Point.generator S.curve) G ∧ addOrderOf G = S.group.nat
  truncate_lt (bytes : S.Bytes) : beNat (S.truncate bytes).toList < S.group.nat
  combine_represents (smallTables clmul : Bool) {g q : Point S.curve} {G H : Group S.curve}
    (hg : Represents g G) (hq : Represents q H) {s r : S.Bytes}
    (hs : beNat s.toList < 2 ^ S.curve.field.degree)
    (hr : beNat r.toList < 2 ^ S.curve.field.degree) :
    Represents (S.combine smallTables clmul g s q r) (beNat s.toList • G + beNat r.toList • H)

theorem truncate162_lt (bytes : Vector UInt8 21) :
    beNat (truncate162 bytes).toList < Dstu4145.curve163.nat := by
  obtain ⟨rest, hrest, hset⟩ := beNat_set_zero bytes (by decide)
  have hle : 2 ^ 162 ≤ Dstu4145.curve163.nat := by decide +kernel
  have hand : (bytes[0] &&& 0x03).toNat ≤ 3 := by
    rw [UInt8.toNat_and]
    exact Nat.and_le_right
  have hmul := Nat.mul_le_mul_right (256 ^ 20) hand
  rw [truncate162, hset]
  omega

theorem truncate255_lt (bytes : Vector UInt8 33) :
    beNat (truncate255 bytes).toList < Dstu4145.curve257.nat := by
  obtain ⟨b₀, rest, hl⟩ : ∃ b₀ rest, bytes.toList = b₀ :: rest :=
    List.exists_cons_of_length_pos (by simp)
  obtain ⟨b₁, rest, rfl⟩ : ∃ b₁ rest', rest = b₁ :: rest' := by
    refine List.exists_cons_of_length_pos ?_
    have hlength := congrArg List.length hl
    rw [Vector.length_toList, List.length_cons] at hlength
    omega
  have hlen : rest.length = 31 := by
    have hlength := congrArg List.length hl
    rw [Vector.length_toList, List.length_cons, List.length_cons] at hlength
    omega
  have hle : 2 ^ 255 ≤ Dstu4145.curve257.nat := by decide +kernel
  have hand : ((bytes.set 0 0)[1] &&& 0x7F).toNat ≤ 127 := by
    rw [UInt8.toNat_and]
    exact Nat.and_le_right
  have hmul := Nat.mul_le_mul_right (256 ^ 31) hand
  have hrest := beNat_lt rest
  have hzero : (0 : UInt8).toNat = 0 := rfl
  rw [hlen] at hrest
  rw [truncate255, Vector.toList_set, Vector.toList_set, hl, List.set_cons_zero,
    List.set_cons_succ, List.set_cons_zero, beNat_cons, beNat_cons, hlen, hzero]
  omega

theorem sound163 : signature163.Sound where
  prime := CurvePoint.order_prime .m163
  order_lt := CurvePoint.order_lt .m163
  base := addOrderOf_base .m163
  truncate_lt := truncate162_lt
  combine_represents := fun smallTables clmul _ _ _ _ hg hq _ _ hs hr =>
    verifyCombine_represents clmul smallTables hg hq hs hr

theorem sound257 : signature257.Sound where
  prime := CurvePoint.order_prime .m257
  order_lt := CurvePoint.order_lt .m257
  base := addOrderOf_base .m257
  truncate_lt := truncate255_lt
  combine_represents := fun _ clmul _ _ _ _ hg hq _ _ hs hr =>
    add_represents clmul (scalarMultiply_represents clmul hg hs)
      (scalarMultiply_represents clmul hq hr)

theorem sound (curve : Dstu4145.Curve) : (signatureParams curve).Sound := by
  cases curve with
  | m163 => exact sound163
  | m257 => exact sound257

/-! ## Keys -/

variable {S}

/-- The check of a key accepts the points of the order `n`, in canonical coordinates. -/
theorem Sound.usableKey_iff (h : S.Sound) (q : Point S.curve) :
    S.usableKey clmul q = true ↔ ∃ H : Group S.curve, Represents q H ∧ addOrderOf H = S.group.nat := by
  rw [usableKey, Bool.and_eq_true, isOnCurve_iff, beq_iff_eq]
  constructor
  · rintro ⟨⟨hne, H, hH⟩, hmul⟩
    have hmultiple := scalarMultiply_represents clmul hH h.order_lt
    have : Fact S.group.nat.Prime := ⟨h.prime⟩
    exact ⟨H, hH, addOrderOf_eq_prime (hmultiple.eq_infinity_iff.mp hmul)
      (mt hH.eq_infinity_iff.mpr hne)⟩
  · rintro ⟨H, hH, horder⟩
    have hmultiple := scalarMultiply_represents clmul hH h.order_lt
    have hne : H ≠ 0 := by
      rintro rfl
      rw [addOrderOf_zero] at horder
      exact h.prime.one_lt.ne horder
    refine ⟨⟨mt hH.eq_infinity_iff.mp hne, H, hH⟩, hmultiple.eq_infinity_iff.mpr ?_⟩
    have hzero := addOrderOf_nsmul_eq_zero H
    rw [horder] at hzero
    exact hzero

/-- The range check of `verify`. -/
theorem rangeCheck_iff (r s : S.Bytes) :
    (S.isZero r || S.isZero s || !S.lessThan r S.order || !S.lessThan s S.order) = false ↔
      (0 < beNat r.toList ∧ beNat r.toList < S.group.nat)
        ∧ (0 < beNat s.toList ∧ beNat s.toList < S.group.nat) := by
  rw [Bool.or_eq_false_iff, Bool.or_eq_false_iff, Bool.or_eq_false_iff, Bool.not_eq_false',
    Bool.not_eq_false', isZero_eq_false_iff, isZero_eq_false_iff, lessThan_iff, lessThan_iff]
  constructor
  · rintro ⟨⟨⟨hr, hs⟩, hrn⟩, hsn⟩
    exact ⟨⟨hr, hrn⟩, hs, hsn⟩
  · rintro ⟨⟨hr, hrn⟩, hs, hsn⟩
    exact ⟨⟨⟨hr, hs⟩, hrn⟩, hsn⟩

/-- What `verify` accepts. -/
theorem verify_eq_true_iff {smallTables : Bool} {hash : List UInt8} {r s : S.Bytes}
    {q g : Point S.curve} :
    S.verify clmul smallTables hash r s q g = true ↔
      ((0 < beNat r.toList ∧ beNat r.toList < S.group.nat)
        ∧ (0 < beNat s.toList ∧ beNat s.toList < S.group.nat))
      ∧ S.usableKey clmul q = true
      ∧ ∃ rx ry, S.combine smallTables clmul g s q r = .affine rx ry
        ∧ S.truncate (S.elementToBeBytes (S.curve.field.multiply clmul (S.hashElement hash) rx))
          = r := by
  rw [verify, ← rangeCheck_iff]
  split
  · rename_i hrange
    simp [hrange]
  · rename_i hrange
    rw [Bool.not_eq_true] at hrange
    split
    · rename_i hkey
      rw [Bool.not_eq_true'] at hkey
      simp [hkey]
    · rename_i hkey
      rw [Bool.not_eq_true', Bool.not_eq_false] at hkey
      dsimp only
      split
      · rename_i hinfinity
        simp [hinfinity]
      · rename_i rx ry haffine
        simp [hrange, hkey, haffine]

/-! ## Signing -/

/-- The two multiplications agree on canonical elements. -/
theorem multiply_build (clmul clmul' : Bool) {a b : FieldElement S.curve} (ha : Canonical a)
    (hb : Canonical b) :
    S.curve.field.multiply clmul a b = S.curve.field.multiply clmul' a b := by
  refine toField_injective (canonical_multiply clmul ha hb) (canonical_multiply clmul' ha hb) ?_
  rw [toField_multiply clmul ha hb, toField_multiply clmul' ha hb]

/-- The hash of a message gives a canonical element, which is not zero. -/
theorem canonical_hashElement (hash : List UInt8) : Canonical (S.hashElement hash) := by
  rw [hashElement]
  split
  · exact canonical_one
  · exact canonical_elementFromBeBytes.mpr (S.beNat_hashBytes_lt hash)

/-- `s*G + r*Q` is `e*G` for the key `Q = -d*G`. -/
theorem combination_eq {A : Type*} [AddCommGroup A] {G : A} {n : Nat} (hn : addOrderOf G = n)
    {d e r s : Nat} (hs : s = (r * d % n + e) % n) : s • G + r • -(d • G) = e • G := by
  have hmod (k : Nat) : (k % n) • G = k • G := by rw [← hn, mod_addOrderOf_nsmul]
  rw [hs, hmod, add_nsmul, hmod, smul_neg, smul_smul]
  abel

/-- What `sign` answers with. -/
theorem sign_eq_some_iff {hash : List UInt8} {d e : Scalar S.group} {g : Point S.curve}
    {r s : S.Bytes} :
    S.sign clmul hash d e g = some (r, s) ↔
      ∃ x y, g.scalarMultiply clmul e.toBeBytes = .affine x y ∧ x ≠ S.curve.field.zero
        ∧ S.truncate (S.elementToBeBytes (S.curve.field.multiply clmul (S.hashElement hash) x)) = r
        ∧ S.isZero r = false
        ∧ ((Scalar.fromBeBytes S.scalarFits r : Scalar S.group).multiply d + e).isZero = false
        ∧ ((Scalar.fromBeBytes S.scalarFits r : Scalar S.group).multiply d + e).toBeBytes = s := by
  rw [sign]
  dsimp only
  constructor
  · intro h
    split at h
    · cases h
    · rename_i x y hpoint
      split at h
      · cases h
      · rename_i hx
        split at h
        · cases h
        · rename_i hr
          split at h
          · cases h
          · rename_i hs
            obtain ⟨rfl, rfl⟩ := Prod.mk.inj (Option.some.inj h)
            exact ⟨x, y, hpoint, hx, rfl, Bool.eq_false_of_not_eq_true hr,
              Bool.eq_false_of_not_eq_true hs, rfl⟩
  · rintro ⟨x, y, hpoint, hx, rfl, hr, hs, rfl⟩
    rw [hpoint]
    simp [hx, hr, hs]

/-- The scalar `s` of a signature, as a number. -/
theorem toNat_answer {d e : Scalar S.group} (he : e.toNat < S.group.nat) (r : S.Bytes) :
    ((Scalar.fromBeBytes S.scalarFits r : Scalar S.group).multiply d + e).toNat
      = (beNat r.toList * d.toNat % S.group.nat + e.toNat) % S.group.nat := by
  have hproduct := Scalar.toNat_multiply (Scalar.fromBeBytes S.scalarFits r : Scalar S.group) d
  rw [Scalar.toNat_fromBeBytes] at hproduct
  rw [Scalar.toNat_add _ he, hproduct]
  rw [hproduct]
  exact Nat.mod_lt _ S.group.pos

/-- A nonzero multiple of the base point below the order is not zero. -/
theorem nsmul_ne_zero_of_lt {A : Type*} [AddCommGroup A] {G : A} {n k : Nat}
    (hn : addOrderOf G = n) (hpos : 1 ≤ k) (hlt : k < n) : k • G ≠ 0 := by
  intro hzero
  have hdvd := addOrderOf_dvd_iff_nsmul_eq_zero.mpr hzero
  rw [hn] at hdvd
  exact Nat.not_lt_of_le (Nat.le_of_dvd hpos hdvd) hlt

/-- `verify` accepts what `sign` answers with, whichever multiplication either runs on. -/
theorem Sound.sign_verify (h : S.Sound) (verifier smallTables : Bool) {hash : List UInt8}
    {d e : Scalar S.group} (hd : 1 ≤ d.toNat ∧ d.toNat < S.group.nat)
    (he : 1 ≤ e.toNat ∧ e.toNat < S.group.nat) {r s : S.Bytes}
    (hsign : S.sign clmul hash d e (Point.generator S.curve) = some (r, s)) :
    ((0 < beNat r.toList ∧ beNat r.toList < S.group.nat)
        ∧ (0 < beNat s.toList ∧ beNat s.toList < S.group.nat))
      ∧ S.verify verifier smallTables hash r s
          ((Point.generator S.curve).scalarMultiply clmul d.toBeBytes).negate
          (Point.generator S.curve) = true := by
  obtain ⟨x, y, hpoint, -, hr, hrpos, hspos, hs⟩ := (sign_eq_some_iff clmul).mp hsign
  rw [isZero_eq_false_iff] at hrpos
  rw [Bool.eq_false_iff, Ne, Scalar.isZero_iff] at hspos
  obtain ⟨G, hG, hn⟩ := h.base
  have hanswer := toNat_answer (d := d) he.2 r
  have hslt : ((Scalar.fromBeBytes S.scalarFits r : Scalar S.group).multiply d + e).toNat
      < S.group.nat := by
    rw [hanswer]
    exact Nat.mod_lt _ S.group.pos
  have hsval := Scalar.beNat_toBeBytes hslt
  rw [hs] at hsval
  have hrlt : beNat r.toList < S.group.nat := by
    rw [← hr]
    exact h.truncate_lt _
  have hrange : (0 < beNat r.toList ∧ beNat r.toList < S.group.nat)
      ∧ (0 < beNat s.toList ∧ beNat s.toList < S.group.nat) := by
    refine ⟨⟨hrpos, hrlt⟩, ?_, ?_⟩
    · rw [hsval]
      exact Nat.pos_of_ne_zero hspos
    · rwa [hsval]
  -- the key is the point `-(d*G)`, of the order `n`
  have hkey : Represents ((Point.generator S.curve).scalarMultiply clmul d.toBeBytes).negate
      (-(d.toNat • G)) := by
    have hmultiple := scalarMultiply_represents clmul hG (k := d.toBeBytes) (by
      rw [Scalar.beNat_toBeBytes hd.2]
      exact Nat.lt_trans hd.2 h.order_lt)
    rw [Scalar.beNat_toBeBytes hd.2] at hmultiple
    exact negate_represents hmultiple
  have hkeyOrder : addOrderOf (-(d.toNat • G)) = S.group.nat := by
    have : Fact S.group.nat.Prime := ⟨h.prime⟩
    refine addOrderOf_eq_prime ?_ (neg_ne_zero.mpr (nsmul_ne_zero_of_lt hn hd.1 hd.2))
    rw [neg_nsmul, nsmul_left_comm, ← hn, addOrderOf_nsmul_eq_zero, nsmul_zero, neg_zero]
  -- both sides compute the point `e*G`
  have hsum := h.combine_represents smallTables verifier hG hkey
    (Nat.lt_trans hrange.2.2 h.order_lt) (Nat.lt_trans hrlt h.order_lt)
  rw [combination_eq hn (hsval.trans hanswer)] at hsum
  have hnonce := scalarMultiply_represents clmul hG (k := e.toBeBytes) (by
    rw [Scalar.beNat_toBeBytes he.2]
    exact Nat.lt_trans he.2 h.order_lt)
  rw [Scalar.beNat_toBeBytes he.2, hpoint] at hnonce
  have hcombine := hsum.unique hnonce
  refine ⟨hrange, (verify_eq_true_iff verifier).mpr ⟨hrange, ?_, x, y, hcombine, ?_⟩⟩
  · exact (h.usableKey_iff verifier _).mpr ⟨_, hkey, hkeyOrder⟩
  · have hx : Canonical x := by
      cases hnonce with
      | affine hx _ _ => exact hx
    rw [multiply_build verifier clmul (canonical_hashElement hash) hx]
    exact hr

end SignatureParams

/-- The scalar one. -/
def one163 : Scalar signature163.group := Scalar.fromBeBytes (by decide) (#v[1] : Vector UInt8 1)

/-- The hash that is all zeros, signed with the key and the nonce one. -/
def signed163 : signature163.Bytes × signature163.Bytes :=
  let r := truncate162 params163.gxBytes
  let rScalar : Scalar signature163.group := Scalar.fromBeBytes signature163.scalarFits r
  (r, (rScalar.multiply one163 + one163).toBeBytes)

/-- The hash of `signed163`. -/
def hash163 : List UInt8 := List.replicate 32 0

theorem scalarMultiply_one163 : (Point.generator params163).scalarMultiply true one163.toBeBytes
    = Point.generator params163 := by
  obtain ⟨G, hG, -⟩ := SignatureParams.sound163.base
  exact scalarMultiply_one true hG (by decide +kernel)

theorem sign_one163 :
    signature163.sign true hash163 one163 one163 (Point.generator params163) = some signed163 := by
  have hx : (limbsFromBeBytes params163.field.limbs params163.fits params163.gxBytes
      : FieldElement params163) ≠ params163.field.zero := by decide +kernel
  have hr : truncate162 (limbsToBeBytes 21 params163.fits (params163.field.multiply true
      (signature163.hashElement hash163) (limbsFromBeBytes params163.field.limbs params163.fits
        params163.gxBytes))) = truncate162 params163.gxBytes := by decide +kernel
  exact (SignatureParams.sign_eq_some_iff true).mpr
    ⟨_, _, scalarMultiply_one163, hx, hr, by decide +kernel, by decide +kernel, rfl⟩

theorem verify_one163 : signature163.verify true false hash163 signed163.1 signed163.2
    (Point.generator params163).negate (Point.generator params163) = true := by
  have hverify : signature163.verify true false hash163 signed163.1 signed163.2
      ((Point.generator params163).scalarMultiply true one163.toBeBytes).negate
      (Point.generator params163) = true :=
    (SignatureParams.sound163.sign_verify true true false (by decide +kernel) (by decide +kernel)
      sign_one163).2
  rwa [scalarMultiply_one163] at hverify

/-- **Signatures verify**: on both curves, for every hash, private scalar and nonce, whichever
multiplication the two sides run on and in either build. -/
theorem signatures_verify (curve : Dstu4145.Curve) (signer verifier smallTables : Bool)
    (hash : List UInt8) (d e : Scalar (signatureParams curve).group)
    (r s : (signatureParams curve).Bytes)
    (hd : 1 ≤ d.toNat ∧ d.toNat < (signatureParams curve).group.nat)
    (he : 1 ≤ e.toNat ∧ e.toNat < (signatureParams curve).group.nat)
    (hsign : (signatureParams curve).sign signer hash d e
      (Point.generator (signatureParams curve).curve) = some (r, s)) :
    0 < beNat r.toList ∧ beNat r.toList < (signatureParams curve).group.nat
      ∧ 0 < beNat s.toList ∧ beNat s.toList < (signatureParams curve).group.nat
      ∧ (signatureParams curve).verify verifier smallTables hash r s
        ((Point.generator (signatureParams curve).curve).scalarMultiply signer d.toBeBytes).negate
        (Point.generator (signatureParams curve).curve) = true := by
  obtain ⟨⟨⟨hr, hrn⟩, hs, hsn⟩, hverify⟩ :=
    (SignatureParams.sound curve).sign_verify signer verifier smallTables hd he hsign
  exact ⟨hr, hrn, hs, hsn, hverify⟩

/-- The signature with the key and the nonce one. -/
theorem signatures_verify_one163 :
    0 < beNat signed163.1.toList ∧ beNat signed163.1.toList < signature163.group.nat
      ∧ 0 < beNat signed163.2.toList ∧ beNat signed163.2.toList < signature163.group.nat
      ∧ signature163.verify true false hash163 signed163.1 signed163.2
        ((Point.generator params163).scalarMultiply true one163.toBeBytes).negate
        (Point.generator params163) = true :=
  signatures_verify .m163 true true false hash163 one163 one163 signed163.1 signed163.2
    (by decide +kernel) (by decide +kernel) sign_one163

end UaCrypt.Hazmat.Signature
