import UaCrypt.Hazmat.Gf2mCurveField
import UaCrypt.Lib.BinaryCurve

/-!
# The binary curves (`dstu4145/curve163.rs`, `dstu4145/curve257.rs`)

Points of `y^2 + xy = x^3 + a*x^2 + b`, with `a = 1` over GF(2^163) and `a = 0` over GF(2^257).
The two modules are one code but for the terms with `a`, which `curve257` does not write.

- `Represents P G`: the point `P` of the code is the point `G` of the curve's group.
- `double_represents`, `add_represents`: the affine operations are the group law.
- `Holds`: what the ladder of `scalarMultiply` keeps.
- `scalar_multiply_is_group_action`: the ladder is repeated addition, on every curve point.
-/

namespace UaCrypt.Hazmat.CurvePoint

open BinaryIrreducible (modulus)
open Gf2mCurve Gf2mCurve.Reduction Limb Limbs

/-- What the two curve modules differ in. -/
structure CurveParams where
  field : CurveField
  scalarBytes : Nat
  /-- The coefficient `b` and the base point, big-endian. -/
  bBytes : Vector UInt8 scalarBytes
  gxBytes : Vector UInt8 scalarBytes
  gyBytes : Vector UInt8 scalarBytes
  /-- `a = 1`, or `a = 0` and its terms not written. -/
  aIsOne : Bool
  fits : scalarBytes ≤ 8 * field.limbs
  bits : field.degree ≤ 8 * scalarBytes
  b_canonical : field.isCanonical (limbsFromBeBytes field.limbs fits bBytes) = true
  b_ne_zero : limbsFromBeBytes field.limbs fits bBytes ≠ field.zero

theorem CurveParams.bit_lt (c : CurveParams) (i : Fin c.field.degree) :
    i.val < 8 * c.scalarBytes := Nat.lt_of_lt_of_le i.isLt c.bits

def params163 : CurveParams where
  field := field163
  scalarBytes := 21
  bBytes := #v[
    0x05, 0xFF, 0x61, 0x08, 0x46, 0x2A, 0x2D, 0xC8, 0x21, 0x0A, 0xB4, 0x03, 0x92, 0x5E, 0x63,
    0x8A, 0x19, 0xC1, 0x45, 0x5D, 0x21]
  gxBytes := #v[
    0x07, 0x2D, 0x86, 0x7F, 0x93, 0xA9, 0x3A, 0xC2, 0x7D, 0xF9, 0xFF, 0x01, 0xAF, 0xFE, 0x74,
    0x88, 0x5C, 0x8C, 0x54, 0x04, 0x20]
  gyBytes := #v[
    0x00, 0x22, 0x4A, 0x9C, 0x39, 0x47, 0x85, 0x2B, 0x97, 0xC5, 0x59, 0x9D, 0x5F, 0x4A, 0xB8,
    0x11, 0x22, 0xAD, 0xC3, 0xFD, 0x9B]
  aIsOne := true
  fits := by decide
  bits := by decide
  b_canonical := by decide
  b_ne_zero := by decide

def params257 : CurveParams where
  field := field257
  scalarBytes := 33
  bBytes := #v[
    0x01, 0xCE, 0xF4, 0x94, 0x72, 0x01, 0x15, 0x65, 0x7E, 0x18, 0xF9, 0x38, 0xD7, 0xA7, 0x94,
    0x23, 0x94, 0xFF, 0x94, 0x25, 0xC1, 0x45, 0x8C, 0x57, 0x86, 0x1F, 0x9E, 0xEA, 0x6A, 0xDB,
    0xE3, 0xBE, 0x10]
  gxBytes := #v[
    0x00, 0x2A, 0x29, 0xEF, 0x20, 0x7D, 0x0E, 0x9B, 0x6C, 0x55, 0xCD, 0x26, 0x0B, 0x30, 0x6C,
    0x7E, 0x00, 0x7A, 0xC4, 0x91, 0xCA, 0x1B, 0x10, 0xC6, 0x23, 0x34, 0xA9, 0xE8, 0xDC, 0xD8,
    0xD2, 0x0F, 0xB7]
  gyBytes := #v[
    0x01, 0x06, 0x86, 0xD4, 0x1F, 0xF7, 0x44, 0xD4, 0x44, 0x9F, 0xCC, 0xF6, 0xD8, 0xEE, 0xA0,
    0x31, 0x02, 0xE6, 0x81, 0x2C, 0x93, 0xA9, 0xD6, 0x0B, 0x97, 0x8B, 0x70, 0x2C, 0xF1, 0x56,
    0xD8, 0x14, 0xEF]
  aIsOne := false
  fits := by decide
  bits := by decide
  b_canonical := by decide
  b_ne_zero := by decide

/-- The two curves. -/
def params : Dstu4145.Curve → CurveParams
  | .m163 => params163
  | .m257 => params257

variable (c : CurveParams)

/-- A coordinate. -/
abbrev FieldElement := c.field.FieldElement

/-- `b()`. -/
def b : FieldElement c := limbsFromBeBytes c.field.limbs c.fits c.bBytes

/-- `acc + a * t`: `curve163` adds the term, `curve257` does not write it. -/
def plusA (acc t : FieldElement c) : FieldElement c :=
  if c.aIsOne then c.field.add acc t else acc

/-- An affine point, or the point at infinity. -/
inductive Point where
  | infinity
  | affine (x y : FieldElement c)
deriving DecidableEq

variable {c}

/-- `cswap`: the two swapped if `swap` is 1, by a mask. -/
def cswap (swap : UInt64) (a b : FieldElement c) : FieldElement c × FieldElement c :=
  let mask := 0 - swap
  (Vector.ofFn fun i : Fin c.field.limbs => a[i] ^^^ (mask &&& (a[i] ^^^ b[i])),
    Vector.ofFn fun i : Fin c.field.limbs => b[i] ^^^ (mask &&& (a[i] ^^^ b[i])))

/-- `is_zero_mask`: all ones if every limb is zero, else all zeros. -/
def isZeroMask (a : FieldElement c) : UInt64 :=
  let combined := a.foldl (fun acc l => acc ||| l) 0
  let isNonzero := (combined ||| (0 - combined)) >>> 63
  0 - (1 ^^^ isNonzero)

/-- `select`: `ifMask` where the mask is all ones, `otherwise` where it is all zeros. -/
def select (mask : UInt64) (ifMask otherwise : FieldElement c) : FieldElement c :=
  Vector.ofFn fun i : Fin c.field.limbs => otherwise[i] ^^^ (mask &&& (ifMask[i] ^^^ otherwise[i]))

/-- `bit_at`: bit `i` of a big-endian scalar. -/
def bitAt (k : Vector UInt8 c.scalarBytes) (i : Nat) (h : i < 8 * c.scalarBytes) : UInt64 :=
  (((k[c.scalarBytes - 1 - i / 8]) >>> UInt8.ofNat (i % 8)) &&& 1).toUInt64

/-- The four coordinates of the ladder. -/
structure Ladder (c : CurveParams) where
  x1 : FieldElement c
  z1 : FieldElement c
  x2 : FieldElement c
  z2 : FieldElement c

namespace Point

variable (clmul : Bool)

variable (c) in
/-- `generator`. -/
def generator : Point c :=
  affine (limbsFromBeBytes c.field.limbs c.fits c.gxBytes)
    (limbsFromBeBytes c.field.limbs c.fits c.gyBytes)

/-- `negate`. -/
def negate : Point c → Point c
  | infinity => infinity
  | affine x y => affine x (c.field.add x y)

/-- `is_on_curve`: canonical coordinates that satisfy the equation. -/
def isOnCurve : Point c → Bool
  | infinity => false
  | affine x y =>
    if !c.field.isCanonical x || !c.field.isCanonical y then false
    else
      let lhs := c.field.add (c.field.square y) (c.field.multiply clmul x y)
      let rhs := c.field.add
        (plusA c (c.field.multiply clmul x (c.field.square x)) (c.field.square x)) (b c)
      lhs == rhs

/-- `double`. -/
def double : Point c → Point c
  | infinity => infinity
  | affine x1 y1 =>
    if x1 = c.field.zero then infinity
    else
      let lambda := c.field.add x1 (c.field.multiply clmul y1 (c.field.invert clmul x1))
      let x3 := plusA c (c.field.add (c.field.square lambda) lambda) c.field.one
      let y3 := c.field.add (c.field.square x1)
        (c.field.multiply clmul (c.field.add lambda c.field.one) x3)
      affine x3 y3

/-- `add`. -/
def add : Point c → Point c → Point c
  | infinity, q => q
  | p, infinity => p
  | affine x1 y1, affine x2 y2 =>
    if x1 = x2 then
      if y1 = y2 then double clmul (affine x1 y1) else infinity
    else
      let lambda := c.field.multiply clmul (c.field.add y1 y2)
        (c.field.invert clmul (c.field.add x1 x2))
      let x3 := plusA c
        (c.field.add (c.field.add (c.field.add (c.field.square lambda) lambda) x1) x2) c.field.one
      let y3 := c.field.add
        (c.field.add (c.field.multiply clmul lambda (c.field.add x1 x3)) x3) y1
      affine x3 y3

/-- One turn of the ladder: swap, add and double, swap back. -/
def ladderStep (x : FieldElement c) (bit : UInt64) (s : Ladder c) : Ladder c :=
  let swap := bit ^^^ 1
  let (x1, x2) := cswap swap s.x1 s.x2
  let (z1, z2) := cswap swap s.z1 s.z2
  let t1 := z1
  let z1 := c.field.square
    (c.field.add (c.field.multiply clmul x1 z2) (c.field.multiply clmul x2 z1))
  let x1 := c.field.add (c.field.multiply clmul x z1)
    (c.field.multiply clmul (c.field.multiply clmul (c.field.multiply clmul x1 x2) t1) z2)
  let t2 := x2
  let x2 := c.field.add (c.field.square (c.field.square x2))
    (c.field.multiply clmul (b c) (c.field.square (c.field.square z2)))
  let z2 := c.field.multiply clmul (c.field.square t2) (c.field.square z2)
  let (x1, x2) := cswap swap x1 x2
  let (z1, z2) := cswap swap z1 z2
  ⟨x1, z1, x2, z2⟩

/-- The loop over the bits of `k`, from the top. -/
def ladder (x : FieldElement c) (k : Vector UInt8 c.scalarBytes) : Ladder c :=
  Fin.foldr c.field.degree (fun i s =>
    ladderStep clmul x (bitAt k i.val (c.bit_lt i)) s)
    ⟨c.field.one, c.field.zero, x, c.field.one⟩

/-- What the ladder's end is turned into. -/
def recover (x y : FieldElement c) (s : Ladder c) : Point c :=
  if isZeroMask s.z1 ≠ 0 then infinity
  else
    let x1Affine := c.field.multiply clmul s.x1 (c.field.invert clmul s.z1)
    let x2Affine := c.field.multiply clmul s.x2 (c.field.invert clmul s.z2)
    let t1 := c.field.add x1Affine x
    let t2 := c.field.add x2Affine x
    let inner := c.field.add (c.field.add (c.field.multiply clmul t1 t2) (c.field.square x)) y
    let y1AffineFormula := c.field.add
      (c.field.multiply clmul (c.field.multiply clmul (c.field.invert clmul x) t1) inner) y
    let y1Affine := select (isZeroMask s.z2) (c.field.add x y) y1AffineFormula
    affine x1Affine y1Affine

/-- `scalar_multiply`. -/
def scalarMultiply : Point c → Vector UInt8 c.scalarBytes → Point c
  | infinity, _ => infinity
  | affine x y, k => recover clmul x y (ladder clmul x k)

/-- `P + … + P`, `k` times. -/
def repeatedAdd (P : Point c) : Nat → Point c
  | 0 => infinity
  | k + 1 => add clmul (repeatedAdd P k) P

end Point

/-! ## Masks -/

theorem ones_and (w : UInt64) : ((0 : UInt64) - 1) &&& w = w := by
  have hones : (0 : UInt64) - 1 = -1 := rfl
  rw [hones, UInt64.neg_one_and]

theorem cswap_zero (a b : FieldElement c) : cswap 0 a b = (a, b) := by
  simp [cswap]

theorem cswap_one (a b : FieldElement c) : cswap 1 a b = (b, a) := by
  have hfirst (x y : UInt64) : x ^^^ (x ^^^ y) = y := by
    rw [← UInt64.xor_assoc, UInt64.xor_self, UInt64.zero_xor]
  have hsecond (x y : UInt64) : y ^^^ (x ^^^ y) = x := by
    rw [UInt64.xor_comm x, hfirst]
  simp only [cswap, ones_and, hfirst, hsecond, Prod.mk.injEq]
  exact ⟨Vector.ext fun i hi => by simp, Vector.ext fun i hi => by simp⟩

/-- A word or its negative has its top bit set, unless it is zero. -/
theorem or_neg_shiftRight (w : UInt64) : (w ||| (0 - w)) >>> 63 = if w = 0 then 0 else 1 := by
  apply UInt64.toNat_inj.mp
  rw [toNat_shiftRight_63, top_or]
  split
  · rename_i h
    rw [h]
    rfl
  · rename_i h
    have hne : w.toNat ≠ 0 := fun h0 => h (UInt64.toNat_inj.mp h0)
    have hlt := w.toNat_lt
    have hneg : (0 - w).toNat = 2 ^ 64 - w.toNat := by
      rw [UInt64.toNat_sub]
      have hzero : (0 : UInt64).toNat = 0 := rfl
      rw [hzero]
      omega
    have hone : (1 : UInt64).toNat = 1 := rfl
    rw [top, top, hneg, hone]
    omega

theorem isZeroMask_eq (a : FieldElement c) :
    isZeroMask a = if a = c.field.zero then (0 : UInt64) - 1 else 0 := by
  have hfold := Dstu4145.Scalar.foldl_or_eq_zero a.toList 0
  rw [Vector.foldl_toList] at hfold
  have hzero : a.foldl (fun acc l => acc ||| l) 0 = 0 ↔ a = c.field.zero := by
    rw [hfold, Reduction.zero, Vector.eq_replicate_iff]
    simp
  simp only [isZeroMask, or_neg_shiftRight, hzero]
  split
  · rfl
  · rfl

theorem select_ones (a b : FieldElement c) : select ((0 : UInt64) - 1) a b = a := by
  have hselect (x y : UInt64) : y ^^^ (x ^^^ y) = x := by
    rw [UInt64.xor_comm x, ← UInt64.xor_assoc, UInt64.xor_self, UInt64.zero_xor]
  simp only [select, ones_and, hselect]
  exact Vector.ext fun i hi => by simp

theorem select_zero (a b : FieldElement c) : select 0 a b = b := by
  simp [select]

theorem toNat_bitAt (k : Vector UInt8 c.scalarBytes) {i : Nat} (h : i < 8 * c.scalarBytes) :
    (bitAt k i h).toNat = beNat k.toList / 2 ^ i % 2 := by
  have hindex : i / 8 < k.toList.reverse.length := by
    simp
    omega
  have hbyte := LittleEndian.leNat_shiftRight k.toList.reverse (i / 8) hindex
  have hget : k.toList.reverse[i / 8] = k[c.scalarBytes - 1 - i / 8] := by
    simp
  rw [hget] at hbyte
  have hplace : 2 ^ i = 2 ^ (8 * (i / 8)) * 2 ^ (i % 8) := by
    rw [← Nat.pow_add]
    congr 1
    omega
  have hmod : i % 8 % 2 ^ 8 % 8 = i % 8 := by omega
  rw [bitAt, ← hbyte, ← beNat_eq, UInt8.toNat_toUInt64, UInt8.toNat_and, UInt8.toNat_shiftRight,
    UInt8.toNat_ofNat', UInt8.toNat_ofNat', hmod, Nat.shiftRight_eq_div_pow,
    Nat.shiftRight_eq_div_pow, hplace, ← Nat.div_div_eq_div_mul]
  have hsplit : 2 ^ 8 = 2 ^ (i % 8) * 2 ^ (8 - i % 8) := by
    rw [← Nat.pow_add]
    congr 1
    omega
  have hdvd : 2 ∣ 2 ^ (8 - i % 8) := dvd_pow_self 2 (by omega)
  rw [hsplit, Nat.mod_mul_right_div_self]
  exact (Nat.and_one_is_mod _).trans (Nat.mod_mod_of_dvd _ hdvd)

/-! ## Points of the group -/

section Group

variable (c) in
/-- The field of the coordinates. -/
abbrev K := AdjoinRoot (modulus c.field.degree c.field.terms)

instance fact_irreducible (c : CurveParams) :
    Fact (Irreducible (modulus c.field.degree c.field.terms)) := ⟨c.field.irreducible⟩

noncomputable instance : DecidableEq (K c) := Classical.decEq _

instance : CharP (K c) 2 :=
  charP_of_injective_algebraMap (algebraMap (ZMod 2) (K c)).injective 2

variable (c) in
/-- The coefficient `a`. -/
noncomputable def coeffA : K c := if c.aIsOne then 1 else 0

variable (c) in
/-- The group of the curve. -/
abbrev Group := (BinaryCurve.curve (coeffA c) (toField (b c))).Point

theorem canonical_b : Canonical (b c) := (isCanonical_iff _).mp c.b_canonical

theorem toField_b_ne_zero : toField (b c) ≠ 0 := by
  intro h
  exact c.b_ne_zero (toField_injective canonical_b canonical_zero (h.trans toField_zero.symm))

theorem plusA_spec {acc t : FieldElement c} (hacc : Canonical acc) (ht : Canonical t) :
    Canonical (plusA c acc t) ∧ toField (plusA c acc t) = toField acc + coeffA c * toField t := by
  rw [plusA, coeffA]
  split
  · refine ⟨canonical_add hacc ht, ?_⟩
    rw [toField_add, one_mul]
  · refine ⟨hacc, ?_⟩
    rw [zero_mul, add_zero]

/-- The point `P` of the code is `G`. -/
inductive Represents : Point c → Group c → Prop where
  | infinity : Represents .infinity 0
  | affine {x y G} (hx : Canonical x) (hy : Canonical y)
    (h : BinaryCurve.At G (toField x) (toField y)) : Represents (.affine x y) G

theorem Represents.unique {P Q : Point c} {G : Group c} (hP : Represents P G)
    (hQ : Represents Q G) : P = Q := by
  cases hP with
  | infinity =>
    cases hQ with
    | infinity => rfl
    | affine _ _ h => exact absurd rfl h.ne_zero
  | affine hx hy h =>
    cases hQ with
    | infinity => exact absurd rfl h.ne_zero
    | affine hx' hy' h' =>
      obtain ⟨hxx, hyy⟩ := h.inj h'
      rw [toField_injective hx hx' hxx, toField_injective hy hy' hyy]

theorem Represents.eq_infinity_iff {P : Point c} {G : Group c} (h : Represents P G) :
    P = .infinity ↔ G = 0 := by
  cases h with
  | infinity => simp
  | affine hx hy h => simp [h.ne_zero]

variable (clmul : Bool)

/-- The canonical points of the equation are the points of the group. -/
theorem isOnCurve_iff (P : Point c) :
    P.isOnCurve clmul = true ↔ P ≠ .infinity ∧ ∃ G, Represents P G := by
  cases P with
  | infinity => simp [Point.isOnCurve]
  | affine x y =>
    by_cases hcanonical : Canonical x ∧ Canonical y
    · obtain ⟨hx, hy⟩ := hcanonical
      have hxx := canonical_square hx
      have hxy := canonical_multiply clmul hx hy
      have hxxx := canonical_multiply clmul hx hxx
      obtain ⟨hterm, htermEq⟩ := plusA_spec hxxx hxx
      have hlhs := canonical_add (canonical_square hy) hxy
      have hrhs := canonical_add hterm (canonical_b (c := c))
      have hequation : toField (c.field.add (c.field.square y) (c.field.multiply clmul x y))
            = toField (c.field.add (plusA c (c.field.multiply clmul x (c.field.square x))
              (c.field.square x)) (b c))
          ↔ toField y ^ 2 + toField x * toField y
            = toField x ^ 3 + coeffA c * toField x ^ 2 + toField (b c) := by
        rw [toField_add, toField_square hy, toField_multiply clmul hx hy, toField_add, htermEq,
          toField_multiply clmul hx hxx, toField_square hx, ← pow_succ']
      rw [Point.isOnCurve, if_neg (by simp [isCanonical_iff, hx, hy]), beq_iff_eq]
      refine ⟨fun h => ⟨by simp, ?_⟩, fun ⟨_, G, hG⟩ => ?_⟩
      · obtain ⟨G, hG⟩ := BinaryCurve.exists_at toField_b_ne_zero (hequation.mp (congrArg _ h))
        exact ⟨G, .affine hx hy hG⟩
      · cases hG with
        | affine _ _ h => exact toField_injective hlhs hrhs (hequation.mpr h.equation)
    · have hfalse : Point.isOnCurve clmul (.affine x y) = false := by
        rw [Point.isOnCurve, if_pos]
        rw [Bool.or_eq_true, Bool.not_eq_true', Bool.not_eq_true', ← Bool.not_eq_true,
          ← Bool.not_eq_true, isCanonical_iff, isCanonical_iff]
        exact not_and_or.mp hcanonical
      rw [hfalse]
      refine ⟨fun h => absurd h Bool.false_ne_true, fun ⟨_, G, hG⟩ => ?_⟩
      cases hG with
      | affine hx hy _ => exact absurd ⟨hx, hy⟩ hcanonical

theorem negate_represents {P : Point c} {G : Group c} (h : Represents P G) :
    Represents P.negate (-G) := by
  cases h with
  | infinity =>
    rw [neg_zero]
    exact .infinity
  | affine hx hy h =>
    refine .affine hx (canonical_add hx hy) ?_
    rw [toField_add]
    exact h.neg

theorem double_represents {P : Point c} {G : Group c} (h : Represents P G) :
    Represents (P.double clmul) (G + G) := by
  cases h with
  | infinity =>
    rw [add_zero]
    exact .infinity
  | @affine x y G hx hy h =>
    rw [Point.double]
    split
    · rename_i hzero
      rw [hzero, toField_zero] at h
      rw [h.double_of_zero]
      exact .infinity
    · rename_i hne
      have hx0 : toField x ≠ 0 := fun h0 =>
        hne (toField_injective hx canonical_zero (h0.trans toField_zero.symm))
      obtain ⟨hinv, hinvEq⟩ := c.field.inverts clmul hx
      have hm := canonical_multiply clmul hy hinv
      have hl := canonical_add hx hm
      have hlEq : toField (c.field.add x (c.field.multiply clmul y (c.field.invert clmul x)))
          = toField x + toField y * (toField x)⁻¹ := by
        rw [toField_add, toField_multiply clmul hy hinv, hinvEq]
      generalize c.field.add x (c.field.multiply clmul y (c.field.invert clmul x)) = lambda
        at hl hlEq
      obtain ⟨hx3, hx3Eq⟩ :=
        plusA_spec (canonical_add (canonical_square hl) hl) (canonical_one (F := c.field.toReduction))
      have hl1 := canonical_add hl (canonical_one (F := c.field.toReduction))
      refine .affine hx3 (canonical_add (canonical_square hx) (canonical_multiply clmul hl1 hx3)) ?_
      rw [toField_add (c.field.square x), toField_multiply clmul hl1 hx3, hx3Eq, toField_add,
        toField_add, toField_square hl, toField_square hx, toField_one, mul_one, hlEq]
      exact h.double hx0

theorem add_represents {P Q : Point c} {G H : Group c} (hP : Represents P G)
    (hQ : Represents Q H) : Represents (P.add clmul Q) (G + H) := by
  cases hP with
  | infinity =>
    rw [zero_add]
    cases hQ with
    | infinity => exact .infinity
    | affine hx hy h => exact .affine hx hy h
  | @affine x1 y1 G hx1 hy1 h1 =>
    cases hQ with
    | infinity =>
      rw [add_zero]
      exact .affine hx1 hy1 h1
    | @affine x2 y2 H hx2 hy2 h2 =>
      rw [Point.add]
      split
      · rename_i hx
        subst hx
        split
        · rename_i hy
          subst hy
          rw [h1.unique h2]
          exact double_represents clmul (.affine hx2 hy2 h2)
        · rename_i hy
          have hneg : G = -H := (h1.eq_or_eq h2).resolve_left fun heq => by
            rw [heq] at h1
            exact hy (toField_injective hy1 hy2 (h1.inj h2).2)
          rw [hneg, neg_add_cancel]
          exact .infinity
      · rename_i hx
        have hne : toField x1 ≠ toField x2 := fun heq => hx (toField_injective hx1 hx2 heq)
        have hs := canonical_add hx1 hx2
        obtain ⟨hinv, hinvEq⟩ := c.field.inverts clmul hs
        have hn := canonical_add hy1 hy2
        have hl := canonical_multiply clmul hn hinv
        have hlEq : toField (c.field.multiply clmul (c.field.add y1 y2)
            (c.field.invert clmul (c.field.add x1 x2)))
            = (toField y1 + toField y2) * (toField x1 + toField x2)⁻¹ := by
          rw [toField_multiply clmul hn hinv, hinvEq, toField_add, toField_add]
        generalize c.field.multiply clmul (c.field.add y1 y2)
          (c.field.invert clmul (c.field.add x1 x2)) = lambda at hl hlEq
        obtain ⟨hx3, hx3Eq⟩ :=
          plusA_spec (canonical_add (canonical_add (canonical_add (canonical_square hl) hl) hx1) hx2)
            (canonical_one (F := c.field.toReduction))
        dsimp only
        generalize plusA c (c.field.add (c.field.add (c.field.add (c.field.square lambda) lambda) x1)
          x2) c.field.one = x3 at hx3 hx3Eq
        have hd := canonical_add hx1 hx3
        refine .affine hx3 (canonical_add (canonical_add (canonical_multiply clmul hl hd) hx3) hy1) ?_
        rw [toField_add, toField_add, toField_multiply clmul hl hd, toField_add]
        rw [toField_add, toField_add, toField_add, toField_square hl, toField_one, mul_one] at hx3Eq
        exact h1.add h2 hne hlEq hx3Eq

theorem repeatedAdd_represents {P : Point c} {G : Group c} (h : Represents P G) (k : Nat) :
    Represents (P.repeatedAdd clmul k) (k • G) := by
  induction k with
  | zero =>
    rw [zero_nsmul]
    exact .infinity
  | succ k ih =>
    rw [succ_nsmul]
    exact add_represents clmul ih h

/-! ## The ladder -/

/-- The ladder holds the first coordinates of `k • D` and of the next multiple. -/
structure Holds (D : Group c) (k : Nat) (s : Ladder c) : Prop where
  canonical_x1 : Canonical s.x1
  canonical_z1 : Canonical s.z1
  canonical_x2 : Canonical s.x2
  canonical_z2 : Canonical s.z2
  rungs : BinaryCurve.Rungs D k (toField s.x1) (toField s.z1) (toField s.x2) (toField s.z2)

variable {D : Group c} {x y : FieldElement c}

/-- The formulas of one turn. -/
theorem turn_spec {x1 z1 x2 z2 : FieldElement c} (hx : Canonical x) (hx1 : Canonical x1)
    (hz1 : Canonical z1) (hx2 : Canonical x2) (hz2 : Canonical z2) {z3 x3 x4 z4 : FieldElement c}
    (hz3 : z3 = c.field.square
      (c.field.add (c.field.multiply clmul x1 z2) (c.field.multiply clmul x2 z1)))
    (hx3 : x3 = c.field.add (c.field.multiply clmul x z3)
      (c.field.multiply clmul (c.field.multiply clmul (c.field.multiply clmul x1 x2) z1) z2))
    (hx4 : x4 = c.field.add (c.field.square (c.field.square x2))
      (c.field.multiply clmul (b c) (c.field.square (c.field.square z2))))
    (hz4 : z4 = c.field.multiply clmul (c.field.square x2) (c.field.square z2)) :
    (Canonical x3 ∧ Canonical z3 ∧ Canonical x4 ∧ Canonical z4)
      ∧ toField z3 = (toField x1 * toField z2 + toField x2 * toField z1) ^ 2
      ∧ toField x3 = toField x * (toField x1 * toField z2 + toField x2 * toField z1) ^ 2
        + toField x1 * toField x2 * toField z1 * toField z2
      ∧ toField x4 = toField x2 ^ 4 + toField (b c) * toField z2 ^ 4
      ∧ toField z4 = toField x2 ^ 2 * toField z2 ^ 2 := by
  have hcross := canonical_multiply clmul hx1 hz2
  have hcross' := canonical_multiply clmul hx2 hz1
  have hsum := canonical_add hcross hcross'
  have hz3c : Canonical z3 := hz3 ▸ canonical_square hsum
  have hp1 := canonical_multiply clmul hx1 hx2
  have hp2 := canonical_multiply clmul hp1 hz1
  have hp3 := canonical_multiply clmul hp2 hz2
  have hxz := canonical_multiply clmul hx hz3c
  have hxx := canonical_square hx2
  have hzz := canonical_square hz2
  have hzzzz := canonical_square hzz
  have hb := canonical_multiply clmul (canonical_b (c := c)) hzzzz
  have hz3Eq : toField z3 = (toField x1 * toField z2 + toField x2 * toField z1) ^ 2 := by
    rw [hz3, toField_square hsum, toField_add, toField_multiply clmul hx1 hz2,
      toField_multiply clmul hx2 hz1]
  refine ⟨⟨hx3 ▸ canonical_add hxz hp3, hz3c, hx4 ▸ canonical_add (canonical_square hxx) hb,
    hz4 ▸ canonical_multiply clmul hxx hzz⟩, hz3Eq, ?_, ?_, ?_⟩
  · rw [hx3, toField_add, toField_multiply clmul hx hz3c, hz3Eq, toField_multiply clmul hp2 hz2,
      toField_multiply clmul hp1 hz1, toField_multiply clmul hx1 hx2]
  · rw [hx4, toField_add, toField_square hxx, toField_square hx2,
      toField_multiply clmul (canonical_b (c := c)) hzzzz, toField_square hzz, toField_square hz2,
      ← pow_mul, ← pow_mul]
  · rw [hz4, toField_multiply clmul hxx hzz, toField_square hx2, toField_square hz2]

theorem holds_start (hx : Canonical x) (hD : BinaryCurve.At D (toField x) (toField y)) :
    Holds D 0 ⟨c.field.one, c.field.zero, x, c.field.one⟩ where
  canonical_x1 := canonical_one
  canonical_z1 := canonical_zero
  canonical_x2 := hx
  canonical_z2 := canonical_one
  rungs := by
    rw [toField_one, toField_zero]
    exact BinaryCurve.Rungs.start hD

/-- A turn doubles the scalar read so far and takes the bit in. -/
theorem holds_ladderStep (hx : Canonical x) (hD : BinaryCurve.At D (toField x) (toField y))
    {s : Ladder c} {k : Nat} (h : Holds D k s) {bit : UInt64} (hbit : bit = 0 ∨ bit = 1) :
    Holds D (2 * k + bit.toNat) (Point.ladderStep clmul x bit s) := by
  obtain rfl | rfl := hbit
  · -- a zero bit: the coordinates change places for the turn
    have hswap : (0 : UInt64) ^^^ 1 = 1 := by decide
    obtain ⟨⟨h3, h3', h4, h4'⟩, hz3, hx3, hx4, hz4⟩ := turn_spec clmul hx h.canonical_x2
      h.canonical_z2 h.canonical_x1 h.canonical_z1 rfl rfl rfl rfl
    simp only [Point.ladderStep, hswap, cswap_one]
    refine ⟨h4, h4', h3, h3', ?_⟩
    have hrungs := h.rungs.double_low toField_b_ne_zero hD
    rw [hz3, hx3, hx4, hz4]
    have hcomm : toField s.x2 * toField s.z1 + toField s.x1 * toField s.z2
        = toField s.x1 * toField s.z2 + toField s.x2 * toField s.z1 := add_comm _ _
    have hcomm' : toField s.x2 * toField s.x1 * toField s.z2 * toField s.z1
        = toField s.x1 * toField s.x2 * toField s.z1 * toField s.z2 := by ring
    rw [hcomm, hcomm']
    exact hrungs
  · have hswap : (1 : UInt64) ^^^ 1 = 0 := by decide
    obtain ⟨⟨h3, h3', h4, h4'⟩, hz3, hx3, hx4, hz4⟩ := turn_spec clmul hx h.canonical_x1
      h.canonical_z1 h.canonical_x2 h.canonical_z2 rfl rfl rfl rfl
    simp only [Point.ladderStep, hswap, cswap_zero]
    refine ⟨h3, h3', h4, h4', ?_⟩
    have hrungs := h.rungs.double_high toField_b_ne_zero hD
    rw [hz3, hx3, hx4, hz4]
    exact hrungs

theorem holds_ladder (hx : Canonical x) (hD : BinaryCurve.At D (toField x) (toField y))
    {k : Vector UInt8 c.scalarBytes} (hk : beNat k.toList < 2 ^ c.field.degree) :
    Holds D (beNat k.toList) (Point.ladder clmul x k) := by
  have hloop := foldr_invariant (n := c.field.degree) (f := fun i s =>
      Point.ladderStep clmul x (bitAt k i.val (c.bit_lt i)) s)
    (a := ⟨c.field.one, c.field.zero, x, c.field.one⟩)
    (fun i s => Holds D (beNat k.toList / 2 ^ i) s) (by
      rw [Nat.div_eq_of_lt hk]
      exact holds_start hx hD) (by
      intro i s hs
      have hi := Nat.lt_of_lt_of_le i.isLt c.bits
      have hbit := toNat_bitAt k hi
      have hcases : bitAt k i.val hi = 0 ∨ bitAt k i.val hi = 1 := by
        obtain h | h := Nat.mod_two_eq_zero_or_one (beNat k.toList / 2 ^ i.val)
        · exact .inl (UInt64.toNat_inj.mp (hbit.trans h))
        · exact .inr (UInt64.toNat_inj.mp (hbit.trans h))
      have hstep := holds_ladderStep clmul hx hD hs hcases
      rw [hbit, ← Limbs.div_pow_bit] at hstep
      exact hstep)
  rw [Nat.pow_zero, Nat.div_one] at hloop
  exact hloop

/-- The end of the ladder gives the multiple back, `-D` when the next one is at infinity. -/
theorem recover_represents (hx : Canonical x) (hy : Canonical y)
    (hD : BinaryCurve.At D (toField x) (toField y)) {s : Ladder c} {k : Nat} (h : Holds D k s) :
    Represents (Point.recover clmul x y s) (k • D) := by
  have hmask (z : FieldElement c) (hz : Canonical z) (G : Group c) (X : FieldElement c)
      (hshows : BinaryCurve.Shows (toField X) (toField z) G) :
      isZeroMask z = if G = 0 then (0 : UInt64) - 1 else 0 := by
    have hiff : z = c.field.zero ↔ G = 0 := by
      rw [← hshows.z_eq_zero_iff]
      refine ⟨fun hz0 => by rw [hz0, toField_zero], fun hz0 => ?_⟩
      exact toField_injective hz canonical_zero (hz0.trans toField_zero.symm)
    simp only [isZeroMask_eq, hiff]
  have hones : (0 : UInt64) - 1 ≠ 0 := by decide
  rw [Point.recover, hmask s.z1 h.canonical_z1 _ _ h.rungs.low]
  by_cases hzero : k • D = 0
  · rw [if_pos hzero, if_pos hones, hzero]
    exact .infinity
  rw [if_neg hzero, if_neg (by simp), hmask s.z2 h.canonical_z2 _ _ h.rungs.high]
  obtain ⟨x', y', hP⟩ := (BinaryCurve.zero_or_at (k • D)).resolve_left hzero
  obtain ⟨hi1, hi1Eq⟩ := c.field.inverts clmul h.canonical_z1
  obtain ⟨hi2, hi2Eq⟩ := c.field.inverts clmul h.canonical_z2
  obtain ⟨hix, hixEq⟩ := c.field.inverts clmul hx
  have hx1 := canonical_multiply clmul h.canonical_x1 hi1
  have hx2 := canonical_multiply clmul h.canonical_x2 hi2
  have hx1Eq : toField (c.field.multiply clmul s.x1 (c.field.invert clmul s.z1)) = x' := by
    rw [toField_multiply clmul h.canonical_x1 hi1, hi1Eq, h.rungs.low.x_eq hP]
  dsimp only
  by_cases hnext : k • D + D = 0
  · have hneg : k • D = -D := eq_neg_of_add_eq_zero_left hnext
    rw [if_pos hnext, select_ones]
    refine .affine hx1 (canonical_add hx hy) ?_
    have hD' := hD.neg
    rw [← hneg] at hD'
    obtain ⟨hx', -⟩ := hP.inj hD'
    rw [hx1Eq, toField_add, hx']
    exact hD'
  · rw [if_neg hnext, select_zero]
    obtain ⟨x'', y'', hQ⟩ := (BinaryCurve.zero_or_at (k • D + D)).resolve_left hnext
    have hx2Eq : toField (c.field.multiply clmul s.x2 (c.field.invert clmul s.z2)) = x'' := by
      rw [toField_multiply clmul h.canonical_x2 hi2, hi2Eq, h.rungs.high.x_eq hQ]
    -- the point of order two has no third multiple
    have hxne : toField x ≠ 0 := by
      intro hx0
      rw [hx0] at hD
      have hdouble : (2 : Nat) • D = 0 := by
        rw [two_nsmul]
        exact hD.double_of_zero
      obtain ⟨j, hj | hj⟩ := Nat.even_or_odd' k
      · exact hzero (by rw [hj, mul_nsmul, hdouble, nsmul_zero])
      · exact hnext (by rw [← succ_nsmul, hj, show 2 * j + 1 + 1 = 2 * (j + 1) by ring, mul_nsmul,
          hdouble, nsmul_zero])
    have ht1 := canonical_add hx1 hx
    have ht2 := canonical_add hx2 hx
    have hprod := canonical_multiply clmul ht1 ht2
    have hxx := canonical_square hx
    have hinner := canonical_add (canonical_add hprod hxx) hy
    have hscaled := canonical_multiply clmul hix ht1
    have hfull := canonical_multiply clmul hscaled hinner
    refine .affine hx1 (canonical_add hfull hy) ?_
    have hrecover := hD.recover hxne hP hQ
    rw [toField_add, toField_multiply clmul hscaled hinner, toField_multiply clmul hix ht1, hixEq,
      toField_add, toField_add, toField_add, toField_multiply clmul ht1 ht2, toField_add,
      toField_add, toField_square hx, hx1Eq, hx2Eq, ← hrecover]
    exact hP

theorem scalarMultiply_represents {P : Point c} {G : Group c} (h : Represents P G)
    {k : Vector UInt8 c.scalarBytes} (hk : beNat k.toList < 2 ^ c.field.degree) :
    Represents (P.scalarMultiply clmul k) (beNat k.toList • G) := by
  cases h with
  | infinity =>
    rw [nsmul_zero]
    exact .infinity
  | affine hx hy h => exact recover_represents clmul hx hy h (holds_ladder clmul hx h hk)

theorem scalarMultiply_one {P : Point c} {G : Group c} (h : Represents P G)
    {k : Vector UInt8 c.scalarBytes} (hk : beNat k.toList = 1) : P.scalarMultiply clmul k = P := by
  have hmultiple := scalarMultiply_represents clmul h (k := k) (by
    rw [hk]
    exact Nat.one_lt_two_pow c.field.degree_pos.ne')
  rw [hk, one_nsmul] at hmultiple
  exact hmultiple.unique h

end Group

/-- On both curves and either multiplication path: for every point of the curve and for infinity,
whatever its order, and every scalar the ladder's bits hold, `scalar_multiply` is repeated
addition, `-P` when the next multiple is at infinity, and its result is a point of the curve or
infinity. -/
theorem scalar_multiply_is_group_action (curve : Dstu4145.Curve) (clmul : Bool) :
    ∀ (P : Point (params curve)) (k : Vector UInt8 (params curve).scalarBytes),
      (P = .infinity ∨ P.isOnCurve clmul = true) →
      beNat k.toList < 2 ^ (params curve).field.degree →
      P.scalarMultiply clmul k = P.repeatedAdd clmul (beNat k.toList)
        ∧ (P.repeatedAdd clmul (beNat k.toList + 1) = .infinity →
          P.scalarMultiply clmul k = P.negate)
        ∧ (P.scalarMultiply clmul k = .infinity
          ∨ (P.scalarMultiply clmul k).isOnCurve clmul = true) := by
  intro P k hP hk
  obtain ⟨G, hG⟩ : ∃ G, Represents P G := by
    obtain rfl | hP := hP
    · exact ⟨0, .infinity⟩
    · exact ((isOnCurve_iff clmul P).mp hP).2
  have hmul := scalarMultiply_represents clmul hG hk
  refine ⟨hmul.unique (repeatedAdd_represents clmul hG _), ?_, ?_⟩
  · intro hnext
    have hnext' := repeatedAdd_represents clmul hG (beNat k.toList + 1)
    have hzero := hnext'.eq_infinity_iff.mp hnext
    rw [succ_nsmul] at hzero
    rw [eq_neg_of_add_eq_zero_left hzero] at hmul
    exact hmul.unique (negate_represents hG)
  · by_cases hinfinity : P.scalarMultiply clmul k = .infinity
    · exact .inl hinfinity
    · exact .inr ((isOnCurve_iff clmul _).mpr ⟨hinfinity, _, hmul⟩)

/-- Three times the base point of `curve163`. -/
theorem scalar_multiply_generator :
    (Point.generator params163).scalarMultiply false (#v[
        0, 0, 0, 0, 0, 0, 0, 0, 0, 0, 0, 0, 0, 0, 0, 0, 0, 0, 0, 0, 3] : Vector UInt8 21)
      = (Point.generator params163).repeatedAdd false 3 :=
  (scalar_multiply_is_group_action .m163 false (Point.generator params163)
    (#v[0, 0, 0, 0, 0, 0, 0, 0, 0, 0, 0, 0, 0, 0, 0, 0, 0, 0, 0, 0, 3] : Vector UInt8 21)
    (.inr (by decide +kernel)) (by decide +kernel)).1

end UaCrypt.Hazmat.CurvePoint
