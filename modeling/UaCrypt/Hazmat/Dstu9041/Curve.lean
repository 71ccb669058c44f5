import UaCrypt.Hazmat.Dstu9041.Fp
import UaCrypt.Lib.EdwardsOrder

/-!
# Edwards points (`dstu9041/curve256.rs`, `curve384.rs`, `curve512.rs`)

The curve `x² + ay² = dx²y² + 1` at the three sizes, one code over a `CurveParams`.

- `Point.add`, `Point.scalarMultiply`: through projective coordinates, one inversion at the end.
- `pointFromX`: the point of the base point's subgroup with a given first coordinate.
- `isValidScalar`: the exponents `2..n-2`.
-/

namespace UaCrypt.Hazmat.Dstu9041

open Limbs Limb FieldElement EdwardsCurve Residues

/-- The constants of a curve. -/
structure CurveParams where
  field : FieldParams
  /-- The bytes of `curve_a()`. -/
  curveA : Vector UInt8 (8 * field.limbs)
  /-- The bytes of `curve_d()`. -/
  curveD : Vector UInt8 (8 * field.limbs)
  baseX : Vector UInt8 (8 * field.limbs)
  baseY : Vector UInt8 (8 * field.limbs)
  orderN : Vector UInt8 (8 * field.limbs)
  aDivD : Vector UInt8 (8 * field.limbs)
  curveA_lt : beNat curveA.toList < field.p
  curveD_lt : beNat curveD.toList < field.p
  baseX_lt : beNat baseX.toList < field.p
  baseY_lt : beNat baseY.toList < field.p
  aDivD_lt : beNat aDivD.toList < field.p
  aDivD_eq : beNat aDivD.toList * beNat curveD.toList % field.p = beNat curveA.toList
  order_odd : beNat orderN.toList % 2 = 1
  /-- There is no room for eight times `n` points. -/
  order_room : 2 * field.p + 1 < 8 * beNat orderN.toList
  /-- The base point is on the curve, and `n` times it is neutral. -/
  order_check : checkOrder field.p (beNat curveA.toList) (beNat curveD.toList) (beNat baseX.toList)
    (beNat baseY.toList) (beNat orderN.toList) (64 * field.limbs) = true
  /-- Neither `a` nor `d` is a square. -/
  curveA_nonresidue : (powMod (⟨beNat curveA.toList⟩ : Residue field.p) (field.p / 2)
    (64 * field.limbs)).val = field.p - 1
  curveD_nonresidue : (powMod (⟨beNat curveD.toList⟩ : Residue field.p) (field.p / 2)
    (64 * field.limbs)).val = field.p - 1

/-- `curve256.rs`. -/
def curve256 : CurveParams where
  field := fp256
  curveA := (Vector.replicate 32 0).set 31 2
  curveD := (Vector.replicate 32 0).set 31 0x18
  baseX := #v[
    0x91, 0xF5, 0xD0, 0xE7, 0xE2, 0xD4, 0x17, 0xE3, 0x10, 0x8B, 0x13, 0xB0,
    0x75, 0xCD, 0xC7, 0x75, 0x60, 0x45, 0xF8, 0x42, 0x44, 0x79, 0xFC, 0xFE,
    0x8F, 0x23, 0xD2, 0x72, 0x50, 0xA0, 0x88, 0x3F]
  baseY := #v[
    0x74, 0x2F, 0x27, 0xA2, 0x68, 0x64, 0x1C, 0x9D, 0x7D, 0xDF, 0x69, 0x89,
    0x2B, 0xE3, 0xDF, 0x3D, 0x8F, 0x9C, 0xC5, 0x22, 0x60, 0xB8, 0x9A, 0x49,
    0x53, 0xC8, 0x37, 0x9C, 0x7C, 0x0A, 0x21, 0x2B]
  orderN := #v[
    0x40, 0x00, 0x00, 0x00, 0x00, 0x00, 0x00, 0x00, 0x00, 0x00, 0x00, 0x00,
    0x00, 0x00, 0x00, 0x00, 0x29, 0xE2, 0x60, 0x87, 0x78, 0x9B, 0xC2, 0x81,
    0x5B, 0xDF, 0xF9, 0x70, 0x93, 0x54, 0x3C, 0xCF]
  aDivD := #v[
    0xEA, 0xAA, 0xAA, 0xAA, 0xAA, 0xAA, 0xAA, 0xAA, 0xAA, 0xAA, 0xAA, 0xAA,
    0xAA, 0xAA, 0xAA, 0xAA, 0xAA, 0xAA, 0xAA, 0xAA, 0xAA, 0xAA, 0xAA, 0xAA,
    0xAA, 0xAA, 0xAA, 0xAA, 0xAA, 0xAA, 0xA9, 0x1C]
  curveA_lt := by decide +kernel
  curveD_lt := by decide +kernel
  baseX_lt := by decide +kernel
  baseY_lt := by decide +kernel
  aDivD_lt := by decide +kernel
  aDivD_eq := by decide +kernel
  order_odd := by decide +kernel
  order_room := by decide +kernel
  order_check := by decide +kernel
  curveA_nonresidue := by decide +kernel
  curveD_nonresidue := by decide +kernel

/-- `curve384.rs`. -/
def curve384 : CurveParams where
  field := fp384
  curveA := (Vector.replicate 48 0).set 47 2
  curveD := ((Vector.replicate 48 0).set 46 0x02).set 47 0x14
  baseX := #v[
    0xF5, 0xFC, 0x15, 0x1B, 0x62, 0x64, 0xCB, 0x53, 0xA4, 0xB8, 0x79, 0xAA,
    0x9A, 0x1F, 0x4A, 0x51, 0x56, 0xBB, 0xF0, 0x63, 0xB5, 0x6A, 0xAA, 0x91,
    0x26, 0x17, 0xC0, 0xE4, 0xCE, 0xFF, 0x15, 0xD2, 0xDF, 0x49, 0x7D, 0x9A,
    0xEF, 0x12, 0x37, 0x4A, 0x22, 0xD2, 0x2C, 0x3B, 0x40, 0x2B, 0x2C, 0x71]
  baseY := #v[
    0xA9, 0x02, 0x72, 0x07, 0xE8, 0x80, 0x74, 0xF4, 0xAF, 0xA3, 0xD4, 0x4D,
    0x45, 0x90, 0xDD, 0x04, 0xBA, 0xFB, 0xF6, 0xAE, 0x3D, 0x32, 0x10, 0x91,
    0xF5, 0x00, 0xC7, 0x83, 0xF4, 0x70, 0x79, 0x40, 0xB7, 0xF5, 0xEB, 0xDD,
    0x93, 0x32, 0x5C, 0x53, 0x91, 0x84, 0x3F, 0x9A, 0x78, 0x52, 0x6B, 0xB1]
  orderN := #v[
    0x40, 0x00, 0x00, 0x00, 0x00, 0x00, 0x00, 0x00, 0x00, 0x00, 0x00, 0x00,
    0x00, 0x00, 0x00, 0x00, 0x00, 0x00, 0x00, 0x00, 0x00, 0x00, 0x00, 0x00,
    0x0A, 0xF9, 0x05, 0xB7, 0x36, 0x74, 0xAC, 0x7D, 0x4A, 0xF3, 0x8C, 0x53,
    0x33, 0x1D, 0xC2, 0x08, 0xA5, 0x17, 0xDC, 0xB3, 0xF3, 0x40, 0xEE, 0xCF]
  aDivD := #v[
    0x3E, 0x8E, 0x6F, 0xA3, 0x9B, 0xE8, 0xE6, 0xFA, 0x39, 0xBE, 0x8E, 0x6F,
    0xA3, 0x9B, 0xE8, 0xE6, 0xFA, 0x39, 0xBE, 0x8E, 0x6F, 0xA3, 0x9B, 0xE8,
    0xE6, 0xFA, 0x39, 0xBE, 0x8E, 0x6F, 0xA3, 0x9B, 0xE8, 0xE6, 0xFA, 0x39,
    0xBE, 0x8E, 0x6F, 0xA3, 0x9B, 0xE8, 0xE6, 0xFA, 0x39, 0xBE, 0x8C, 0x63]
  curveA_lt := by decide +kernel
  curveD_lt := by decide +kernel
  baseX_lt := by decide +kernel
  baseY_lt := by decide +kernel
  aDivD_lt := by decide +kernel
  aDivD_eq := by decide +kernel
  order_odd := by decide +kernel
  order_room := by decide +kernel
  order_check := by decide +kernel
  curveA_nonresidue := by decide +kernel
  curveD_nonresidue := by decide +kernel

/-- `curve512.rs`. -/
def curve512 : CurveParams where
  field := fp512
  curveA := (Vector.replicate 64 0).set 63 2
  curveD := ((Vector.replicate 64 0).set 62 0x01).set 63 0x0D
  baseX := #v[
    0x52, 0x30, 0xA1, 0xEE, 0x74, 0x70, 0x50, 0xA0, 0x72, 0xBD, 0x73, 0x19,
    0x74, 0x15, 0x86, 0xEA, 0x52, 0x03, 0x88, 0xB6, 0xB5, 0x30, 0x94, 0x57,
    0x1C, 0x82, 0x1A, 0x2F, 0xC9, 0xA9, 0xE8, 0x3D, 0x56, 0x66, 0x53, 0x46,
    0xB5, 0xDB, 0x04, 0xC4, 0x3E, 0x75, 0x26, 0x1D, 0xBD, 0xA5, 0x12, 0x72,
    0x8F, 0xAA, 0xFA, 0xC4, 0x8A, 0xE9, 0x26, 0x0A, 0x5A, 0x18, 0x4E, 0x29,
    0x33, 0xE3, 0xA4, 0x00]
  baseY := #v[
    0x05, 0x3A, 0x0D, 0x50, 0xCC, 0x63, 0xC9, 0x21, 0x97, 0x62, 0xF4, 0x51,
    0x97, 0x8A, 0xEF, 0x21, 0x4D, 0xBC, 0xFC, 0xC3, 0xA5, 0xCB, 0x5E, 0xF2,
    0x71, 0x24, 0x99, 0x1A, 0x86, 0xB4, 0x2B, 0x3A, 0x1A, 0x83, 0x27, 0x24,
    0xA0, 0xE6, 0xB9, 0x30, 0xFD, 0xD1, 0xDA, 0x2E, 0x27, 0xA5, 0x40, 0xD6,
    0xB6, 0x75, 0xE4, 0x42, 0x2C, 0x44, 0x4F, 0x52, 0x9C, 0x50, 0x8F, 0x0B,
    0xAE, 0x7D, 0x0A, 0x85]
  orderN := #v[
    0x40, 0x00, 0x00, 0x00, 0x00, 0x00, 0x00, 0x00, 0x00, 0x00, 0x00, 0x00,
    0x00, 0x00, 0x00, 0x00, 0x00, 0x00, 0x00, 0x00, 0x00, 0x00, 0x00, 0x00,
    0x00, 0x00, 0x00, 0x00, 0x00, 0x00, 0x00, 0x00, 0x28, 0xA3, 0xCE, 0x52,
    0x20, 0x9E, 0x2B, 0xD4, 0x95, 0x28, 0x82, 0xD5, 0x57, 0x41, 0x65, 0x19,
    0x2C, 0x46, 0xC0, 0xD0, 0x31, 0x1F, 0xEA, 0x6B, 0xF9, 0xFE, 0xCE, 0x70,
    0xEE, 0x63, 0xB5, 0x9F]
  aDivD := #v[
    0x4C, 0x22, 0x42, 0x9D, 0xFA, 0x4A, 0x3B, 0x00, 0xF3, 0xA0, 0xD5, 0x2C,
    0xBA, 0x87, 0x23, 0x36, 0x3E, 0xCF, 0x76, 0xF5, 0x88, 0x16, 0xD7, 0x13,
    0xFC, 0x31, 0x7C, 0xAB, 0x4D, 0x15, 0xE3, 0x73, 0x27, 0x04, 0xC2, 0x24,
    0x29, 0xDF, 0xA4, 0xA3, 0xB0, 0x0F, 0x3A, 0x0D, 0x52, 0xCB, 0xA8, 0x72,
    0x33, 0x63, 0xEC, 0xF7, 0x6F, 0x58, 0x81, 0x6D, 0x71, 0x3F, 0xC3, 0x17,
    0xCA, 0xB4, 0xD0, 0x5A]
  curveA_lt := by decide +kernel
  curveD_lt := by decide +kernel
  baseX_lt := by decide +kernel
  baseY_lt := by decide +kernel
  aDivD_lt := by decide +kernel
  aDivD_eq := by decide +kernel
  order_odd := by decide +kernel
  order_room := by decide +kernel
  order_check := by decide +kernel
  curveA_nonresidue := by decide +kernel
  curveD_nonresidue := by decide +kernel

/-- The three sizes `l(p)`. -/
inductive Size where
  | l256
  | l384
  | l512
deriving DecidableEq, Repr

def Size.curve : Size → CurveParams
  | .l256 => curve256
  | .l384 => curve384
  | .l512 => curve512

/-- A byte string as wide as the field. -/
abbrev Bytes (c : CurveParams) := Vector UInt8 (8 * c.field.limbs)

/-- An affine point. There is none at infinity. -/
@[ext]
structure Point (c : CurveParams) where
  x : FieldElement c.field
  y : FieldElement c.field
deriving DecidableEq

structure ProjectivePoint (c : CurveParams) where
  x : FieldElement c.field
  y : FieldElement c.field
  z : FieldElement c.field

variable {c : CurveParams}

/-- `curve_a`. -/
def curveA (c : CurveParams) : FieldElement c.field := fromBeBytes c.curveA

/-- `curve_d`. -/
def curveD (c : CurveParams) : FieldElement c.field := fromBeBytes c.curveD

namespace ProjectivePoint

/-- `from_affine`. -/
def fromAffine (p : Point c) : ProjectivePoint c := ⟨p.x, p.y, one⟩

/-- `to_affine`. -/
def toAffine (p : ProjectivePoint c) : Point c :=
  let zInv := p.z.invert
  ⟨p.x.multiply zInv, p.y.multiply zInv⟩

/-- `add`, also for doubling. -/
def add (p q : ProjectivePoint c) : ProjectivePoint c :=
  let a := curveA c
  let d := curveD c
  let zz := p.z.multiply q.z
  let b := zz.square
  let cc := p.x.multiply q.x
  let dd := p.y.multiply q.y
  let e := (d.multiply cc).multiply dd
  let f := b.sub e
  let g := b.add e
  let xSum := p.x.add p.y
  let ySum := q.x.add q.y
  let cross := xSum.multiply ySum
  let xR := (zz.multiply g).multiply (cc.sub (a.multiply dd))
  let yR := (zz.multiply f).multiply ((cross.sub cc).sub dd)
  let zR := f.multiply g
  ⟨xR, yR, zR⟩

/-- `select`. -/
def select (bit : UInt64) (a b : ProjectivePoint c) : ProjectivePoint c :=
  ⟨FieldElement.select bit a.x b.x, FieldElement.select bit a.y b.y,
    FieldElement.select bit a.z b.z⟩

end ProjectivePoint

namespace Point

/-- `NEUTRAL`. -/
def neutral : Point c := ⟨one, zero⟩

/-- `is_on_curve`. -/
def isOnCurve (p : Point c) : Bool :=
  let x2 := p.x.square
  let y2 := p.y.square
  let lhs := x2.add ((curveA c).multiply y2)
  let rhs := (((curveD c).multiply x2).multiply y2).add one
  lhs == rhs

/-- `add`. -/
def add (p q : Point c) : Point c :=
  ((ProjectivePoint.fromAffine p).add (ProjectivePoint.fromAffine q)).toAffine

/-- `scalar_multiply`. -/
def scalarMultiply (p : Point c) (scalar : Bytes c) : Point c :=
  let base := ProjectivePoint.fromAffine p
  (forBits scalar.toList (fun acc bit =>
    let acc := acc.add acc
    let candidate := acc.add base
    ProjectivePoint.select bit candidate acc) (ProjectivePoint.fromAffine neutral)).toAffine

end Point

/-- `point_from_x`. -/
def pointFromX (x : FieldElement c.field) : Option (Point c) :=
  let a := curveA c
  let d := curveD c
  let aDivD : FieldElement c.field := fromBeBytes c.aDivD
  let pMinus1 : FieldElement c.field := zero.sub one
  let xSquared := x.square
  if x = zero ∨ x = one ∨ x = pMinus1 ∨ xSquared = aDivD then none
  else
    let numerator := one.sub xSquared
    let denominator := a.sub (d.multiply xSquared)
    let v := numerator.multiply denominator.invert
    if v.eulerCriterion then
      let candidate : Point c := ⟨x, v.sqrt⟩
      if candidate.scalarMultiply c.orderN = Point.neutral then some candidate else none
    else none

/-- `base_point`. -/
def basePoint (c : CurveParams) : Point c := ⟨fromBeBytes c.baseX, fromBeBytes c.baseY⟩

/-- `is_less_than`: two big-endian integers, compared by a subtraction. `bytes_be_to_limbs` is the
loop of `from_be_bytes`. -/
def isLessThan (a b : Bytes c) : Bool :=
  let al := (fromBeBytes a : FieldElement c.field).limbs
  let bl := (fromBeBytes b : FieldElement c.field).limbs
  (subLimbs al bl).2 == 1

/-- `is_valid_scalar`: `1 < scalar < n - 1`. -/
def isValidScalar (scalar : Bytes c) : Bool :=
  have hlast : 8 * c.field.limbs - 1 < 8 * c.field.limbs := by
    have hpos := c.field.limbs_pos
    omega
  let one : Bytes c := (Vector.replicate (8 * c.field.limbs) 0).set (8 * c.field.limbs - 1) 1
  let nMinus1 : Bytes c :=
    c.orderN.set (8 * c.field.limbs - 1) (c.orderN[8 * c.field.limbs - 1] - 1)
  isLessThan one scalar && isLessThan scalar nMinus1

end UaCrypt.Hazmat.Dstu9041
