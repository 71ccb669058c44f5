import UaCrypt.Hazmat.CurvePoint

/-!
# `s*G + r*Q` (`verify_combine` in `dstu4145/curve163.rs`)

By default both scalars are read together, one doubling for a pair of bits, in coordinates with
one denominator that is inverted at the end. The `small-tables` build multiplies twice and adds.

- `ProjectivePoint.Holds p R`: the projective point is `R`. `Holds.double`, `Holds.mixedAdd`: the
  formulas with their guards, for all points.
- `shamir_represents`: what the loop keeps, from the highest bit of either scalar.
- `verify_combine_builds_agree`: the two builds compute the same point.
-/

namespace UaCrypt.Hazmat.CurvePoint

open Gf2mCurve Gf2mCurve.Reduction Limb Limbs

/-- `(x / z, y / z²)`, or infinity if `z` is zero. -/
structure ProjectivePoint (c : CurveParams) where
  x : FieldElement c
  y : FieldElement c
  z : FieldElement c

variable {c : CurveParams} (clmul : Bool)

/-! The formulas are those for `a = 1`. -/

namespace ProjectivePoint

/-- `from_affine`. -/
def fromAffine : Point c → ProjectivePoint c
  | .infinity => ⟨c.field.one, c.field.one, c.field.zero⟩
  | .affine x y => ⟨x, y, c.field.one⟩

/-- `double`. -/
def double (p : ProjectivePoint c) : ProjectivePoint c :=
  if p.z = c.field.zero then p
  else
    let a := c.field.square p.z
    let bigB := c.field.multiply clmul (b c) (c.field.square a)
    let cc := c.field.square p.x
    let z3 := c.field.multiply clmul a cc
    let x3 := c.field.add (c.field.square cc) bigB
    let y3 := c.field.add
      (c.field.multiply clmul (c.field.add (c.field.add (c.field.square p.y) z3) bigB) x3)
      (c.field.multiply clmul z3 bigB)
    ⟨x3, y3, z3⟩

/-- `mixed_add`: an affine point is added. -/
def mixedAdd (p : ProjectivePoint c) : Point c → ProjectivePoint c
  | .infinity => p
  | .affine x2 y2 =>
    if p.z = c.field.zero then fromAffine (.affine x2 y2)
    else
      let z1Sq := c.field.square p.z
      let a := c.field.add p.y (c.field.multiply clmul y2 z1Sq)
      let bVal := c.field.add p.x (c.field.multiply clmul x2 p.z)
      if bVal = c.field.zero then
        if a = c.field.zero then double clmul p
        else ⟨c.field.one, c.field.one, c.field.zero⟩
      else
        let cc := c.field.multiply clmul bVal p.z
        let z3 := c.field.square cc
        let d := c.field.multiply clmul x2 z3
        let bSq := c.field.square bVal
        let x3 := c.field.add (c.field.square a)
          (c.field.multiply clmul cc (c.field.add (c.field.add a bSq) cc))
        let y3 := c.field.add
          (c.field.multiply clmul (c.field.add d x3)
            (c.field.add (c.field.multiply clmul a cc) z3))
          (c.field.multiply clmul (c.field.add y2 x2) (c.field.square z3))
        ⟨x3, y3, z3⟩

/-- `to_affine`. -/
def toAffine (p : ProjectivePoint c) : Point c :=
  if p.z = c.field.zero then .infinity
  else
    let zInv := c.field.invert clmul p.z
    .affine (c.field.multiply clmul p.x zInv)
      (c.field.multiply clmul p.y (c.field.square zInv))

end ProjectivePoint

/-- `(bit_at(s, i) << 1) | bit_at(r, i)`. -/
def tableIndex (s r : Vector UInt8 c.scalarBytes) (i : Fin c.field.degree) : UInt64 :=
  let h := c.bit_lt i
  (bitAt s i.val h <<< 1) ||| bitAt r i.val h

theorem bitAt_cases (k : Vector UInt8 c.scalarBytes) {i : Nat} (h : i < 8 * c.scalarBytes) :
    (bitAt k i h = 0 ∧ beNat k.toList / 2 ^ i % 2 = 0)
      ∨ (bitAt k i h = 1 ∧ beNat k.toList / 2 ^ i % 2 = 1) := by
  have hbit := toNat_bitAt k h
  obtain hmod | hmod := Nat.mod_two_eq_zero_or_one (beNat k.toList / 2 ^ i)
  · exact .inl ⟨UInt64.toNat_inj.mp (hbit.trans hmod), hmod⟩
  · exact .inr ⟨UInt64.toNat_inj.mp (hbit.trans hmod), hmod⟩

/-- The index spells the two bits. -/
theorem toNat_tableIndex (s r : Vector UInt8 c.scalarBytes) (i : Fin c.field.degree) :
    (tableIndex s r i).toNat
      = 2 * (beNat s.toList / 2 ^ i.val % 2) + beNat r.toList / 2 ^ i.val % 2 := by
  have h := Nat.lt_of_lt_of_le i.isLt c.bits
  rw [tableIndex]
  obtain ⟨hs, hs'⟩ | ⟨hs, hs'⟩ := bitAt_cases s h <;>
    obtain ⟨hr, hr'⟩ | ⟨hr, hr'⟩ := bitAt_cases r h <;>
    rw [hs, hr, hs', hr'] <;> decide

theorem tableIndex_lt (s r : Vector UInt8 c.scalarBytes) (i : Fin c.field.degree) :
    (tableIndex s r i).toNat < 4 := by
  rw [toNat_tableIndex]
  omega

/-- `entry_at`. -/
def entryAt (g q : Point c) (s r : Vector UInt8 c.scalarBytes) (i : Fin c.field.degree) : Point c :=
  let table : Vector (Point c) 4 := #v[.infinity, q, g, g.add clmul q]
  getElem table (tableIndex s r i).toNat (tableIndex_lt s r i)

/-- One turn of the loop. -/
def shamirStep (acc : ProjectivePoint c) (entry : Point c) : ProjectivePoint c :=
  let acc := acc.double clmul
  if entry ≠ .infinity then acc.mixedAdd clmul entry else acc

/-- `shamir_double_scalar_multiply`. -/
def shamirDoubleScalarMultiply (g : Point c) (s : Vector UInt8 c.scalarBytes) (q : Point c)
    (r : Vector UInt8 c.scalarBytes) : Point c :=
  let top := (List.finRange c.field.degree).findRev? fun i =>
    let h := Nat.lt_of_lt_of_le i.isLt c.bits
    bitAt s i.val h != 0 || bitAt r i.val h != 0
  match top with
  | none => .infinity
  | some top =>
    let acc := ProjectivePoint.fromAffine (entryAt clmul g q s r top)
    let acc := Fin.foldr top.val (fun i acc =>
      shamirStep clmul acc (entryAt clmul g q s r ⟨i.val, Nat.lt_trans i.isLt top.isLt⟩)) acc
    acc.toAffine clmul

/-- `verify_combine`; `smallTables` is the build. -/
def verifyCombine (smallTables : Bool) (g : Point params163) (s : Vector UInt8 21)
    (q : Point params163) (r : Vector UInt8 21) : Point params163 :=
  if smallTables then (g.scalarMultiply clmul s).add clmul (q.scalarMultiply clmul r)
  else shamirDoubleScalarMultiply clmul g s q r

/-! ## The projective formulas -/

section Group

/-- The projective point is the point `R` of the group. -/
structure ProjectivePoint.Holds (p : ProjectivePoint c) (R : Group c) : Prop where
  canonical_x : Canonical p.x
  canonical_y : Canonical p.y
  canonical_z : Canonical p.z
  lifts : BinaryCurve.Lifts (toField p.x) (toField p.y) (toField p.z) R

variable {p : ProjectivePoint c} {P Q : Point c} {R S G H : Group c}

variable (c) in
/-- The formulas leave the factor `a` out. -/
def AIsOne : Prop := ∀ t : K c, coeffA c * t = t

theorem aIsOne163 : AIsOne params163 := by
  intro t
  exact one_mul t

theorem eq_zero_iff {a : FieldElement c} (ha : Canonical a) : a = c.field.zero ↔ toField a = 0 := by
  refine ⟨fun h => by rw [h, toField_zero], fun h => ?_⟩
  exact toField_injective ha canonical_zero (h.trans toField_zero.symm)

namespace ProjectivePoint

theorem holds_infinity : Holds (c := c) ⟨c.field.one, c.field.one, c.field.zero⟩ 0 where
  canonical_x := canonical_one
  canonical_y := canonical_one
  canonical_z := canonical_zero
  lifts := by
    rw [toField_zero]
    exact BinaryCurve.lifts_zero

theorem holds_fromAffine (h : Represents P R) : (fromAffine P).Holds R := by
  cases h with
  | infinity => exact holds_infinity
  | affine hx hy h =>
    refine ⟨hx, hy, canonical_one, ?_⟩
    rw [fromAffine, toField_one]
    exact h.lifts

theorem Holds.double (ha : AIsOne c) (h : p.Holds R) : (p.double clmul).Holds (R + R) := by
  obtain ⟨hx, hy, hz, hlifts⟩ := h
  rw [ProjectivePoint.double]
  split
  · rename_i hzero
    rw [hlifts.eq_zero ((eq_zero_iff hz).mp hzero), add_zero]
    rw [hlifts.eq_zero ((eq_zero_iff hz).mp hzero)] at hlifts
    exact ⟨hx, hy, hz, hlifts⟩
  · have hzz := canonical_square hz
    have hbz := canonical_multiply clmul (canonical_b (c := c)) (canonical_square hzz)
    have hxx := canonical_square hx
    have hz3 := canonical_multiply clmul hzz hxx
    have hz3Eq : toField (c.field.multiply clmul (c.field.square p.z) (c.field.square p.x))
        = toField p.z ^ 2 * toField p.x ^ 2 := by
      rw [toField_multiply clmul hzz hxx, toField_square hz, toField_square hx]
    have hbEq : toField (c.field.multiply clmul (b c) (c.field.square (c.field.square p.z)))
        = toField (b c) * toField p.z ^ 4 := by
      rw [toField_multiply clmul canonical_b (canonical_square hzz), toField_square hzz,
        toField_square hz, ← pow_mul]
    dsimp only
    generalize c.field.multiply clmul (c.field.square p.z) (c.field.square p.x) = z3 at *
    generalize c.field.multiply clmul (b c) (c.field.square (c.field.square p.z)) = bigB at *
    have hx3 := canonical_add (canonical_square hxx) hbz
    have hx3Eq : toField (c.field.add (c.field.square (c.field.square p.x)) bigB)
        = toField p.x ^ 4 + toField (b c) * toField p.z ^ 4 := by
      rw [toField_add, toField_square hxx, toField_square hx, ← pow_mul, hbEq]
    generalize c.field.add (c.field.square (c.field.square p.x)) bigB = x3 at *
    have hyy := canonical_square hy
    have hsum := canonical_add (canonical_add hyy hz3) hbz
    have hleft := canonical_multiply clmul hsum hx3
    have hright := canonical_multiply clmul hz3 hbz
    refine ⟨hx3, canonical_add hleft hright, hz3, ?_⟩
    have hdouble := hlifts.double
    rw [ha _] at hdouble
    rw [toField_add, toField_multiply clmul hsum hx3, toField_multiply clmul hz3 hbz, toField_add,
      toField_add, toField_square hy, hx3Eq, hz3Eq, hbEq]
    exact hdouble

theorem Holds.mixedAdd (ha : AIsOne c) (h : p.Holds R) (hQ : Represents Q S) :
    (p.mixedAdd clmul Q).Holds (R + S) := by
  obtain ⟨hx, hy, hz, hlifts⟩ := h
  cases hQ with
  | infinity =>
    rw [add_zero]
    exact ⟨hx, hy, hz, hlifts⟩
  | @affine x2 y2 S hx2 hy2 hS =>
    rw [ProjectivePoint.mixedAdd]
    split
    · rename_i hzero
      rw [hlifts.eq_zero ((eq_zero_iff hz).mp hzero), zero_add]
      exact holds_fromAffine (.affine hx2 hy2 hS)
    · rename_i hne
      have hz0 : toField p.z ≠ 0 := fun h0 => hne ((eq_zero_iff hz).mpr h0)
      have hzz := canonical_square hz
      have hyz := canonical_multiply clmul hy2 hzz
      have hxz := canonical_multiply clmul hx2 hz
      have haEq : toField (c.field.add p.y (c.field.multiply clmul y2 (c.field.square p.z)))
          = toField p.y + toField y2 * toField p.z ^ 2 := by
        rw [toField_add, toField_multiply clmul hy2 hzz, toField_square hz]
      have hbEq : toField (c.field.add p.x (c.field.multiply clmul x2 p.z))
          = toField p.x + toField x2 * toField p.z := by
        rw [toField_add, toField_multiply clmul hx2 hz]
      have hav := canonical_add hy hyz
      have hbv := canonical_add hx hxz
      dsimp only
      generalize c.field.add p.y (c.field.multiply clmul y2 (c.field.square p.z)) = a at *
      generalize c.field.add p.x (c.field.multiply clmul x2 p.z) = bVal at *
      split
      · -- the first coordinates agree: the points are equal or opposite
        rename_i hb0
        rw [eq_zero_iff hbv, hbEq] at hb0
        split
        · rename_i ha0
          rw [eq_zero_iff hav, haEq] at ha0
          rw [← hlifts.add_of_eq hz0 hS hb0 ha0]
          exact Holds.double clmul ha ⟨hx, hy, hz, hlifts⟩
        · rename_i ha0
          rw [eq_zero_iff hav, haEq] at ha0
          rw [hlifts.add_of_ne hz0 hS hb0 ha0]
          exact holds_infinity
      · rename_i hb0
        rw [eq_zero_iff hbv] at hb0
        have hcc := canonical_multiply clmul hbv hz
        have hccEq : toField (c.field.multiply clmul bVal p.z) = toField bVal * toField p.z :=
          toField_multiply clmul hbv hz
        generalize c.field.multiply clmul bVal p.z = cc at *
        have hz3 := canonical_square hcc
        have hd := canonical_multiply clmul hx2 hz3
        have hsum := canonical_add (canonical_add hav (canonical_square hbv)) hcc
        have hprod := canonical_multiply clmul hcc hsum
        have hx3 := canonical_add (canonical_square hav) hprod
        have hx3Eq : toField (c.field.add (c.field.square a) (c.field.multiply clmul cc
              (c.field.add (c.field.add a (c.field.square bVal)) cc)))
            = toField a ^ 2 + toField cc * (toField a + toField bVal ^ 2 + toField cc) := by
          rw [toField_add, toField_square hav, toField_multiply clmul hcc hsum, toField_add,
            toField_add, toField_square hbv]
        generalize c.field.add (c.field.square a) (c.field.multiply clmul cc
          (c.field.add (c.field.add a (c.field.square bVal)) cc)) = x3 at *
        have hac := canonical_multiply clmul hav hcc
        have hleft := canonical_multiply clmul (canonical_add hd hx3) (canonical_add hac hz3)
        have hzz3 := canonical_square hz3
        have hright := canonical_multiply clmul (canonical_add hy2 hx2) hzz3
        refine ⟨hx3, canonical_add hleft hright, hz3, ?_⟩
        have hadd := hlifts.add hz0 hS haEq hbEq hccEq hb0
        rw [ha _, ← hx3Eq] at hadd
        rw [toField_add, toField_multiply clmul (canonical_add hd hx3) (canonical_add hac hz3),
          toField_multiply clmul (canonical_add hy2 hx2) hzz3, toField_add, toField_add, toField_add,
          toField_multiply clmul hx2 hz3, toField_multiply clmul hav hcc, toField_square hz3,
          toField_square hcc]
        exact hadd

theorem Holds.toAffine (h : p.Holds R) : Represents (p.toAffine clmul) R := by
  obtain ⟨hx, hy, hz, hlifts⟩ := h
  rw [ProjectivePoint.toAffine]
  split
  · rename_i hzero
    rw [hlifts.eq_zero ((eq_zero_iff hz).mp hzero)]
    exact .infinity
  · rename_i hne
    obtain ⟨hinv, hinvEq⟩ := c.field.inverts clmul hz
    have hsq := canonical_square hinv
    refine .affine (canonical_multiply clmul hx hinv) (canonical_multiply clmul hy hsq) ?_
    rw [toField_multiply clmul hx hinv, toField_multiply clmul hy hsq, toField_square hinv, hinvEq]
    exact hlifts.at fun h0 => hne ((eq_zero_iff hz).mpr h0)

end ProjectivePoint

/-! ## The loop -/

variable {g q : Point c}

theorem entryAt_represents (hg : Represents g G) (hq : Represents q H)
    (s r : Vector UInt8 c.scalarBytes) (i : Fin c.field.degree) :
    Represents (entryAt clmul g q s r i) ((beNat s.toList / 2 ^ i.val % 2) • G
      + (beNat r.toList / 2 ^ i.val % 2) • H) := by
  have hentry (bs br : Nat) (hbs : bs = 0 ∨ bs = 1) (hbr : br = 0 ∨ br = 1) (index : Nat)
      (h : index < 4) (hindex : index = 2 * bs + br) :
      Represents (getElem (#v[.infinity, q, g, g.add clmul q] : Vector (Point c) 4) index h)
        (bs • G + br • H) := by
    obtain rfl | rfl := hbs <;> obtain rfl | rfl := hbr <;> subst hindex
    · have hsum : 0 • G + 0 • H = 0 := by rw [zero_nsmul, zero_nsmul, add_zero]
      rw [hsum]
      exact .infinity
    · have hsum : 0 • G + 1 • H = H := by rw [zero_nsmul, one_nsmul, zero_add]
      rw [hsum]
      exact hq
    · have hsum : 1 • G + 0 • H = G := by rw [zero_nsmul, one_nsmul, add_zero]
      rw [hsum]
      exact hg
    · rw [one_nsmul, one_nsmul]
      exact add_represents clmul hg hq
  exact hentry _ _ (Nat.mod_two_eq_zero_or_one _) (Nat.mod_two_eq_zero_or_one _) _
    (tableIndex_lt s r i) (toNat_tableIndex s r i)

theorem shamirStep_holds (ha : AIsOne c) (h : p.Holds R) (hQ : Represents Q S) :
    (shamirStep clmul p Q).Holds (R + R + S) := by
  have hdouble := h.double clmul ha
  rw [shamirStep]
  split
  · exact hdouble.mixedAdd clmul ha hQ
  · rename_i hinfinity
    rw [hQ.eq_infinity_iff.mp (not_not.mp hinfinity), add_zero]
    exact hdouble

/-- A scalar without a bit from `i` on is below `2 ^ i`. -/
theorem div_eq_zero_of_bits {n x i : Nat} (hx : x < 2 ^ n)
    (h : ∀ j, i ≤ j → j < n → x / 2 ^ j % 2 = 0) : x / 2 ^ i = 0 := by
  refine Nat.div_eq_of_lt (Nat.lt_pow_two_of_testBit x fun j hj => ?_)
  rw [Nat.testBit_eq_decide_div_mod_eq]
  by_cases hjn : j < n
  · rw [h j hj hjn]
    rfl
  · have hzero : x / 2 ^ j = 0 :=
      Nat.div_eq_of_lt (Nat.lt_of_lt_of_le hx (Nat.pow_le_pow_right (by decide) (not_lt.mp hjn)))
    rw [hzero]
    rfl

/-- The last index of a property, and none beyond. -/
theorem findRev?_finRange {n : Nat} {p : Fin n → Bool} {top : Fin n}
    (h : (List.finRange n).findRev? p = some top) {j : Fin n} (hj : top < j) : p j = false := by
  rw [List.findRev?_eq_find?_reverse, List.find?_eq_some_iff_append] at h
  obtain ⟨-, before, after, hlist, hbefore⟩ := h
  have hsorted : (List.finRange n).reverse.Pairwise (· > ·) :=
    List.pairwise_reverse.mpr (List.pairwise_lt_finRange n)
  have hmem : j ∈ (List.finRange n).reverse := List.mem_reverse.mpr (List.mem_finRange j)
  rw [hlist] at hsorted hmem
  rcases List.mem_append.mp hmem with hmem | hmem
  · simpa using hbefore j hmem
  · rcases List.mem_cons.mp hmem with rfl | hmem
    · exact absurd hj (lt_irrefl j)
    · have hlt := (List.pairwise_cons.mp (List.pairwise_append.mp hsorted).2.1).1 j hmem
      exact absurd (lt_trans hj hlt) (lt_irrefl top)

/-- After every turn the accumulator is the combination of the bits read. -/
theorem shamir_represents (ha : AIsOne c) (hg : Represents g G) (hq : Represents q H)
    {s r : Vector UInt8 c.scalarBytes} (hs : beNat s.toList < 2 ^ c.field.degree)
    (hr : beNat r.toList < 2 ^ c.field.degree) :
    Represents (shamirDoubleScalarMultiply clmul g s q r)
      (beNat s.toList • G + beNat r.toList • H) := by
  -- an index without a bit of either scalar
  have hclear (i : Fin c.field.degree)
      (h : (bitAt s i.val (Nat.lt_of_lt_of_le i.isLt c.bits) != 0
        || bitAt r i.val (Nat.lt_of_lt_of_le i.isLt c.bits) != 0) = false) :
      beNat s.toList / 2 ^ i.val % 2 = 0 ∧ beNat r.toList / 2 ^ i.val % 2 = 0 := by
    rw [Bool.or_eq_false_iff, bne_eq_false_iff_eq, bne_eq_false_iff_eq] at h
    have hzero : (0 : UInt64).toNat = 0 := rfl
    rw [← toNat_bitAt s (Nat.lt_of_lt_of_le i.isLt c.bits),
      ← toNat_bitAt r (Nat.lt_of_lt_of_le i.isLt c.bits), h.1, h.2]
    exact ⟨hzero, hzero⟩
  rw [shamirDoubleScalarMultiply]
  dsimp only
  split
  · rename_i hnone
    rw [List.findRev?_eq_find?_reverse, List.find?_eq_none] at hnone
    have hbits (j : Nat) (hj : j < c.field.degree) :
        beNat s.toList / 2 ^ j % 2 = 0 ∧ beNat r.toList / 2 ^ j % 2 = 0 :=
      hclear ⟨j, hj⟩ (by simpa using hnone ⟨j, hj⟩ (by simp))
    have hs0 := div_eq_zero_of_bits (i := 0) hs fun j _ hj => (hbits j hj).1
    have hr0 := div_eq_zero_of_bits (i := 0) hr fun j _ hj => (hbits j hj).2
    rw [Nat.pow_zero, Nat.div_one] at hs0 hr0
    rw [hs0, hr0, zero_nsmul, zero_nsmul, add_zero]
    exact .infinity
  · rename_i top htop
    have hbits (j : Nat) (hj : top.val + 1 ≤ j) (hjn : j < c.field.degree) :
        beNat s.toList / 2 ^ j % 2 = 0 ∧ beNat r.toList / 2 ^ j % 2 = 0 :=
      hclear ⟨j, hjn⟩ (findRev?_finRange htop hj)
    have hs0 := div_eq_zero_of_bits hs fun j hj hjn => (hbits j hj hjn).1
    have hr0 := div_eq_zero_of_bits hr fun j hj hjn => (hbits j hj hjn).2
    have hloop := foldr_invariant (n := top.val) (f := fun i acc =>
        shamirStep clmul acc (entryAt clmul g q s r ⟨i.val, Nat.lt_trans i.isLt top.isLt⟩))
      (a := ProjectivePoint.fromAffine (entryAt clmul g q s r top))
      (fun i acc => acc.Holds ((beNat s.toList / 2 ^ i) • G + (beNat r.toList / 2 ^ i) • H)) (by
        have hstart := ProjectivePoint.holds_fromAffine (entryAt_represents clmul hg hq s r top)
        rw [div_pow_bit (beNat s.toList), div_pow_bit (beNat r.toList), hs0, hr0, Nat.mul_zero,
          Nat.zero_add, Nat.zero_add]
        exact hstart) (by
        intro i acc hacc
        have hstep := shamirStep_holds clmul ha hacc (entryAt_represents clmul hg hq s r
          ⟨i.val, Nat.lt_trans i.isLt top.isLt⟩)
        have hsum (a b d e : Nat) : a • G + d • H + (a • G + d • H) + (b • G + e • H)
            = (2 * a + b) • G + (2 * d + e) • H := by
          rw [add_nsmul, add_nsmul, two_mul, two_mul, add_nsmul, add_nsmul]
          abel
        rw [hsum, ← div_pow_bit, ← div_pow_bit] at hstep
        exact hstep)
    rw [Nat.pow_zero, Nat.div_one, Nat.div_one] at hloop
    exact hloop.toAffine clmul

/-- Either build computes `s*G + r*Q`. -/
theorem verifyCombine_represents (smallTables : Bool) {g q : Point params163}
    {G H : Group params163} (hg : Represents g G) (hq : Represents q H) {s r : Vector UInt8 21}
    (hs : beNat s.toList < 2 ^ 163) (hr : beNat r.toList < 2 ^ 163) :
    Represents (verifyCombine clmul smallTables g s q r)
      (beNat s.toList • G + beNat r.toList • H) := by
  rw [verifyCombine]
  split
  · exact add_represents clmul (scalarMultiply_represents clmul hg hs)
      (scalarMultiply_represents clmul hq hr)
  · exact shamir_represents clmul aIsOne163 hg hq hs hr

end Group

/-- **The two builds agree** on every pair of curve points or infinities and all scalars of 163
bits. -/
theorem verify_combine_builds_agree (clmul : Bool) (g q : Point params163)
    (hg : g = .infinity ∨ g.isOnCurve clmul = true) (hq : q = .infinity ∨ q.isOnCurve clmul = true)
    (s r : Vector UInt8 21) (hs : beNat s.toList < 2 ^ 163) (hr : beNat r.toList < 2 ^ 163) :
    verifyCombine clmul false g s q r = verifyCombine clmul true g s q r := by
  have hgroup {P : Point params163} (hP : P = .infinity ∨ P.isOnCurve clmul = true) :
      ∃ G, Represents P G := by
    obtain rfl | hP := hP
    · exact ⟨0, .infinity⟩
    · exact ((isOnCurve_iff clmul P).mp hP).2
  obtain ⟨G, hG⟩ := hgroup hg
  obtain ⟨H, hH⟩ := hgroup hq
  exact (verifyCombine_represents clmul false hG hH hs hr).unique
    (verifyCombine_represents clmul true hG hH hs hr)

/-- At `2*G + 3*G`. -/
theorem verify_combine_builds_agree_base :
    verifyCombine true false (Point.generator params163) ((Vector.replicate 21 0).set 20 2)
        (Point.generator params163) ((Vector.replicate 21 0).set 20 3)
      = verifyCombine true true (Point.generator params163) ((Vector.replicate 21 0).set 20 2)
        (Point.generator params163) ((Vector.replicate 21 0).set 20 3) := by
  have hbase : (Point.generator params163).isOnCurve true = true := by decide +kernel
  exact verify_combine_builds_agree true _ _ (.inr hbase) (.inr hbase) _ _ (by decide +kernel)
    (by decide +kernel)

end UaCrypt.Hazmat.CurvePoint
