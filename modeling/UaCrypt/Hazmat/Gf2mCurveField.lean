import UaCrypt.Hazmat.Gf2mCurve
import UaCrypt.Hazmat.Scalar
import UaCrypt.Lib.SpacedPoly

/-!
# GF(2^163) and GF(2^257)

The two field types of the binary curves, over what they differ in: the widths, the reduction
and the addition chain of the inversion.

- `Reduction`: the widths, the modulus and `reduce`; `multiply`, `square` and `sqN` over it.
- `toField`: the class modulo the field polynomial, in which the canonical elements are a field.
- `Power`: `self^(2^k - 1)`, what the inversion chains build; `invert163`, `invert257`.
- `CurveField`: a reduction with its inversion.
-/

namespace UaCrypt.Hazmat.Gf2mCurve

open Polynomial BinaryPoly BinaryIrreducible SpacedPoly
open Gf2mWide (Elem poly poly_injective poly_constant polyMulWideHw poly_polyMulWideHw
  poly_replicate_zero below_poly)

/-- What the two field types differ in. -/
structure Reduction where
  limbs : Nat
  degree : Nat
  terms : List Nat
  reduce : Vector UInt64 (2 * limbs) → Elem limbs
  limbs_eq : limbs = degree / 64 + 1
  one_lt_degree : 1 < degree
  terms_lt : ∀ e ∈ terms, e < degree
  irreducible : Irreducible (modulus degree terms)
  poly_reduce : ∀ wide, Below (2 * degree - 1) (poly wide) →
    poly (reduce wide) = poly wide %ₘ modulus degree terms

/-! ## The field polynomials -/

theorem gap163_pos : 0 < 8 := by decide

def spacing163 : Spacing := ⟨8, 163, terms163, gap163_pos, by decide, by decide⟩

def spacing257 : Spacing := ⟨9, 257, terms257, by decide, by decide, by decide⟩

theorem squares_spacing163 : spacing163.squares 163 (2 ^ 8) = 2 ^ 8 := by decide +kernel

theorem squares_spacing257 : spacing257.squares 257 (2 ^ 9) = 2 ^ 9 := by decide +kernel

theorem irreducible_modulus163 : Irreducible (modulus 163 terms163) := by
  refine Spacing.irreducible (p := spacing163) (by norm_num [spacing163]) squares_spacing163 ?_ ?_
  · simp [Spacing.modulus, spacing163, modulus, terms163]
  · simp [Spacing.modulus, spacing163, modulus, terms163]
    decide

theorem irreducible_modulus257 : Irreducible (modulus 257 terms257) := by
  refine Spacing.irreducible (p := spacing257) (by norm_num [spacing257]) squares_spacing257 ?_ ?_
  · simp [Spacing.modulus, spacing257, modulus, terms257]
  · simp [Spacing.modulus, spacing257, modulus, terms257]
    decide

/-- `gf2m163`: three limbs. -/
def gf2m163 : Reduction where
  limbs := 3
  degree := 163
  terms := terms163
  reduce := reduce163
  limbs_eq := by decide
  one_lt_degree := by decide
  terms_lt := by decide
  irreducible := irreducible_modulus163
  poly_reduce := fun wide _ => poly_reduce163 wide

/-- `gf2m257`: five limbs. -/
def gf2m257 : Reduction where
  limbs := 5
  degree := 257
  terms := terms257
  reduce := reduce257
  limbs_eq := by decide
  one_lt_degree := by decide
  terms_lt := by decide
  irreducible := irreducible_modulus257
  poly_reduce := fun _ h => poly_reduce257 h

namespace Reduction

variable (F : Reduction)

theorem fits : F.degree ≤ 64 * F.limbs := by
  have h := F.limbs_eq
  omega

theorem degree_pos : 0 < F.degree := Nat.lt_trans Nat.one_pos F.one_lt_degree

/-- A field element: its limbs, least significant first. -/
abbrev FieldElement := Elem F.limbs

/-- `ZERO`. -/
def zero : F.FieldElement := Vector.replicate F.limbs 0

/-- `ONE`. -/
def one : F.FieldElement := Gf2mWide.constant F.limbs 1

/-- `is_canonical`: no bit of the last limb from the degree on. -/
def isCanonical (a : F.FieldElement) : Bool :=
  getElem a (F.limbs - 1) (by have h := F.limbs_eq; omega) >>> UInt64.ofNat (F.degree % 64) == 0

/-- `add`. -/
def add (a b : F.FieldElement) : F.FieldElement := Gf2mWide.add a b

/-- `multiply`: `clmul` says whether the processor has the instruction. -/
def multiply (clmul : Bool) (a b : F.FieldElement) : F.FieldElement :=
  if clmul then F.reduce (polyMulWideHw a b)
  else F.reduce (polyMulWide F.degree F.fits a b)

/-- `square`. -/
def square (a : F.FieldElement) : F.FieldElement := F.reduce (squareWide a)

/-- `sq_n`: `n` squarings. -/
def sqN (a : F.FieldElement) (n : Nat) : F.FieldElement := F.square^[n] a

end Reduction

section Invert

variable (clmul : Bool)

/-- `gf2m163::invert`: the chain 1, 2, 3, 6, 12, 24, 27, 54, 81, 162. -/
def invert163 (a : gf2m163.FieldElement) : gf2m163.FieldElement :=
  let t1 := a
  let t2 := gf2m163.multiply clmul (gf2m163.square t1) t1
  let t3 := gf2m163.multiply clmul (gf2m163.sqN t2 1) t1
  let t6 := gf2m163.multiply clmul (gf2m163.sqN t3 3) t3
  let t12 := gf2m163.multiply clmul (gf2m163.sqN t6 6) t6
  let t24 := gf2m163.multiply clmul (gf2m163.sqN t12 12) t12
  let t27 := gf2m163.multiply clmul (gf2m163.sqN t24 3) t3
  let t54 := gf2m163.multiply clmul (gf2m163.sqN t27 27) t27
  let t81 := gf2m163.multiply clmul (gf2m163.sqN t54 27) t27
  let t162 := gf2m163.multiply clmul (gf2m163.sqN t81 81) t81
  gf2m163.square t162

/-- `gf2m257::invert`: the chain of the powers of two up to 256. -/
def invert257 (a : gf2m257.FieldElement) : gf2m257.FieldElement :=
  let t1 := a
  let t2 := gf2m257.multiply clmul (gf2m257.sqN t1 1) t1
  let t4 := gf2m257.multiply clmul (gf2m257.sqN t2 2) t2
  let t8 := gf2m257.multiply clmul (gf2m257.sqN t4 4) t4
  let t16 := gf2m257.multiply clmul (gf2m257.sqN t8 8) t8
  let t32 := gf2m257.multiply clmul (gf2m257.sqN t16 16) t16
  let t64 := gf2m257.multiply clmul (gf2m257.sqN t32 32) t32
  let t128 := gf2m257.multiply clmul (gf2m257.sqN t64 64) t64
  let t256 := gf2m257.multiply clmul (gf2m257.sqN t128 128) t128
  gf2m257.square t256

end Invert

namespace Reduction

variable {F : Reduction}

/-! ## Canonical elements -/

/-- A polynomial below the degree. -/
def Canonical (a : F.FieldElement) : Prop := Below F.degree (poly a)

theorem isCanonical_iff (a : F.FieldElement) : F.isCanonical a = true ↔ Canonical a := by
  have hlimbs := F.limbs_eq
  obtain ⟨k, hk⟩ : ∃ k, F.limbs = k + 1 := ⟨F.degree / 64, hlimbs⟩
  have hdegree : F.degree = F.degree % 64 + 64 * k := by omega
  have hmod := Nat.mod_lt F.degree (show 64 > 0 by decide)
  have hlast : F.limbs - 1 < F.limbs := by omega
  have hcut : poly a = words (Gf2mWide.limb a) k + X ^ (64 * k) * ofWord a[F.limbs - 1] := by
    rw [poly, show words (Gf2mWide.limb a) F.limbs = words (Gf2mWide.limb a) (k + 1) by rw [← hk],
      words_succ, Gf2mWide.limb_of_lt a (by omega)]
    simp only [hk, Nat.add_sub_cancel]
  have hbelow : Below F.degree (words (Gf2mWide.limb a) k) := (below_words _ k).mono (by omega)
  rw [isCanonical, beq_iff_eq, ← UInt64.toNat_inj, toNat_shiftRight_ofNat _ hmod,
    Nat.shiftRight_eq_div_pow]
  have hzero : (0 : UInt64).toNat = 0 := rfl
  rw [hzero, Nat.div_eq_zero_iff_lt (Nat.two_pow_pos _), Canonical, hcut]
  refine ⟨fun h => ?_, fun h => ?_⟩
  · refine hbelow.add ?_
    have htop := (below_ofNat h).X_pow_mul (64 * k)
    rwa [← hdegree] at htop
  · have htop := h.add hbelow
    rw [add_right_comm, CharTwo.add_self_eq_zero, zero_add] at htop
    refine toNat_lt_of_below (Below.of_X_pow_mul (k := 64 * k) ?_)
    rw [← hdegree]
    exact htop

theorem canonical_zero : Canonical F.zero := by
  rw [Canonical, zero, poly_replicate_zero]
  exact below_zero _

theorem canonical_one : Canonical F.one := by
  have hlimbs := F.limbs_eq
  have hone : Below 1 (1 : (ZMod 2)[X]) := by
    rw [← ofNat_one]
    exact below_ofNat (by decide)
  rw [Canonical, one, poly_constant (by omega)]
  exact (show ofWord 1 = 1 from ofNat_one) ▸ hone.mono F.degree_pos

theorem canonical_add {a b : F.FieldElement} (ha : Canonical a) (hb : Canonical b) :
    Canonical (F.add a b) := by
  rw [Canonical, add, Gf2mWide.poly_add]
  exact Below.add ha hb

theorem below_modByMonic (p : (ZMod 2)[X]) : Below F.degree (p %ₘ modulus F.degree F.terms) := by
  have hmonic : (modulus F.degree F.terms).Monic :=
    monic_X_pow_add (below_iff.mp (below_tail F.terms_lt))
  rw [below_iff, ← degree_modulus F.terms_lt]
  exact degree_modByMonic_lt p hmonic

theorem below_mul {p q : (ZMod 2)[X]} {m : Nat} (hm : 0 < m) (hp : Below m p) (hq : Below m q) :
    Below (2 * m - 1) (p * q) := by
  intro i hi
  rw [coeff_mul]
  refine Finset.sum_eq_zero fun x hx => ?_
  have hsum := Finset.HasAntidiagonal.mem_antidiagonal.mp hx
  by_cases h : m ≤ x.1
  · rw [hp x.1 h, zero_mul]
  · rw [hq x.2 (by omega), mul_zero]

theorem poly_multiply (clmul : Bool) {a b : F.FieldElement} (ha : Canonical a)
    (hb : Canonical b) :
    poly (F.multiply clmul a b) = poly a * poly b %ₘ modulus F.degree F.terms := by
  have hbelow := below_mul F.degree_pos ha hb
  unfold multiply
  split
  · rw [F.poly_reduce _ (by rw [poly_polyMulWideHw]; exact hbelow), poly_polyMulWideHw]
  · rw [F.poly_reduce _ (by rw [poly_polyMulWide F.fits ha]; exact hbelow),
      poly_polyMulWide F.fits ha]

theorem canonical_multiply (clmul : Bool) {a b : F.FieldElement} (ha : Canonical a)
    (hb : Canonical b) : Canonical (F.multiply clmul a b) := by
  rw [Canonical, poly_multiply clmul ha hb]
  exact below_modByMonic _

theorem poly_square {a : F.FieldElement} (ha : Canonical a) :
    poly (F.square a) = poly a * poly a %ₘ modulus F.degree F.terms := by
  have hbelow := below_mul F.degree_pos ha ha
  rw [square, F.poly_reduce _ (by rw [poly_squareWide, pow_two]; exact hbelow), poly_squareWide,
    pow_two]

theorem canonical_square {a : F.FieldElement} (ha : Canonical a) : Canonical (F.square a) := by
  rw [Canonical, poly_square ha]
  exact below_modByMonic _

theorem square_eq_multiply (clmul : Bool) {a : F.FieldElement} (ha : Canonical a) :
    F.square a = F.multiply clmul a a :=
  poly_injective (by rw [poly_square ha, poly_multiply clmul ha ha])

/-! ## The field -/

instance : Fact (Irreducible (modulus F.degree F.terms)) := ⟨F.irreducible⟩

/-- The class of an element. -/
noncomputable def toField (a : F.FieldElement) : AdjoinRoot (modulus F.degree F.terms) :=
  AdjoinRoot.mk (modulus F.degree F.terms) (poly a)

theorem toField_injective {a b : F.FieldElement} (ha : Canonical a) (hb : Canonical b)
    (h : toField a = toField b) : a = b := by
  have hdvd := AdjoinRoot.mk_eq_mk.mp h
  have hlow : (poly a - poly b).degree < (modulus F.degree F.terms).degree := by
    rw [degree_modulus F.terms_lt, sub_eq_add_neg, CharTwo.neg_eq]
    exact below_iff.mp (Below.add ha hb)
  exact poly_injective (sub_eq_zero.mp (eq_zero_of_dvd_of_degree_lt hdvd hlow))

theorem mk_modByMonic (p : (ZMod 2)[X]) :
    AdjoinRoot.mk (modulus F.degree F.terms) (p %ₘ modulus F.degree F.terms)
      = AdjoinRoot.mk (modulus F.degree F.terms) p := by
  rw [modByMonic_eq_sub_mul_div p, map_sub, map_mul, AdjoinRoot.mk_self, zero_mul, sub_zero]

@[simp] theorem toField_zero : toField F.zero = 0 := by
  rw [toField, zero, poly_replicate_zero, map_zero]

@[simp] theorem toField_one : toField F.one = 1 := by
  have hlimbs := F.limbs_eq
  rw [toField, one, poly_constant (by omega)]
  exact (congrArg _ ofNat_one).trans (map_one _)

theorem toField_add (a b : F.FieldElement) : toField (F.add a b) = toField a + toField b := by
  rw [toField, add, Gf2mWide.poly_add, map_add]
  rfl

theorem toField_multiply (clmul : Bool) {a b : F.FieldElement} (ha : Canonical a)
    (hb : Canonical b) : toField (F.multiply clmul a b) = toField a * toField b := by
  rw [toField, poly_multiply clmul ha hb, mk_modByMonic, map_mul]
  rfl

theorem toField_square {a : F.FieldElement} (ha : Canonical a) :
    toField (F.square a) = toField a ^ 2 := by
  rw [toField, poly_square ha, mk_modByMonic, map_mul, pow_two]
  rfl

theorem sqN_spec {a : F.FieldElement} (ha : Canonical a) (n : Nat) :
    Canonical (F.sqN a n) ∧ toField (F.sqN a n) = toField a ^ 2 ^ n := by
  induction n with
  | zero => exact ⟨ha, by rw [pow_zero, pow_one]; rfl⟩
  | succ n ih =>
    rw [sqN, Function.iterate_succ_apply']
    refine ⟨canonical_square ih.1, (toField_square ih.1).trans ?_⟩
    rw [ih.2, ← pow_mul, Nat.pow_succ]

/-- The field has `2 ^ degree` elements. -/
theorem pow_two_pow_sub_one {x : AdjoinRoot (modulus F.degree F.terms)} (hx : x ≠ 0) :
    x ^ (2 ^ F.degree - 1) = 1 := by
  have hne := F.irreducible.ne_zero
  have hfinite : Module.Finite (ZMod 2) (AdjoinRoot (modulus F.degree F.terms)) :=
    (AdjoinRoot.powerBasis hne).finite
  have : Finite (AdjoinRoot (modulus F.degree F.terms)) := Module.finite_of_finite (ZMod 2)
  have hcard : Nat.card (AdjoinRoot (modulus F.degree F.terms)) = 2 ^ F.degree := by
    rw [Module.natCard_eq_pow_finrank (K := ZMod 2), (AdjoinRoot.powerBasis hne).finrank,
      AdjoinRoot.powerBasis_dim, natDegree_modulus F.terms_lt, Nat.card_zmod]
  have : Fintype (AdjoinRoot (modulus F.degree F.terms)) := Fintype.ofFinite _
  rw [← hcard, Nat.card_eq_fintype_card]
  exact FiniteField.pow_card_sub_one_eq_one x hx

/-! ## Inversion -/

/-- `t` is `a ^ (2 ^ k - 1)`. -/
structure Power (a : F.FieldElement) (k : Nat) (t : F.FieldElement) : Prop where
  canonical : Canonical t
  toField_eq : toField t = toField a ^ (2 ^ k - 1)

theorem Power.self {a : F.FieldElement} (ha : Canonical a) : Power a 1 a :=
  ⟨ha, by rw [pow_one, Nat.add_one_sub_one, pow_one]⟩

/-- `T_(i+j) = T_i^(2^j) * T_j`. -/
theorem Power.combine (clmul : Bool) {a t u : F.FieldElement} {i j : Nat} (ht : Power a i t)
    (hu : Power a j u) : Power a (i + j) (F.multiply clmul (F.sqN t j) u) := by
  obtain ⟨hcanonical, hsq⟩ := sqN_spec ht.canonical j
  refine ⟨canonical_multiply clmul hcanonical hu.canonical, ?_⟩
  rw [toField_multiply clmul hcanonical hu.canonical, hsq, ht.toField_eq, hu.toField_eq, ← pow_mul,
    ← pow_add]
  congr 1
  have hi := Nat.two_pow_pos i
  have hj := Nat.two_pow_pos j
  rw [Nat.sub_mul, Nat.one_mul, Nat.pow_add]
  have hle : 2 ^ j ≤ 2 ^ i * 2 ^ j := Nat.le_mul_of_pos_left _ hi
  omega

/-- The square of the last power is the inverse. -/
theorem Power.square_inverts {a t : F.FieldElement} (h : Power a (F.degree - 1) t) :
    Canonical (F.square t) ∧ toField (F.square t) = (toField a)⁻¹ := by
  have hpos := F.degree_pos
  refine ⟨canonical_square h.canonical, ?_⟩
  rw [toField_square h.canonical, h.toField_eq, ← pow_mul]
  by_cases hzero : toField a = 0
  · have hexp : (2 ^ (F.degree - 1) - 1) * 2 ≠ 0 := by
      have hlt : 2 ^ 1 ≤ 2 ^ (F.degree - 1) :=
        Nat.pow_le_pow_right (by decide) (by have h := F.one_lt_degree; omega)
      omega
    rw [hzero, zero_pow hexp, inv_zero]
  · refine eq_inv_of_mul_eq_one_left ?_
    rw [← pow_succ]
    have hexp : (2 ^ (F.degree - 1) - 1) * 2 + 1 = 2 ^ F.degree - 1 := by
      obtain ⟨k, hk⟩ : ∃ k, F.degree = k + 1 := ⟨F.degree - 1, by omega⟩
      have hk' := Nat.two_pow_pos k
      rw [hk, Nat.add_sub_cancel, Nat.pow_succ]
      omega
    rw [hexp]
    exact pow_two_pow_sub_one hzero

/-- What an inversion is for. Zero has no inverse and is taken to itself. -/
def Inverts (F : Reduction) (invert : Bool → F.FieldElement → F.FieldElement) : Prop :=
  ∀ clmul {a : F.FieldElement}, Canonical a →
    Canonical (invert clmul a) ∧ toField (invert clmul a) = (toField a)⁻¹

end Reduction

open Reduction

theorem inverts163 : gf2m163.Inverts invert163 := by
  intro clmul a ha
  have h1 := Power.self ha
  have h2 := h1.combine clmul h1
  have h3 := h2.combine clmul h1
  have h6 := h3.combine clmul h3
  have h12 := h6.combine clmul h6
  have h24 := h12.combine clmul h12
  have h27 := h24.combine clmul h3
  have h54 := h27.combine clmul h27
  have h81 := h54.combine clmul h27
  have h162 := h81.combine clmul h81
  exact h162.square_inverts

theorem inverts257 : gf2m257.Inverts invert257 := by
  intro clmul a ha
  have h1 := Power.self ha
  have h2 := h1.combine clmul h1
  have h4 := h2.combine clmul h2
  have h8 := h4.combine clmul h4
  have h16 := h8.combine clmul h8
  have h32 := h16.combine clmul h16
  have h64 := h32.combine clmul h32
  have h128 := h64.combine clmul h64
  have h256 := h128.combine clmul h128
  exact h256.square_inverts

/-- A reduction with its inversion. -/
structure CurveField extends Reduction where
  invert : Bool → toReduction.FieldElement → toReduction.FieldElement
  inverts : toReduction.Inverts invert

def field163 : CurveField := ⟨gf2m163, invert163, inverts163⟩

def field257 : CurveField := ⟨gf2m257, invert257, inverts257⟩

/-- The field of a curve. -/
def field : Dstu4145.Curve → CurveField
  | .m163 => field163
  | .m257 => field257

namespace CurveField

variable {F : CurveField}

theorem multiply_invert (clmul : Bool) {a : F.FieldElement} (ha : Canonical a) (h : a ≠ F.zero) :
    F.multiply clmul a (F.invert clmul a) = F.one := by
  obtain ⟨hcanonical, hinv⟩ := F.inverts clmul ha
  have hne : toField a ≠ 0 := by
    intro hzero
    exact h (toField_injective ha canonical_zero (hzero.trans toField_zero.symm))
  refine toField_injective (canonical_multiply clmul ha hcanonical) canonical_one ?_
  rw [toField_multiply clmul ha hcanonical, hinv, mul_inv_cancel₀ hne, toField_one]

theorem invert_zero (clmul : Bool) : F.invert clmul F.zero = F.zero := by
  obtain ⟨hcanonical, hinv⟩ := F.inverts clmul (canonical_zero (F := F.toReduction))
  refine toField_injective hcanonical canonical_zero ?_
  rw [hinv, toField_zero, inv_zero]

end CurveField

/-- Both fields compute modulo their polynomial on either multiplication path, keep their
elements canonical and invert what is not zero. `gf2m163::reduce` is the remainder of every
product, `gf2m257::reduce` of every product of at most 513 bits. -/
theorem curve_field_arithmetic :
    (∀ (curve : Dstu4145.Curve) (clmul : Bool),
      let F := field curve
      (∀ a : F.FieldElement, F.isCanonical a = true ↔ (poly a).degree < F.degree)
      ∧ (∀ a b : F.FieldElement, F.isCanonical a = true → F.isCanonical b = true →
        poly (F.multiply clmul a b) = poly a * poly b %ₘ modulus F.degree F.terms
          ∧ F.isCanonical (F.multiply clmul a b) = true
          ∧ F.isCanonical (F.add a b) = true)
      ∧ (∀ a : F.FieldElement, F.isCanonical a = true →
        F.square a = F.multiply clmul a a
          ∧ (a ≠ F.zero → F.multiply clmul a (F.invert clmul a) = F.one)
          ∧ F.isCanonical (F.square a) = true ∧ F.isCanonical (F.invert clmul a) = true)
      ∧ F.invert clmul F.zero = F.zero)
    ∧ (∀ wide : Vector UInt64 6,
      poly (reduce163 wide) = poly wide %ₘ (X ^ 163 + X ^ 7 + X ^ 6 + X ^ 3 + 1))
    ∧ ∀ wide : Vector UInt64 10, (poly wide).degree < (513 : Nat) →
      poly (reduce257 wide) = poly wide %ₘ (X ^ 257 + X ^ 12 + 1) := by
  refine ⟨?_, ?_, ?_⟩
  · intro curve clmul F
    refine ⟨?_, ?_, ?_, CurveField.invert_zero clmul⟩
    · intro a
      rw [isCanonical_iff, Canonical, below_iff]
    · intro a b ha hb
      rw [isCanonical_iff] at ha hb
      rw [isCanonical_iff, isCanonical_iff]
      exact ⟨poly_multiply clmul ha hb, canonical_multiply clmul ha hb, canonical_add ha hb⟩
    · intro a ha
      rw [isCanonical_iff] at ha
      rw [isCanonical_iff, isCanonical_iff]
      exact ⟨square_eq_multiply clmul ha, CurveField.multiply_invert clmul ha, canonical_square ha,
        (F.inverts clmul ha).1⟩
  · intro wide
    have hmodulus : modulus 163 terms163 = X ^ 163 + X ^ 7 + X ^ 6 + X ^ 3 + 1 := by
      simp only [modulus, terms163, List.map_cons, List.map_nil, List.sum_cons, List.sum_nil]
      ring
    rw [← hmodulus, poly_reduce163]
  · intro wide h
    have hmodulus : modulus 257 terms257 = X ^ 257 + X ^ 12 + 1 := by
      simp only [modulus, terms257, List.map_cons, List.map_nil, List.sum_cons, List.sum_nil]
      ring
    rw [← hmodulus, poly_reduce257 (below_iff.mpr h)]

end UaCrypt.Hazmat.Gf2mCurve
