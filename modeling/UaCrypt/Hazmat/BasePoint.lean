import UaCrypt.Hazmat.CurvePoint
import UaCrypt.Lib.BinaryLadder
import UaCrypt.Lib.Primality

/-!
# The base points and their orders

Both are computed: that `n` is prime, and that the multiple `n` of the base point is the point at
infinity. The order of the base point is then `n`.

- `order_prime`: by certificates.
- `addOrderOf_base`: by a run of the ladder.
-/

namespace UaCrypt.Hazmat.CurvePoint

open BinaryPoly BinaryIrreducible Limbs Limb Residues
open Gf2mCurve Gf2mCurve.Reduction
open Gf2mWide (Elem poly below_poly)

/-! ## Primes -/

/-- The factors of `n - 1` at m = 163, and theirs. -/
def orderCertificates163 : List Certificate := [
  ⟨329885965333, 14, [2, 2, 3, 3, 3, 7, 11, 11, 19, 59, 3217]⟩,
  ⟨34348562873, 3, [2, 2, 2, 13, 7529, 43867]⟩,
  ⟨10277406349663459222501116673, 5,
    [2, 2, 2, 2, 2, 2, 2, 2, 3, 1181, 34348562873, 329885965333]⟩,
  ⟨41109625398653836890004466693, 2, [2, 2, 10277406349663459222501116673]⟩,
  ⟨2347561, 13, [2, 2, 2, 3, 3, 5, 6521]⟩,
  ⟨9827053, 5, [2, 2, 3, 37, 22133]⟩,
  ⟨138417638206399, 3, [2, 3, 2347561, 9827053]⟩,
  ⟨5846006549323611672814742649529786791204665225549, 2,
    [2, 2, 13, 23, 859, 138417638206399, 41109625398653836890004466693]⟩]

/-- The factors of `n - 1` at m = 257, and theirs. -/
def orderCertificates257 : List Certificate := [
  ⟨1076461, 6, [2, 2, 3, 5, 7, 11, 233]⟩,
  ⟨17223377, 3, [2, 2, 2, 2, 1076461]⟩,
  ⟨494038583862877, 2, [2, 2, 3, 3, 13, 61291, 17223377]⟩,
  ⟨625452847170402283, 2, [2, 3, 211, 494038583862877]⟩,
  ⟨147442021117, 2, [2, 2, 3, 13, 43, 2549, 8623]⟩,
  ⟨10756813, 5, [2, 2, 3, 11, 19, 4289]⟩,
  ⟨685154699782971892273, 5, [2, 2, 2, 2, 3, 3, 3, 10756813, 147442021117]⟩,
  ⟨517976953035926750558389, 6, [2, 2, 3, 3, 3, 7, 685154699782971892273]⟩,
  ⟨262649, 3, [2, 2, 2, 32831]⟩,
  ⟨525299, 2, [2, 262649]⟩,
  ⟨1963334256910178705357325263034520780578941, 2,
    [2, 2, 5, 911, 6659, 59473, 525299, 517976953035926750558389]⟩,
  ⟨2455946001863314668428232430801674874176837611033241216244607, 5,
    [2, 625452847170402283, 1963334256910178705357325263034520780578941]⟩,
  ⟨93084451, 2, [2, 3, 5, 5, 23, 26981]⟩,
  ⟨4468053649, 7, [2, 2, 2, 2, 3, 93084451]⟩,
  ⟨57896044618658097711785492504343953926772365604796032451169741553099060627213, 3,
    [2, 2, 11, 11, 11, 991, 4468053649,
      2455946001863314668428232430801674874176837611033241216244607]⟩]

theorem checkAll_order163 : checkAll 163 [] orderCertificates163 = true := by decide +kernel

theorem checkAll_order257 : checkAll 256 [] orderCertificates257 = true := by decide +kernel

theorem order_prime (curve : Dstu4145.Curve) : curve.group.nat.Prime := by
  cases curve with
  | m163 =>
    have hall := prime_of_mem_checked checkAll_order163
    have hn : Dstu4145.curve163.nat = 5846006549323611672814742649529786791204665225549 := by
      decide +kernel
    have hprime := hall ⟨_, _, _⟩ (List.mem_of_getLast? rfl)
    rw [← hn] at hprime
    exact hprime
  | m257 =>
    have hall := prime_of_mem_checked checkAll_order257
    have hn : Dstu4145.curve257.nat
        = 57896044618658097711785492504343953926772365604796032451169741553099060627213 := by
      decide +kernel
    have hprime := hall ⟨_, _, _⟩ (List.mem_of_getLast? rfl)
    rw [← hn] at hprime
    exact hprime

/-! ## The multiple `n` of the base point -/

/-- The polynomial of a number in words. -/
theorem poly_eq_ofNat {n : Nat} (a : Elem n) : poly a = ofNat (value a) := by
  ext k
  rw [coeff_ofNat]
  by_cases hk : k / 64 < n
  · rw [coeff_poly a hk, ← limb_of_lt a hk, limb_eq, Nat.testBit_mod_two_pow,
      ← Nat.shiftRight_eq_div_pow, Nat.testBit_shiftRight, decide_eq_true (Nat.mod_lt k (by decide)), Bool.true_and,
      Nat.div_add_mod]
  · have hle : 64 * n ≤ k := by omega
    rw [below_poly a k hle, Nat.testBit_lt_two_pow (Nat.lt_of_lt_of_le (value_lt a)
      (Nat.pow_le_pow_right (by decide) hle))]
    rfl

/-- The number of a coordinate. -/
theorem toField_bytes {c : CurveParams} (bytes : Vector UInt8 c.scalarBytes) :
    toField (limbsFromBeBytes c.field.limbs c.fits bytes : FieldElement c)
      = AdjoinRoot.mk (modulus c.field.degree c.field.terms) (ofNat (beNat bytes.toList)) := by
  rw [toField, poly_eq_ofNat, value_limbsFromBeBytes]

/-- A canonical element is a number below `2^m`. -/
theorem canonical_iff_value_lt {c : CurveParams} (a : FieldElement c) :
    Canonical a ↔ value a < 2 ^ c.field.degree := by
  rw [Canonical, poly_eq_ofNat]
  refine ⟨fun h => Nat.lt_pow_two_of_testBit _ fun i hi => ?_, below_ofNat⟩
  have hcoeff := h i hi
  rw [coeff_ofNat] at hcoeff
  exact bitCoeff_injective hcoeff

/-- A run of the ladder on the base point. -/
theorem nsmul_generator_eq_zero {c : CurveParams} {p : SpacedPoly.Spacing}
    (hdegree : p.degree = c.field.degree) (hterms : p.terms = c.field.terms) {G : Group c}
    (hG : Represents (Point.generator c) G) {n : Nat} (hn : n < 2 ^ c.field.degree)
    (hb : beNat c.bBytes.toList < 2 ^ c.field.degree)
    (hx : beNat c.gxBytes.toList < 2 ^ c.field.degree)
    (hclimb : (BinaryCurve.climb p (beNat c.bBytes.toList) (beNat c.gxBytes.toList) n
      c.field.degree).z₁ = 0) : n • G = 0 := by
  cases hG with
  | affine _ _ h =>
    refine BinaryCurve.nsmul_eq_zero_of_climb
      (AdjoinRoot.mk (modulus c.field.degree c.field.terms)) ?_ ?_ ?_ ?_ (toField_bytes c.bBytes)
      (toField_bytes c.gxBytes) toField_b_ne_zero h hn hclimb
    · rw [SpacedPoly.Spacing.modulus, hdegree, hterms, AdjoinRoot.mk_self]
    · rw [hdegree]
      exact c.field.degree_pos
    · rwa [hdegree]
    · rwa [hdegree]

theorem order_lt (curve : Dstu4145.Curve) :
    curve.group.nat < 2 ^ (params curve).field.degree := by
  cases curve <;> decide +kernel

theorem isOnCurve_generator (curve : Dstu4145.Curve) :
    (Point.generator (params curve)).isOnCurve true = true := by
  cases curve <;> decide +kernel

theorem nsmul_base163 {G : Group params163} (hG : Represents (Point.generator params163) G) :
    Dstu4145.curve163.nat • G = 0 := by
  have hb : beNat params163.bBytes.toList < 2 ^ 163 := by decide +kernel
  have hx : beNat params163.gxBytes.toList < 2 ^ 163 := by decide +kernel
  have hclimb : (BinaryCurve.climb spacing163 (beNat params163.bBytes.toList)
      (beNat params163.gxBytes.toList) Dstu4145.curve163.nat 163).z₁ = 0 := by decide +kernel
  exact nsmul_generator_eq_zero (p := spacing163) rfl rfl hG (order_lt .m163) hb hx hclimb

theorem nsmul_base257 {G : Group params257} (hG : Represents (Point.generator params257) G) :
    Dstu4145.curve257.nat • G = 0 := by
  have hb : beNat params257.bBytes.toList < 2 ^ params257.field.degree := by decide +kernel
  have hx : beNat params257.gxBytes.toList < 2 ^ params257.field.degree := by decide +kernel
  have hclimb : (BinaryCurve.climb spacing257 (beNat params257.bBytes.toList)
      (beNat params257.gxBytes.toList) Dstu4145.curve257.nat 257).z₁ = 0 := by decide +kernel
  exact nsmul_generator_eq_zero (p := spacing257) rfl rfl hG (order_lt .m257) hb hx hclimb

/-- **The base point has the order `n`.** -/
theorem addOrderOf_base (curve : Dstu4145.Curve) : ∃ G : Group (params curve),
    Represents (Point.generator (params curve)) G ∧ addOrderOf G = curve.group.nat := by
  obtain ⟨hne, G, hG⟩ := (isOnCurve_iff true _).mp (isOnCurve_generator curve)
  have : Fact curve.group.nat.Prime := ⟨order_prime curve⟩
  refine ⟨G, hG, addOrderOf_eq_prime ?_ (mt hG.eq_infinity_iff.mpr hne)⟩
  cases curve with
  | m163 => exact nsmul_base163 hG
  | m257 => exact nsmul_base257 hG

end UaCrypt.Hazmat.CurvePoint
