import UaCrypt.Lib.BinaryCurve
import UaCrypt.Lib.Residues
import UaCrypt.Lib.SpacedPoly

/-!
# Multiples of a point of a binary curve, by computation

The ladder of `Rungs` over remainders with room between their coefficients, its numbers evaluated
at every turn. It needs no inversion, so that a run of it shows whether a multiple is the point
at infinity.

- `climb`: the run to the multiple `n`.
- `nsmul_eq_zero_of_climb`: a run that ends with a zero denominator.
-/

namespace BinaryCurve

open SpacedPoly Residues

/-- `x₁ / z₁` and `x₂ / z₂`. -/
structure Climb where
  x₁ : Nat
  z₁ : Nat
  x₂ : Nat
  z₂ : Nat

namespace Climb

/-- `k s`, the numbers evaluated first. -/
def force (s : Climb) (k : Climb → Climb) : Climb :=
  strictly s.x₁ fun x₁ => strictly s.z₁ fun z₁ => strictly s.x₂ fun x₂ => strictly s.z₂ fun z₂ =>
    k ⟨x₁, z₁, x₂, z₂⟩

theorem force_eq (s : Climb) (k : Climb → Climb) : s.force k = k s := by
  rw [force, strictly_eq, strictly_eq, strictly_eq, strictly_eq]

section

variable (p : Spacing) (b x : Nat)

/-- The sum of the two multiples. -/
def sum (s : Climb) (k : Nat → Nat → Climb) : Climb :=
  strictly (p.mul s.x₁ s.z₂) fun u => strictly (p.mul s.x₂ s.z₁) fun v =>
    strictly (p.mul (u ^^^ v) (u ^^^ v)) fun z => k (p.mul x z ^^^ p.mul u v) z

/-- The double of one. -/
def double (X Z : Nat) (k : Nat → Nat → Climb) : Climb :=
  strictly (p.mul X X) fun xx => strictly (p.mul Z Z) fun zz =>
    k (p.mul xx xx ^^^ p.mul b (p.mul zz zz)) (p.mul xx zz)

/-- One bit. -/
def step (s : Climb) (bit : Bool) : Climb :=
  s.sum p x fun X Z =>
    if bit then double p b s.x₂ s.z₂ fun X₂ Z₂ => ⟨X, Z, X₂, Z₂⟩
    else double p b s.x₁ s.z₁ fun X₁ Z₁ => ⟨X₁, Z₁, X, Z⟩

end

end Climb

/-- From the point with first coordinate `x` to its multiple `n`, for `n` below `2 ^ count`. -/
def climb (p : Spacing) (b x n count : Nat) : Climb :=
  strictly (space p.gap p.degree b) fun b => strictly (space p.gap p.degree x) fun x =>
    fromTop n Climb.force (Climb.step p b x) count ⟨1, 0, x, 1⟩

/-! ## What the numbers stand for -/

section

open Polynomial

variable {K : Type*} [Field K] (φ : (ZMod 2)[X] →+* K) {p : Spacing}

/-- The element of the field. -/
noncomputable def val (p : Spacing) (n : Nat) : K := φ (p.poly n)

theorem val_xor (m n : Nat) : val φ p (m ^^^ n) = val φ p m + val φ p n := by
  rw [val, Spacing.poly_xor, map_add]
  rfl

theorem val_zero : val φ p 0 = 0 := by
  rw [val, Spacing.poly, toPoly_zero p.gap_pos, map_zero]

theorem val_one : val φ p 1 = 1 := by
  have hone := toPoly_two_pow p.gap_pos 0
  rw [Nat.mul_zero, Nat.pow_zero, pow_zero] at hone
  rw [val, Spacing.poly, hone, map_one]

theorem val_space {n : Nat} (hn : n < 2 ^ p.degree) :
    val φ p (space p.gap p.degree n) = φ (BinaryPoly.ofNat n) := by
  rw [val, Spacing.poly, toPoly_space p.gap_pos hn]

variable [CharP K 2] (hφ : φ p.modulus = 0)

include hφ

theorem val_mul {m n : Nat} (hm : p.Reduced m) (hn : p.Reduced n) :
    val φ p (p.mul m n) = val φ p m * val φ p n := by
  obtain ⟨q, hq⟩ := Spacing.dvd_mul hm hn
  have hsum := congrArg φ hq
  rw [map_add, map_mul, map_mul, hφ, zero_mul, CharTwo.add_eq_zero] at hsum
  exact hsum.symm

theorem Climb.sum_spec {x : Nat} (hx : p.Reduced x) {s : Climb} (hx₁ : p.Reduced s.x₁)
    (hz₁ : p.Reduced s.z₁) (hx₂ : p.Reduced s.x₂) (hz₂ : p.Reduced s.z₂) :
    ∃ X Z, (∀ k, s.sum p x k = k X Z) ∧ p.Reduced X ∧ p.Reduced Z
      ∧ val φ p X = val φ p x
          * (val φ p s.x₁ * val φ p s.z₂ + val φ p s.x₂ * val φ p s.z₁) ^ 2
        + val φ p s.x₁ * val φ p s.x₂ * val φ p s.z₁ * val φ p s.z₂
      ∧ val φ p Z = (val φ p s.x₁ * val φ p s.z₂ + val φ p s.x₂ * val φ p s.z₁) ^ 2 := by
  have hu := Spacing.reduced_mul (p := p) s.x₁ s.z₂
  have hv := Spacing.reduced_mul (p := p) s.x₂ s.z₁
  have huv := hu.xor hv
  have hz := Spacing.reduced_mul (p := p) (p.mul s.x₁ s.z₂ ^^^ p.mul s.x₂ s.z₁)
    (p.mul s.x₁ s.z₂ ^^^ p.mul s.x₂ s.z₁)
  have hzEq := val_mul φ hφ huv huv
  rw [val_xor, val_mul φ hφ hx₁ hz₂, val_mul φ hφ hx₂ hz₁, ← pow_two] at hzEq
  have hX := (Spacing.reduced_mul (p := p) x (p.mul (p.mul s.x₁ s.z₂ ^^^ p.mul s.x₂ s.z₁)
    (p.mul s.x₁ s.z₂ ^^^ p.mul s.x₂ s.z₁))).xor
    (Spacing.reduced_mul (p.mul s.x₁ s.z₂) (p.mul s.x₂ s.z₁))
  refine ⟨_, _, fun k => ?_, hX, hz, ?_, hzEq⟩
  · rw [Climb.sum, strictly_eq, strictly_eq, strictly_eq]
  · rw [val_xor, val_mul φ hφ hx hz, hzEq, val_mul φ hφ hu hv, val_mul φ hφ hx₁ hz₂,
      val_mul φ hφ hx₂ hz₁]
    ring

theorem Climb.double_spec {b X Z : Nat} (hb : p.Reduced b) (hX : p.Reduced X)
    (hZ : p.Reduced Z) :
    ∃ X' Z', (∀ k, Climb.double p b X Z k = k X' Z') ∧ p.Reduced X' ∧ p.Reduced Z'
      ∧ val φ p X' = val φ p X ^ 4 + val φ p b * val φ p Z ^ 4
      ∧ val φ p Z' = val φ p X ^ 2 * val φ p Z ^ 2 := by
  have hxx := Spacing.reduced_mul (p := p) X X
  have hzz := Spacing.reduced_mul (p := p) Z Z
  have hzzzz := Spacing.reduced_mul (p := p) (p.mul Z Z) (p.mul Z Z)
  have hX' := (Spacing.reduced_mul (p := p) (p.mul X X) (p.mul X X)).xor
    (Spacing.reduced_mul b (p.mul (p.mul Z Z) (p.mul Z Z)))
  refine ⟨_, _, fun k => ?_, hX', Spacing.reduced_mul (p.mul X X) (p.mul Z Z), ?_, ?_⟩
  · rw [Climb.double, strictly_eq, strictly_eq]
  · rw [val_xor, val_mul φ hφ hxx hxx, val_mul φ hφ hb hzzzz, val_mul φ hφ hzz hzz,
      val_mul φ hφ hX hX, val_mul φ hφ hZ hZ]
    ring
  · rw [val_mul φ hφ hxx hzz, val_mul φ hφ hX hX, val_mul φ hφ hZ hZ]
    ring

omit hφ

variable [DecidableEq K] {a : K} {b x n : Nat} {y : K} {D : (curve a (val φ p b)).Point}

/-- The state holds the multiple `k` and the next. -/
structure Climb.Holds (D : (curve a (val φ p b)).Point) (k : Nat) (s : Climb) : Prop where
  x₁ : p.Reduced s.x₁
  z₁ : p.Reduced s.z₁
  x₂ : p.Reduced s.x₂
  z₂ : p.Reduced s.z₂
  rungs : Rungs D k (val φ p s.x₁) (val φ p s.z₁) (val φ p s.x₂) (val φ p s.z₂)

theorem Climb.Holds.start (hx : p.Reduced x) (hD : At D (val φ p x) y) (hdegree : 0 < p.degree) :
    Climb.Holds φ D 0 ⟨1, 0, x, 1⟩ := by
  have hzero : p.Reduced 0 := fun i hi => by
    rw [Nat.zero_testBit] at hi
    cases hi
  have hone : p.Reduced 1 := fun i hi => by
    obtain rfl : i = 0 := by simpa [Nat.testBit_one_eq_true_iff_self_eq_zero] using hi
    exact ⟨0, hdegree, Nat.mul_zero _⟩
  refine ⟨hone, hzero, hx, hone, ?_⟩
  rw [val_zero, val_one]
  exact Rungs.start hD

include hφ

theorem Climb.Holds.step (hb : val φ p b ≠ 0) (hbr : p.Reduced b) (hx : p.Reduced x)
    (hD : At D (val φ p x) y) {k : Nat} {s : Climb} (h : Climb.Holds φ D k s) (bit : Bool) :
    Climb.Holds φ D (2 * k + bit.toNat) (s.step p b x bit) := by
  obtain ⟨X, Z, hsum, hX, hZ, hXval, hZval⟩ := Climb.sum_spec φ hφ hx h.x₁ h.z₁ h.x₂ h.z₂
  rw [Climb.step, hsum]
  cases bit with
  | false =>
    obtain ⟨X', Z', hdouble, hX', hZ', hXval', hZval'⟩ :=
      Climb.double_spec φ hφ hbr h.x₁ h.z₁
    rw [if_neg Bool.false_ne_true, hdouble]
    refine ⟨hX', hZ', hX, hZ, ?_⟩
    dsimp only
    rw [hXval, hZval, hXval', hZval']
    exact h.rungs.double_low hb hD
  | true =>
    obtain ⟨X', Z', hdouble, hX', hZ', hXval', hZval'⟩ :=
      Climb.double_spec φ hφ hbr h.x₂ h.z₂
    rw [if_pos rfl, hdouble]
    refine ⟨hX, hZ, hX', hZ', ?_⟩
    dsimp only
    rw [hXval, hZval, hXval', hZval']
    exact h.rungs.double_high hb hD

omit hφ

/-- **A zero denominator at the end of the run** puts the multiple at infinity. -/
theorem nsmul_eq_zero_of_climb {count bn xn : Nat} {β ξ : K} {D : (curve a β).Point}
    (hφ : φ p.modulus = 0) (hdegree : 0 < p.degree) (hbn : bn < 2 ^ p.degree)
    (hxn : xn < 2 ^ p.degree) (hβ : β = φ (BinaryPoly.ofNat bn))
    (hξ : ξ = φ (BinaryPoly.ofNat xn)) (hb : β ≠ 0) (hD : At D ξ y) (hn : n < 2 ^ count)
    (hclimb : (climb p bn xn n count).z₁ = 0) : n • D = 0 := by
  rw [← val_space φ hbn] at hβ
  rw [← val_space φ hxn] at hξ
  subst hβ hξ
  rw [climb, strictly_eq, strictly_eq] at hclimb
  have hbr : p.Reduced (space p.gap p.degree bn) := fits_space _ _ _
  have hxr : p.Reduced (space p.gap p.degree xn) := fits_space _ _ _
  have hstart : Climb.Holds φ D (n / 2 ^ count) ⟨1, 0, space p.gap p.degree xn, 1⟩ := by
    rw [Nat.div_eq_of_lt hn]
    exact Climb.Holds.start φ hxr hD hdegree
  have hrun := fromTop_invariant Climb.force_eq (Climb.Holds φ D)
    (fun k s bit h => h.step φ hφ hb hbr hxr hD bit) hstart
  refine hrun.rungs.low.z_eq_zero_iff.mp ?_
  rw [hclimb, val_zero]

end

end BinaryCurve
