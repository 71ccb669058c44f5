import Mathlib

/-!
# The curves `y² + xy = x³ + ax² + b` in characteristic two

The points of such a curve with `b ≠ 0` form a group.

- `At P x y`: the affine coordinates of a point; `At.neg`, `At.double`, `At.add`: those of
  `-P`, `P + P` and `P + Q`.
- `Shows X Z P`: `X / Z` is the first coordinate of `P`, or `Z = 0` at infinity. `Shows.double`
  and `Shows.add` are the two halves of a step of the ladder, `At.recover` gets the second
  coordinate back.
- `Rungs D k`: the two coordinates a ladder holds, `Rungs.double_low` and `Rungs.double_high` its
  steps.
- `Lifts X Y Z P`: `P` is `(X / Z, Y / Z²)`, or `Z = 0` at infinity. `Lifts.double` and
  `Lifts.add` double, and add an affine point.
-/

namespace BinaryCurve

open WeierstrassCurve WeierstrassCurve.Affine

variable {K : Type*} [Field K]

/-- `y² + xy = x³ + ax² + b`. -/
def curve (a b : K) : Affine K := ⟨1, a, 0, 0, b⟩

variable {a b : K}

/-- `P` is the affine point `(x, y)`. -/
def At (P : (curve a b).Point) (x y : K) : Prop := ∃ h, P = .some x y h

/-! ## Coordinates -/

section

variable {P Q : (curve a b).Point} {x y x' y' : K}

theorem equation_iff : (curve a b).Equation x y ↔ y ^ 2 + x * y = x ^ 3 + a * x ^ 2 + b := by
  rw [Affine.equation_iff, curve]
  ring_nf

theorem At.equation (h : At P x y) : y ^ 2 + x * y = x ^ 3 + a * x ^ 2 + b := by
  obtain ⟨hns, -⟩ := h
  exact equation_iff.mp hns.1

theorem at_some {h : (curve a b).Nonsingular x y} (hx : x = x') (hy : y = y') :
    At (.some x y h) x' y' := by
  subst hx hy
  exact ⟨h, rfl⟩

theorem At.inj (h : At P x y) (h' : At P x' y') : x = x' ∧ y = y' := by
  obtain ⟨_, rfl⟩ := h
  obtain ⟨_, h'⟩ := h'
  cases h'
  exact ⟨rfl, rfl⟩

theorem At.unique (hP : At P x y) (hQ : At Q x y) : P = Q := by
  obtain ⟨_, rfl⟩ := hP
  obtain ⟨_, rfl⟩ := hQ
  rfl

theorem zero_or_at (P : (curve a b).Point) : P = 0 ∨ ∃ x y, At P x y := by
  cases P with
  | zero => exact Or.inl rfl
  | some x y h => exact Or.inr ⟨x, y, h, rfl⟩

theorem At.ne_zero (h : At P x y) : P ≠ 0 := by
  obtain ⟨_, rfl⟩ := h
  exact Point.some_ne_zero _

end

/-! ## The group law -/

section

variable [CharP K 2] {P Q : (curve a b).Point} {x y x₁ y₁ x₂ y₂ : K}

theorem delta_eq : (curve a b).Δ = b := by
  simp only [WeierstrassCurve.Δ, b₂, b₄, b₆, b₈, curve]
  grind

theorem exists_at (hb : b ≠ 0) (h : y ^ 2 + x * y = x ^ 3 + a * x ^ 2 + b) :
    ∃ P : (curve a b).Point, At P x y := by
  have hns : (curve a b).Nonsingular x y :=
    (equation_iff_nonsingular_of_Δ_ne_zero (by rwa [delta_eq])).mp (equation_iff.mpr h)
  exact ⟨_, hns, rfl⟩

theorem negY_eq (x y : K) : (curve a b).negY x y = x + y := by
  simp only [negY, curve]
  grind

theorem At.neg (h : At P x y) : At (-P) x (x + y) := by
  obtain ⟨hns, rfl⟩ := h
  exact at_some rfl (negY_eq x y)

/-- Points with one first coordinate are equal or opposite. -/
theorem At.eq_or_eq (h₁ : At P x y₁) (h₂ : At Q x y₂) : P = Q ∨ P = -Q := by
  have hzero : (y₁ + y₂) * (y₁ + (x + y₂)) = 0 := by
    have hP := h₁.equation
    have hQ := h₂.equation
    grind
  rcases mul_eq_zero.mp hzero with h | h
  · rw [CharTwo.add_eq_zero] at h
    exact Or.inl (h₁.unique (h ▸ h₂))
  · rw [CharTwo.add_eq_zero] at h
    exact Or.inr (h₁.unique (h ▸ h₂.neg))

variable [DecidableEq K]

/-- Doubling, away from the point of order two. -/
theorem At.double (h : At P x y) (hx : x ≠ 0) :
    At (P + P) ((x + y * x⁻¹) ^ 2 + (x + y * x⁻¹) + a)
      (x ^ 2 + (x + y * x⁻¹ + 1) * ((x + y * x⁻¹) ^ 2 + (x + y * x⁻¹) + a)) := by
  obtain ⟨hns, rfl⟩ := h
  have hne : y ≠ (curve a b).negY x y := by
    rw [negY_eq]
    intro heq
    exact hx (by grind)
  have hslope : (curve a b).slope x x y y = x + y * x⁻¹ := by
    have hden : y - (x + y) = x := by grind
    rw [slope_of_Y_ne rfl hne, negY_eq, hden]
    simp only [curve]
    grind
  rw [Point.add_self_of_Y_ne hne]
  refine at_some ?_ ?_
  · rw [hslope, addX]
    simp only [curve]
    grind
  · rw [addY, negY_eq, negAddY, hslope, addX]
    simp only [curve]
    grind

/-- The point of order two. -/
theorem At.double_of_zero (h : At P 0 y) : P + P = 0 := by
  have hneg : -P = P := h.neg.unique (by rwa [zero_add])
  rw [← eq_neg_iff_add_eq_zero, hneg]

/-- Addition of points with different first coordinates. -/
theorem At.add (h₁ : At P x₁ y₁) (h₂ : At Q x₂ y₂) (hx : x₁ ≠ x₂) {l x₃ : K}
    (hl : l = (y₁ + y₂) * (x₁ + x₂)⁻¹) (hx₃ : x₃ = l ^ 2 + l + x₁ + x₂ + a) :
    At (P + Q) x₃ (l * (x₁ + x₃) + x₃ + y₁) := by
  obtain ⟨hns₁, rfl⟩ := h₁
  obtain ⟨hns₂, rfl⟩ := h₂
  have hslope : (curve a b).slope x₁ x₂ y₁ y₂ = l := by
    rw [slope_of_X_ne hx, hl, CharTwo.sub_eq_add, CharTwo.sub_eq_add, div_eq_mul_inv]
  rw [Point.add_of_X_ne hx]
  refine at_some ?_ ?_
  · rw [hslope, addX, hx₃]
    simp only [curve]
    grind
  · rw [addY, negY_eq, negAddY, hslope, addX, hx₃]
    simp only [curve]
    grind

/-- The sum of points with different first coordinates, by that of their difference. -/
theorem At.add_of_sub (h₁ : At P x₁ y₁) (h₂ : At Q x₂ y₂) (hD : At (Q - P) x y) (hx : x₁ ≠ x₂) :
    ∃ y₃, At (P + Q) (x + x₁ * x₂ * ((x₁ + x₂)⁻¹) ^ 2) y₃ := by
  have hsum := h₁.add h₂ hx rfl rfl
  have hdiff := h₂.add h₁.neg (Ne.symm hx) rfl rfl
  rw [← sub_eq_add_neg] at hdiff
  obtain ⟨hxD, -⟩ := hD.inj hdiff
  have hne : x₁ + x₂ ≠ 0 := by rwa [Ne, CharTwo.add_eq_zero]
  have hsw : x₂ + x₁ = x₁ + x₂ := add_comm _ _
  rw [hsw] at hxD
  have hx₃ : ((y₁ + y₂) * (x₁ + x₂)⁻¹) ^ 2 + (y₁ + y₂) * (x₁ + x₂)⁻¹ + x₁ + x₂ + a
      = x + x₁ * x₂ * ((x₁ + x₂)⁻¹) ^ 2 := by
    rw [hxD]
    grind
  exact ⟨_, hx₃ ▸ hsum⟩

end

/-! ## First coordinates only -/

/-- `X / Z` is the first coordinate of `P`. -/
def Shows (X Z : K) (P : (curve a b).Point) : Prop :=
  (P = 0 ∧ Z = 0 ∧ X ≠ 0) ∨ ∃ x y, At P x y ∧ Z ≠ 0 ∧ X = x * Z

section

variable {P Q D : (curve a b).Point} {x y x₁ y₁ x₂ y₂ X Z X₁ Z₁ X₂ Z₂ : K}

theorem shows_zero : Shows 1 0 (0 : (curve a b).Point) :=
  Or.inl ⟨rfl, rfl, one_ne_zero⟩

theorem At.shows (h : At P x y) : Shows x 1 P :=
  Or.inr ⟨x, y, h, one_ne_zero, (mul_one x).symm⟩

theorem Shows.z_eq_zero_iff (h : Shows X Z P) : Z = 0 ↔ P = 0 := by
  rcases h with ⟨hP, hZ, -⟩ | ⟨x, y, hP, hZ, -⟩
  · simp [hP, hZ]
  · simp [hP.ne_zero, hZ]

theorem Shows.x_eq (h : Shows X Z P) (hP : At P x y) : X * Z⁻¹ = x := by
  rcases h with ⟨h0, -⟩ | ⟨x', y', hP', hZ, hX⟩
  · exact absurd h0 hP.ne_zero
  · obtain ⟨rfl, -⟩ := hP.inj hP'
    rw [hX, mul_assoc, mul_inv_cancel₀ hZ, mul_one]

variable [CharP K 2] [DecidableEq K]

theorem Shows.double (hb : b ≠ 0) (h : Shows X Z P) :
    Shows (X ^ 4 + b * Z ^ 4) (X ^ 2 * Z ^ 2) (P + P) := by
  rcases h with ⟨rfl, rfl, hX⟩ | ⟨x, y, hP, hZ, rfl⟩
  · refine Or.inl ⟨add_zero 0, by simp, ?_⟩
    simpa using hX
  · by_cases hx : x = 0
    · subst hx
      refine Or.inl ⟨hP.double_of_zero, by simp, ?_⟩
      simpa using And.intro hb hZ
    · refine Or.inr ⟨_, _, hP.double hx, ?_, ?_⟩
      · exact mul_ne_zero (pow_ne_zero 2 (mul_ne_zero hx hZ)) (pow_ne_zero 2 hZ)
      · have heq := hP.equation
        grind

/-- The other half of a step: `P` and `Q` differ by `D`, the point of the ladder. -/
theorem Shows.add (hD : At D x y) (h₁ : Shows X₁ Z₁ P) (h₂ : Shows X₂ Z₂ Q) (hQ : Q = P + D) :
    Shows (x * (X₁ * Z₂ + X₂ * Z₁) ^ 2 + X₁ * X₂ * Z₁ * Z₂) ((X₁ * Z₂ + X₂ * Z₁) ^ 2) (P + Q) := by
  have hsub : Q - P = D := by rw [hQ, add_sub_cancel_left]
  rcases h₁ with ⟨rfl, rfl, hX₁⟩ | ⟨x₁, y₁, hP, hZ₁, rfl⟩
  · rw [zero_add] at hQ ⊢
    rcases h₂ with ⟨h0, -⟩ | ⟨x₂, y₂, hQ', hZ₂, rfl⟩
    · exact absurd (hQ.symm.trans h0) hD.ne_zero
    · obtain ⟨rfl, rfl⟩ := hD.inj (hQ ▸ hQ')
      refine Or.inr ⟨x, y, hQ', ?_, by ring⟩
      simpa using And.intro hX₁ hZ₂
  · rcases h₂ with ⟨rfl, rfl, hX₂⟩ | ⟨x₂, y₂, hQ', hZ₂, rfl⟩
    · rw [add_zero]
      have hPD : P = -D := eq_neg_of_add_eq_zero_left hQ.symm
      obtain ⟨rfl, -⟩ := hP.inj (hPD ▸ hD.neg)
      refine Or.inr ⟨x₁, y₁, hP, ?_, by ring⟩
      simpa using And.intro hX₂ hZ₁
    · have hden : x₁ * Z₁ * Z₂ + x₂ * Z₂ * Z₁ = (x₁ + x₂) * (Z₁ * Z₂) := by ring
      rw [hden]
      by_cases hx : x₁ = x₂
      · subst hx
        have hopp : P = -Q := (hP.eq_or_eq hQ').resolve_left fun heq ↦ by
          rw [heq, sub_self] at hsub
          exact hD.ne_zero hsub.symm
        refine Or.inl ⟨by rw [hopp, neg_add_cancel], by simp [CharTwo.add_self_eq_zero], ?_⟩
        have hx₁ : x₁ ≠ 0 := by
          -- a point with first coordinate zero is its own opposite
          rintro rfl
          have hPP := hP.double_of_zero
          have hQP : Q = P := by
            rw [← neg_neg Q, ← hopp]
            exact neg_eq_of_add_eq_zero_left hPP
          rw [hQP, sub_self] at hsub
          exact hD.ne_zero hsub.symm
        simp [CharTwo.add_self_eq_zero, hx₁, hZ₁, hZ₂]
      · have hne : x₁ + x₂ ≠ 0 := by rwa [Ne, CharTwo.add_eq_zero]
        obtain ⟨y₃, hsum⟩ := hP.add_of_sub hQ' (hsub ▸ hD) hx
        refine Or.inr ⟨_, y₃, hsum, ?_, ?_⟩
        · exact pow_ne_zero 2 (mul_ne_zero hne (mul_ne_zero hZ₁ hZ₂))
        · field_simp

/-- The second coordinate of `P` from the first ones of `P` and `P + D`. -/
theorem At.recover (hD : At D x y) (hx : x ≠ 0) (hP : At P x₁ y₁) (hQ : At (P + D) x₂ y₂) :
    y₁ = x⁻¹ * (x₁ + x) * ((x₁ + x) * (x₂ + x) + x ^ 2 + y) + y := by
  by_cases hx₁ : x₁ = x
  · subst hx₁
    rcases hP.eq_or_eq hD with rfl | rfl
    · rw [(hP.inj hD).2, CharTwo.add_self_eq_zero]
      ring
    · rw [neg_add_cancel] at hQ
      exact absurd rfl hQ.ne_zero
  · obtain ⟨hx₂, -⟩ := hQ.inj (hP.add hD hx₁ rfl rfl)
    have hne : x₁ + x ≠ 0 := by rwa [Ne, CharTwo.add_eq_zero]
    have hP' := hP.equation
    have hD' := hD.equation
    have hx₂' : x₂ * (x₁ + x) ^ 2
        = (y₁ + y) ^ 2 + (y₁ + y) * (x₁ + x) + (x₁ + x + a) * (x₁ + x) ^ 2 := by
      rw [hx₂]
      field_simp
      ring
    have hmul : (y₁ + y) * x = (x₁ + x) * ((x₁ + x) * (x₂ + x) + x ^ 2 + y) := by
      grind
    grind

end

/-! ## The ladder -/

/-- `X₁ / Z₁` and `X₂ / Z₂` are the first coordinates of `k • D` and of the next multiple. -/
structure Rungs [CharP K 2] [DecidableEq K] (D : (curve a b).Point) (k : Nat)
    (X₁ Z₁ X₂ Z₂ : K) : Prop where
  low : Shows X₁ Z₁ (k • D)
  high : Shows X₂ Z₂ (k • D + D)

section

variable [CharP K 2] [DecidableEq K] {D : (curve a b).Point} {k : Nat} {x y X₁ Z₁ X₂ Z₂ : K}

theorem Rungs.start (hD : At D x y) : Rungs D 0 1 0 x 1 where
  low := by
    rw [zero_nsmul]
    exact shows_zero
  high := by
    rw [zero_nsmul, zero_add]
    exact hD.shows

theorem Rungs.add (hD : At D x y) (h : Rungs D k X₁ Z₁ X₂ Z₂) :
    Shows (x * (X₁ * Z₂ + X₂ * Z₁) ^ 2 + X₁ * X₂ * Z₁ * Z₂) ((X₁ * Z₂ + X₂ * Z₁) ^ 2)
      ((2 * k) • D + D) := by
  have hsum := Shows.add hD h.low h.high rfl
  rwa [← add_assoc, ← two_nsmul, ← mul_nsmul'] at hsum

/-- A step at a zero bit of the scalar. -/
theorem Rungs.double_low (hb : b ≠ 0) (hD : At D x y) (h : Rungs D k X₁ Z₁ X₂ Z₂) :
    Rungs D (2 * k) (X₁ ^ 4 + b * Z₁ ^ 4) (X₁ ^ 2 * Z₁ ^ 2)
      (x * (X₁ * Z₂ + X₂ * Z₁) ^ 2 + X₁ * X₂ * Z₁ * Z₂) ((X₁ * Z₂ + X₂ * Z₁) ^ 2) where
  low := by
    have hlow := h.low.double hb
    rwa [← two_nsmul, ← mul_nsmul'] at hlow
  high := h.add hD

/-- A step at a one. -/
theorem Rungs.double_high (hb : b ≠ 0) (hD : At D x y) (h : Rungs D k X₁ Z₁ X₂ Z₂) :
    Rungs D (2 * k + 1) (x * (X₁ * Z₂ + X₂ * Z₁) ^ 2 + X₁ * X₂ * Z₁ * Z₂)
      ((X₁ * Z₂ + X₂ * Z₁) ^ 2) (X₂ ^ 4 + b * Z₂ ^ 4) (X₂ ^ 2 * Z₂ ^ 2) where
  low := by
    rw [succ_nsmul]
    exact h.add hD
  high := by
    have hhigh := h.high.double hb
    rwa [add_add_add_comm, ← two_nsmul, ← mul_nsmul', ← add_assoc, ← succ_nsmul] at hhigh

end

/-! ## All coordinates, one denominator -/

/-- `P` is `(X / Z, Y / Z²)`. -/
def Lifts (X Y Z : K) (P : (curve a b).Point) : Prop :=
  (P = 0 ∧ Z = 0) ∨ ∃ x y, At P x y ∧ Z ≠ 0 ∧ X = x * Z ∧ Y = y * Z ^ 2

section

variable {P Q : (curve a b).Point} {x y x₂ y₂ X Y Z A B C : K}

theorem lifts_zero : Lifts X Y 0 (0 : (curve a b).Point) :=
  Or.inl ⟨rfl, rfl⟩

theorem At.lifts (h : At P x y) : Lifts x y 1 P :=
  Or.inr ⟨x, y, h, one_ne_zero, by ring, by ring⟩

theorem Lifts.eq_zero (h : Lifts X Y Z P) (hZ : Z = 0) : P = 0 := by
  rcases h with ⟨hP, -⟩ | ⟨x, y, -, hne, -⟩
  · exact hP
  · exact absurd hZ hne

theorem Lifts.at (h : Lifts X Y Z P) (hZ : Z ≠ 0) : At P (X * Z⁻¹) (Y * (Z⁻¹) ^ 2) := by
  rcases h with ⟨-, h0⟩ | ⟨x, y, hP, -, rfl, rfl⟩
  · exact absurd h0 hZ
  · have hx : x * Z * Z⁻¹ = x := by field_simp
    have hy : y * Z ^ 2 * (Z⁻¹) ^ 2 = y := by field_simp
    rwa [hx, hy]

variable [CharP K 2]

/-- With `A = Y + y₂Z²` and `B = X + x₂Z`: the points have one first coordinate when `B = 0`, and
are then equal when `A = 0`, else opposite. -/
theorem Lifts.add_of_eq (h : Lifts X Y Z P) (hZ : Z ≠ 0) (hQ : At Q x₂ y₂)
    (hB : X + x₂ * Z = 0) (hA : Y + y₂ * Z ^ 2 = 0) : P = Q := by
  rcases h with ⟨-, h0⟩ | ⟨x, y, hP, -, rfl, rfl⟩
  · exact absurd h0 hZ
  · have hx : x = x₂ := by grind
    have hy : y = y₂ := by grind
    exact hP.unique (by rwa [hx, hy])

variable [DecidableEq K]

theorem Lifts.double (h : Lifts X Y Z P) :
    Lifts (X ^ 4 + b * Z ^ 4)
      ((Y ^ 2 + a * (Z ^ 2 * X ^ 2) + b * Z ^ 4) * (X ^ 4 + b * Z ^ 4)
        + Z ^ 2 * X ^ 2 * (b * Z ^ 4))
      (Z ^ 2 * X ^ 2) (P + P) := by
  rcases h with ⟨rfl, rfl⟩ | ⟨x, y, hP, hZ, rfl, rfl⟩
  · exact Or.inl ⟨add_zero 0, by simp⟩
  · by_cases hx : x = 0
    · subst hx
      exact Or.inl ⟨hP.double_of_zero, by simp⟩
    · have heq := hP.equation
      refine Or.inr ⟨_, _, hP.double hx, ?_, ?_, ?_⟩
      · exact mul_ne_zero (pow_ne_zero 2 hZ) (pow_ne_zero 2 (mul_ne_zero hx hZ))
      · grind
      · grind

theorem Lifts.add_of_ne (h : Lifts X Y Z P) (hZ : Z ≠ 0) (hQ : At Q x₂ y₂)
    (hB : X + x₂ * Z = 0) (hA : Y + y₂ * Z ^ 2 ≠ 0) : P + Q = 0 := by
  rcases h with ⟨-, h0⟩ | ⟨x, y, hP, -, rfl, rfl⟩
  · exact absurd h0 hZ
  · have hx : x = x₂ := by grind
    subst hx
    rcases hP.eq_or_eq hQ with rfl | rfl
    · obtain ⟨-, rfl⟩ := hP.inj hQ
      exact absurd (CharTwo.add_self_eq_zero _) hA
    · exact neg_add_cancel Q

theorem Lifts.add (h : Lifts X Y Z P) (hZ : Z ≠ 0) (hQ : At Q x₂ y₂)
    (hA : A = Y + y₂ * Z ^ 2) (hB : B = X + x₂ * Z) (hC : C = B * Z) (hB0 : B ≠ 0) :
    Lifts (A ^ 2 + C * (A + B ^ 2 + a * C))
      ((x₂ * C ^ 2 + (A ^ 2 + C * (A + B ^ 2 + a * C))) * (A * C + C ^ 2)
        + (y₂ + x₂) * (C ^ 2) ^ 2)
      (C ^ 2) (P + Q) := by
  rcases h with ⟨-, h0⟩ | ⟨x, y, hP, -, rfl, rfl⟩
  · exact absurd h0 hZ
  · have hx : x ≠ x₂ := by
      rintro rfl
      exact hB0 (by rw [hB, CharTwo.add_self_eq_zero])
    have hne : x + x₂ ≠ 0 := by rwa [Ne, CharTwo.add_eq_zero]
    have heq := hP.equation
    have heq₂ := hQ.equation
    refine Or.inr ⟨_, _, hP.add hQ hx rfl rfl, ?_, ?_, ?_⟩
    · rw [hC]
      exact pow_ne_zero 2 (mul_ne_zero hB0 hZ)
    · rw [hC, hA, hB]
      field_simp
      grind
    · rw [hC, hA, hB]
      field_simp
      grind

end

end BinaryCurve
