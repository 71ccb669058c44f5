import Mathlib

/-!
# The curves `x² + ay² = 1 + dx²y²`

Twisted Edwards curves with the two coordinates swapped: the neutral element is `(1, 0)` and the
opposite of `(x, y)` is `(x, -y)`. The affine points are points of a Weierstrass curve, where
they form a group.

- `Shows x y P`: `P` is the group element of the affine point `(x, y)`.
- `Shows.add`: the addition law, where its two denominators are nonzero.
- `Lifts.add`: the same in projective coordinates.
-/

namespace EdwardsCurve

open WeierstrassCurve WeierstrassCurve.Affine

variable {K : Type*} [Field K]

/-- `t² = s³ + 2(a + d)s² + (a - d)²s`. -/
def curve (a d : K) : Affine K := ⟨0, 2 * (a + d), 0, (a - d) ^ 2, 0⟩

variable {a d : K}

/-- `(x, y)` is an affine point. -/
def OnCurve (a d x y : K) : Prop := x ^ 2 + a * y ^ 2 = 1 + d * x ^ 2 * y ^ 2

/-- `P` is the Weierstrass point `(s, t)`. -/
def At (P : (curve a d).Point) (s t : K) : Prop := ∃ h, P = .some s t h

/-- The parameters give a curve without singular points. -/
structure Regular (a d : K) : Prop where
  two : (2 : K) ≠ 0
  a_ne : a ≠ 0
  d_ne : d ≠ 0
  sub_ne : a - d ≠ 0

/-! ## Weierstrass coordinates -/

section

variable {P Q : (curve a d).Point} {s t s' t' s₁ t₁ s₂ t₂ : K}

theorem equation_iff :
    (curve a d).Equation s t ↔ t ^ 2 = s ^ 3 + 2 * (a + d) * s ^ 2 + (a - d) ^ 2 * s := by
  rw [Affine.equation_iff, curve]
  ring_nf

theorem At.equation (h : At P s t) : t ^ 2 = s ^ 3 + 2 * (a + d) * s ^ 2 + (a - d) ^ 2 * s := by
  obtain ⟨hns, -⟩ := h
  exact equation_iff.mp hns.1

theorem at_some {h : (curve a d).Nonsingular s t} (hs : s = s') (ht : t = t') :
    At (.some s t h) s' t' := by
  subst hs ht
  exact ⟨h, rfl⟩

theorem At.inj (h : At P s t) (h' : At P s' t') : s = s' ∧ t = t' := by
  obtain ⟨_, rfl⟩ := h
  obtain ⟨_, h'⟩ := h'
  cases h'
  exact ⟨rfl, rfl⟩

theorem At.unique (hP : At P s t) (hQ : At Q s t) : P = Q := by
  obtain ⟨_, rfl⟩ := hP
  obtain ⟨_, rfl⟩ := hQ
  rfl

theorem At.ne_zero (h : At P s t) : P ≠ 0 := by
  obtain ⟨_, rfl⟩ := h
  exact Point.some_ne_zero _

theorem delta_eq : (curve a d).Δ = 256 * a * d * (a - d) ^ 4 := by
  simp only [WeierstrassCurve.Δ, b₂, b₄, b₆, b₈, curve]
  ring

theorem Regular.exists_at (hreg : Regular a d)
    (h : t ^ 2 = s ^ 3 + 2 * (a + d) * s ^ 2 + (a - d) ^ 2 * s) :
    ∃ P : (curve a d).Point, At P s t := by
  have hdelta : (curve a d).Δ ≠ 0 := by
    have hpow : (256 : K) = 2 ^ 8 := by norm_num
    rw [delta_eq, hpow]
    exact mul_ne_zero (mul_ne_zero (mul_ne_zero (pow_ne_zero 8 hreg.two) hreg.a_ne) hreg.d_ne)
      (pow_ne_zero 4 hreg.sub_ne)
  have hns : (curve a d).Nonsingular s t :=
    (equation_iff_nonsingular_of_Δ_ne_zero hdelta).mp (equation_iff.mpr h)
  exact ⟨_, hns, rfl⟩

theorem negY_eq (s t : K) : (curve a d).negY s t = -t := by
  simp only [negY, curve]
  ring

theorem At.neg (h : At P s t) : At (-P) s (-t) := by
  obtain ⟨hns, rfl⟩ := h
  exact at_some rfl (negY_eq s t)

/-- Points with one first coordinate are equal or opposite. -/
theorem At.eq_or_eq (h₁ : At P s t₁) (h₂ : At Q s t₂) : P = Q ∨ P = -Q := by
  have hsquare : t₁ ^ 2 = t₂ ^ 2 := h₁.equation.trans h₂.equation.symm
  rcases sq_eq_sq_iff_eq_or_eq_neg.mp hsquare with h | h
  · exact Or.inl (h₁.unique (h ▸ h₂))
  · exact Or.inr (h₁.unique (h ▸ h₂.neg))

variable [DecidableEq K]

/-- Addition of points with different first coordinates. -/
theorem At.add (h₁ : At P s₁ t₁) (h₂ : At Q s₂ t₂) (hs : s₁ ≠ s₂) {l : K}
    (hl : l * (s₂ - s₁) = t₂ - t₁) :
    At (P + Q) (l ^ 2 - 2 * (a + d) - s₁ - s₂)
      (l * (s₁ - (l ^ 2 - 2 * (a + d) - s₁ - s₂)) - t₁) := by
  obtain ⟨hns₁, rfl⟩ := h₁
  obtain ⟨hns₂, rfl⟩ := h₂
  have hsub : s₁ - s₂ ≠ 0 := sub_ne_zero.mpr hs
  have hslope : (curve a d).slope s₁ s₂ t₁ t₂ = l := by
    rw [slope_of_X_ne hs, div_eq_iff hsub]
    linear_combination hl
  rw [Point.add_of_X_ne hs]
  refine at_some ?_ ?_
  · rw [hslope, addX]
    simp only [curve]
    ring
  · rw [addY, negY_eq, negAddY, hslope, addX]
    simp only [curve]
    ring

/-- Doubling, away from the points of order two. -/
theorem At.double (hreg : Regular a d) (h : At P s t) (ht : t ≠ 0) {l : K}
    (hl : l * (2 * t) = 3 * s ^ 2 + 4 * (a + d) * s + (a - d) ^ 2) :
    At (P + P) (l ^ 2 - 2 * (a + d) - 2 * s)
      (l * (s - (l ^ 2 - 2 * (a + d) - 2 * s)) - t) := by
  obtain ⟨hns, rfl⟩ := h
  have hne : t ≠ (curve a d).negY s t := by
    rw [negY_eq]
    intro heq
    have hdouble : 2 * t = 0 := by linear_combination heq
    exact (mul_ne_zero hreg.two ht) hdouble
  have hslope : (curve a d).slope s s t t = l := by
    have hden : t - (curve a d).negY s t = 2 * t := by
      rw [negY_eq]
      ring
    rw [slope_of_Y_ne rfl hne, hden, div_eq_iff (mul_ne_zero hreg.two ht)]
    simp only [curve]
    linear_combination -hl
  rw [Point.add_self_of_Y_ne hne]
  refine at_some ?_ ?_
  · rw [hslope, addX]
    simp only [curve]
    ring
  · rw [addY, negY_eq, negAddY, hslope, addX]
    simp only [curve]
    ring

end

/-! ## Edwards coordinates -/

/-- `P` is the group element of the affine point `(x, y)`. -/
def Shows (x y : K) (P : (curve a d).Point) : Prop :=
  OnCurve a d x y ∧ (x = 1 ∧ P = 0
    ∨ x ≠ 1 ∧ ∃ s t, At P s t ∧ s * (1 - x) = (a - d) * (1 + x) ∧ t * y = 2 * s)

section

variable {P Q : (curve a d).Point} {x y x₁ y₁ x₂ y₂ x₃ y₃ s t s₁ t₁ s₂ t₂ : K}

theorem shows_zero : Shows 1 0 (0 : (curve a d).Point) := by
  refine ⟨?_, .inl ⟨rfl, rfl⟩⟩
  rw [OnCurve]
  ring

theorem OnCurve.of_x_sq (hreg : Regular a d) (h : OnCurve a d x y) (hx : x ^ 2 = 1) : y = 0 := by
  have hsub := hreg.sub_ne
  rw [OnCurve] at h
  grind

/-- Where `y` is not fixed by `x`, there is no affine point. -/
theorem OnCurve.den_ne (hreg : Regular a d) (h : OnCurve a d x y) : a - d * x ^ 2 ≠ 0 := by
  have hsub := hreg.sub_ne
  rw [OnCurve] at h
  grind

theorem exists_shows (hreg : Regular a d) (h : OnCurve a d x y) :
    ∃ P : (curve a d).Point, Shows x y P := by
  by_cases hx : x = 1
  · exact ⟨0, h, .inl ⟨hx, rfl⟩⟩
  · have hsub : 1 - x ≠ 0 := sub_ne_zero.mpr (Ne.symm hx)
    by_cases hy : y = 0
    · have hneg : x = -1 := by
        rw [OnCurve] at h
        grind
      obtain ⟨P, hP⟩ := hreg.exists_at (s := 0) (t := 0) (by ring)
      refine ⟨P, h, .inr ⟨hx, 0, 0, hP, ?_, ?_⟩⟩
      · rw [hneg]
        ring
      · ring
    · obtain ⟨P, hP⟩ := hreg.exists_at (s := (a - d) * (1 + x) * (1 - x)⁻¹)
        (t := 2 * ((a - d) * (1 + x) * (1 - x)⁻¹) * y⁻¹) (by
          rw [OnCurve] at h
          grind)
      refine ⟨P, h, .inr ⟨hx, _, _, hP, ?_, ?_⟩⟩
      · field_simp
      · field_simp

theorem Shows.onCurve (h : Shows x y P) : OnCurve a d x y := h.1

theorem Shows.x_eq_one_iff (h : Shows x y P) : x = 1 ↔ P = 0 := by
  obtain ⟨-, ⟨hx, hP⟩ | ⟨hx, s, t, hP, -⟩⟩ := h
  · exact iff_of_true hx hP
  · exact iff_of_false hx hP.ne_zero

theorem Shows.unique (hreg : Regular a d) (hP : Shows x y P) (hQ : Shows x y Q) : P = Q := by
  obtain ⟨hcurve, ⟨hx, rfl⟩ | ⟨hx, s, t, hP, hs, ht⟩⟩ := hP
  · exact (hQ.x_eq_one_iff.mp hx).symm
  · obtain ⟨-, ⟨hx', -⟩ | ⟨-, s', t', hQ, hs', ht'⟩⟩ := hQ
    · exact absurd hx' hx
    · have hsub : 1 - x ≠ 0 := sub_ne_zero.mpr (Ne.symm hx)
      obtain rfl : s = s' := mul_right_cancel₀ hsub (hs.trans hs'.symm)
      by_cases hy : y = 0
      · -- the point of order two
        have htwo := hreg.two
        have hzero : s = 0 := by grind
        have heq := hP.equation
        have heq' := hQ.equation
        obtain rfl : t = t' := by grind
        exact hP.unique hQ
      · obtain rfl : t = t' := mul_right_cancel₀ hy (ht.trans ht'.symm)
        exact hP.unique hQ

theorem Shows.inj (hreg : Regular a d) (h : Shows x y P) (h' : Shows x₁ y₁ P) :
    x = x₁ ∧ y = y₁ := by
  obtain ⟨hcurve, ⟨hx, hzero⟩ | ⟨hx, s, t, hP, hs, ht⟩⟩ := h
  · have hx₁ := h'.x_eq_one_iff.mpr hzero
    have hy := hcurve.of_x_sq hreg (by rw [hx, one_pow])
    have hy₁ := h'.onCurve.of_x_sq hreg (by rw [hx₁, one_pow])
    exact ⟨hx.trans hx₁.symm, hy.trans hy₁.symm⟩
  · obtain ⟨hcurve', ⟨-, hzero⟩ | ⟨hx₁, s', t', hP', hs', ht'⟩⟩ := h'
    · exact absurd hzero hP.ne_zero
    · obtain ⟨rfl, rfl⟩ := hP.inj hP'
      have hsub := hreg.sub_ne
      have htwo := hreg.two
      have hx_eq : x = x₁ := by grind
      subst hx_eq
      refine ⟨rfl, ?_⟩
      by_cases hy : y = 0
      · rw [OnCurve] at hcurve
        have hsq : x ^ 2 = 1 := by rw [hy] at hcurve; linear_combination hcurve
        rw [hy, hcurve'.of_x_sq hreg hsq]
      · have hne : x ^ 2 ≠ 1 := by
          intro hsq
          exact hy (hcurve.of_x_sq hreg hsq)
        have hs_ne : s ≠ 0 := by grind
        grind

theorem Shows.neg (h : Shows x y P) : Shows x (-y) (-P) := by
  obtain ⟨hcurve, ⟨hx, hP⟩ | ⟨hx, s, t, hP, hs, ht⟩⟩ := h
  · refine ⟨?_, .inl ⟨hx, ?_⟩⟩
    · rw [OnCurve, neg_sq]
      exact hcurve
    · rw [hP]
      rfl
  · refine ⟨?_, .inr ⟨hx, s, -t, hP.neg, hs, ?_⟩⟩
    · rw [OnCurve, neg_sq]
      exact hcurve
    · rw [neg_mul_neg, ht]

/-- The sum satisfies the equation. -/
theorem OnCurve.add (h₁ : OnCurve a d x₁ y₁) (h₂ : OnCurve a d x₂ y₂)
    (hminus : 1 - d * x₁ * x₂ * y₁ * y₂ ≠ 0) (hplus : 1 + d * x₁ * x₂ * y₁ * y₂ ≠ 0)
    (hx₃ : x₃ * (1 - d * x₁ * x₂ * y₁ * y₂) = x₁ * x₂ - a * y₁ * y₂)
    (hy₃ : y₃ * (1 + d * x₁ * x₂ * y₁ * y₂) = x₁ * y₂ + y₁ * x₂) : OnCurve a d x₃ y₃ := by
  have hcleared :
      ((x₁ * x₂ - a * y₁ * y₂) * (1 + d * x₁ * x₂ * y₁ * y₂)) ^ 2
          + a * ((x₁ * y₂ + y₁ * x₂) * (1 - d * x₁ * x₂ * y₁ * y₂)) ^ 2
        = ((1 + d * x₁ * x₂ * y₁ * y₂) * (1 - d * x₁ * x₂ * y₁ * y₂)) ^ 2
          + d * (x₁ * x₂ - a * y₁ * y₂) ^ 2 * (x₁ * y₂ + y₁ * x₂) ^ 2 := by
    clear hminus hplus hx₃ hy₃
    rw [OnCurve] at h₁ h₂
    grind
  rw [← hx₃, ← hy₃] at hcleared
  have hne := pow_ne_zero 2 (mul_ne_zero hplus hminus)
  rw [OnCurve]
  apply mul_right_cancel₀ hne
  linear_combination hcleared

variable [DecidableEq K]

/-- Adding the point of order two. -/
theorem At.add_two (h₁ : At P 0 0) (h₂ : At Q s₂ t₂) (hs : s₂ ≠ 0)
    (hs₃ : s * s₂ = (a - d) ^ 2) (ht₃ : t * s₂ ^ 2 = -((a - d) ^ 2 * t₂)) : At (P + Q) s t := by
  have heq := h₂.equation
  have hsum := h₁.add h₂ (Ne.symm hs) (l := t₂ * s₂⁻¹) (by
    rw [sub_zero, sub_zero, inv_mul_cancel_right₀ hs])
  have hs_eq : (t₂ * s₂⁻¹) ^ 2 - 2 * (a + d) - 0 - s₂ = s := by
    apply mul_right_cancel₀ (pow_ne_zero 2 hs)
    field_simp
    linear_combination heq - s₂ * hs₃
  rw [hs_eq] at hsum
  have ht_eq : t₂ * s₂⁻¹ * (0 - s) - 0 = t := by
    have hinv := inv_mul_cancel₀ hs
    apply mul_right_cancel₀ (pow_ne_zero 2 hs)
    linear_combination -t₂ * s * s₂ * hinv - t₂ * hs₃ - ht₃
  rwa [ht_eq] at hsum

/-! ### The identities behind the addition law -/

omit [DecidableEq K] in
theorem denominator_identity (h₁ : OnCurve a d x₁ y₁) (h₂ : OnCurve a d x₂ y₂)
    (hone : (d * x₁ * x₂ * y₁ * y₂) ^ 2 = 1) :
    (d * x₁ ^ 2 * y₂ ^ 2 - 1) * (d * x₁ ^ 2 * x₂ ^ 2 - a) = 0 := by
  rw [OnCurve] at h₁ h₂
  grind

omit [DecidableEq K] in
theorem slope_identity (h₁ : OnCurve a d x₁ y₁) (h₂ : OnCurve a d x₂ y₂) :
    (1 - x₁) * (1 - x₂) * ((1 + x₂) * (1 - x₁) * y₁ - (1 + x₁) * (1 - x₂) * y₂) ^ 2
      = (2 * (a + d) * ((1 - x₁) * (1 - x₂))
            + (a - d) * ((1 + x₁) * (1 - x₂) + (1 + x₂) * (1 - x₁)))
          * (x₂ - x₁) ^ 2 * y₁ ^ 2 * y₂ ^ 2
        + (1 - x₁) * (1 - x₂) * ((a - d * x₁ ^ 2) * (a - d * x₂ ^ 2) * (y₂ - y₁) ^ 2)
          * y₁ ^ 2 * y₂ ^ 2 := by
  rw [OnCurve] at h₁ h₂
  grind

omit [DecidableEq K] in
theorem first_identity (h₁ : OnCurve a d x₁ y₁) (h₂ : OnCurve a d x₂ y₂) :
    (a - d * x₁ ^ 2) * (a - d * x₂ ^ 2) * (y₂ - y₁) ^ 2
        * (1 - d * x₁ * x₂ * y₁ * y₂ - (x₁ * x₂ - a * y₁ * y₂))
      = (a - d) * (1 - d * x₁ * x₂ * y₁ * y₂ + (x₁ * x₂ - a * y₁ * y₂)) * (x₂ - x₁) ^ 2 := by
  rw [OnCurve] at h₁ h₂
  grind

omit [DecidableEq K] in
theorem second_identity (h₁ : OnCurve a d x₁ y₁) (h₂ : OnCurve a d x₂ y₂) :
    -(((1 + x₂) * (1 - x₁) * y₁ - (1 + x₁) * (1 - x₂) * y₂)
            * (1 - d * x₁ * x₂ * y₁ * y₂ + (x₁ * x₂ - a * y₁ * y₂))
          + (1 + x₁) * (1 + x₂) * (y₂ - y₁)
            * (1 - d * x₁ * x₂ * y₁ * y₂ - (x₁ * x₂ - a * y₁ * y₂))) * (x₁ * y₂ + y₁ * x₂)
      = 2 * (1 - d * x₁ * x₂ * y₁ * y₂ + (x₁ * x₂ - a * y₁ * y₂)) * (x₂ - x₁) * y₁ * y₂
        * (1 + d * x₁ * x₂ * y₁ * y₂) := by
  rw [OnCurve] at h₁ h₂
  grind

/-- The addition law for points with different first coordinates, neither of order two. The line
through the two Weierstrass points has slope `l`. -/
theorem Shows.add_of_ne (hreg : Regular a d) (h₁ : OnCurve a d x₁ y₁) (h₂ : OnCurve a d x₂ y₂)
    (hP : At P s₁ t₁) (hQ : At Q s₂ t₂) (hx₁ : x₁ ≠ 1) (hx₂ : x₂ ≠ 1) (hy₁ : y₁ ≠ 0) (hy₂ : y₂ ≠ 0)
    (hs₁ : s₁ * (1 - x₁) = (a - d) * (1 + x₁)) (hs₂ : s₂ * (1 - x₂) = (a - d) * (1 + x₂))
    (ht₁ : t₁ * y₁ = 2 * s₁) (ht₂ : t₂ * y₂ = 2 * s₂) (hne : x₁ ≠ x₂)
    (hminus : 1 - d * x₁ * x₂ * y₁ * y₂ ≠ 0) (hplus : 1 + d * x₁ * x₂ * y₁ * y₂ ≠ 0)
    (hx₃ : x₃ * (1 - d * x₁ * x₂ * y₁ * y₂) = x₁ * x₂ - a * y₁ * y₂)
    (hy₃ : y₃ * (1 + d * x₁ * x₂ * y₁ * y₂) = x₁ * y₂ + y₁ * x₂) : Shows x₃ y₃ (P + Q) := by
  have htwo := hreg.two
  have hc := hreg.sub_ne
  have hm₁ : 1 - x₁ ≠ 0 := sub_ne_zero.mpr (Ne.symm hx₁)
  have hm₂ : 1 - x₂ ≠ 0 := sub_ne_zero.mpr (Ne.symm hx₂)
  have hx : x₂ - x₁ ≠ 0 := sub_ne_zero.mpr (Ne.symm hne)
  have hdiff : (s₂ - s₁) * ((1 - x₁) * (1 - x₂)) = 2 * (a - d) * (x₂ - x₁) := by
    linear_combination (1 - x₁) * hs₂ - (1 - x₂) * hs₁
  have hs : s₁ ≠ s₂ := by
    rintro rfl
    rw [sub_self, zero_mul] at hdiff
    exact mul_ne_zero (mul_ne_zero htwo hc) hx hdiff.symm
  obtain ⟨l, hl⟩ : ∃ l, l * (s₂ - s₁) = t₂ - t₁ :=
    ⟨(t₂ - t₁) / (s₂ - s₁), div_mul_cancel₀ _ (sub_ne_zero.mpr (Ne.symm hs))⟩
  have hsum := hP.add hQ hs hl
  have hslope : l * ((x₂ - x₁) * y₁ * y₂)
      = (1 + x₂) * (1 - x₁) * y₁ - (1 + x₁) * (1 - x₂) * y₂ := by
    apply mul_left_cancel₀ (mul_ne_zero htwo hc)
    linear_combination -l * y₁ * y₂ * hdiff + (1 - x₁) * (1 - x₂) * y₁ * y₂ * hl
      + (1 - x₁) * (1 - x₂) * y₁ * ht₂ - (1 - x₁) * (1 - x₂) * y₂ * ht₁
      + 2 * (1 - x₁) * y₁ * hs₂ - 2 * (1 - x₂) * y₂ * hs₁
  generalize hs₃ : l ^ 2 - 2 * (a + d) - s₁ - s₂ = s₃ at hsum
  have hfirst : s₃ * (x₂ - x₁) ^ 2
      = (a - d * x₁ ^ 2) * (a - d * x₂ ^ 2) * (y₂ - y₁) ^ 2 := by
    have hpoly := slope_identity h₁ h₂
    rw [← hslope] at hpoly
    apply mul_left_cancel₀ (mul_ne_zero (mul_ne_zero hm₁ hm₂)
      (mul_ne_zero (pow_ne_zero 2 hy₁) (pow_ne_zero 2 hy₂)))
    rw [← hs₃]
    linear_combination hpoly - (1 - x₂) * (x₂ - x₁) ^ 2 * y₁ ^ 2 * y₂ ^ 2 * hs₁
      - (1 - x₁) * (x₂ - x₁) ^ 2 * y₁ ^ 2 * y₂ ^ 2 * hs₂
  -- the first coordinate, with both denominators cleared
  have hratio : s₃ * (1 - d * x₁ * x₂ * y₁ * y₂ - (x₁ * x₂ - a * y₁ * y₂))
      = (a - d) * (1 - d * x₁ * x₂ * y₁ * y₂ + (x₁ * x₂ - a * y₁ * y₂)) := by
    apply mul_right_cancel₀ (pow_ne_zero 2 hx)
    rw [← first_identity h₁ h₂]
    linear_combination (1 - d * x₁ * x₂ * y₁ * y₂ - (x₁ * x₂ - a * y₁ * y₂)) * hfirst
  have hgap : 1 - d * x₁ * x₂ * y₁ * y₂ - (x₁ * x₂ - a * y₁ * y₂) ≠ 0 := by
    intro hzero
    rw [hzero, mul_zero] at hratio
    have hdouble : 2 * (a - d) * (1 - d * x₁ * x₂ * y₁ * y₂) = 0 := by
      linear_combination -hratio + (a - d) * hzero
    exact mul_ne_zero (mul_ne_zero htwo hc) hminus hdouble
  refine ⟨h₁.add h₂ hminus hplus hx₃ hy₃, .inr ⟨?_, s₃, _, hsum, ?_, ?_⟩⟩
  · rintro rfl
    exact hgap (by linear_combination hx₃)
  · apply mul_right_cancel₀ hminus
    linear_combination hratio - (s₃ + (a - d)) * hx₃
  · have hline : (l * (s₁ - s₃) - t₁) * ((x₂ - x₁) * y₁ * y₂)
        = -((a - d) * ((1 + x₁) * (1 + x₂) * (y₂ - y₁)))
          - ((1 + x₂) * (1 - x₁) * y₁ - (1 + x₁) * (1 - x₂) * y₂) * s₃ := by
      linear_combination (s₁ - s₃) * hslope - (x₂ - x₁) * y₂ * ht₁
        + (1 + x₂) * (y₁ - y₂) * hs₁
    have hne' := mul_ne_zero (mul_ne_zero hx hy₁) hy₂
    apply mul_right_cancel₀ (mul_ne_zero (mul_ne_zero hne' hplus) hgap)
    have hsecond := second_identity h₁ h₂
    generalize hB : (1 + x₂) * (1 - x₁) * y₁ - (1 + x₁) * (1 - x₂) * y₂ = B at hline hsecond
    generalize hW : (x₂ - x₁) * y₁ * y₂ = W at hline ⊢
    generalize hG : 1 - d * x₁ * x₂ * y₁ * y₂ - (x₁ * x₂ - a * y₁ * y₂) = G at hratio hsecond ⊢
    generalize hS : 1 - d * x₁ * x₂ * y₁ * y₂ + (x₁ * x₂ - a * y₁ * y₂) = S at hratio hsecond
    generalize hD : 1 + d * x₁ * x₂ * y₁ * y₂ = D at hy₃ hsecond ⊢
    generalize hM : x₁ * y₂ + y₁ * x₂ = M at hy₃ hsecond
    generalize hq : (1 + x₁) * (1 + x₂) * (y₂ - y₁) = q at hline hsecond
    linear_combination y₃ * D * G * hline + (-((a - d) * q) - B * s₃) * G * hy₃ - B * M * hratio
      + (a - d) * hsecond - 2 * W * D * hratio + 2 * S * D * (a - d) * hW

/-- Doubling, away from the elements of order one and two. -/
theorem Shows.double (hreg : Regular a d) (h : OnCurve a d x y) (hP : At P s t) (hx : x ≠ 1)
    (hy : y ≠ 0) (hs : s * (1 - x) = (a - d) * (1 + x)) (ht : t * y = 2 * s)
    (hminus : 1 - d * x * x * y * y ≠ 0) (hplus : 1 + d * x * x * y * y ≠ 0)
    (hx₃ : x₃ * (1 - d * x * x * y * y) = x * x - a * y * y)
    (hy₃ : y₃ * (1 + d * x * x * y * y) = x * y + y * x) : Shows x₃ y₃ (P + P) := by
  have htwo := hreg.two
  have hc := hreg.sub_ne
  have hm : 1 - x ≠ 0 := sub_ne_zero.mpr (Ne.symm hx)
  have hden := h.den_ne hreg
  have hsq : y ^ 2 * (a - d * x ^ 2) = (1 - x) * (1 + x) := by
    rw [OnCurve] at h
    linear_combination h
  have hq : 1 + x ≠ 0 := by
    intro hzero
    rw [hzero, mul_zero] at hsq
    exact mul_ne_zero (pow_ne_zero 2 hy) hden hsq
  have hs_ne : s ≠ 0 := by
    rintro rfl
    rw [zero_mul] at hs
    exact mul_ne_zero hc hq hs.symm
  have ht_ne : t ≠ 0 := by
    rintro rfl
    rw [zero_mul] at ht
    exact mul_ne_zero htwo hs_ne ht.symm
  have hyd : y * (a - d * x ^ 2) ≠ 0 := mul_ne_zero hy hden
  have hdouble : 2 * t ≠ 0 := mul_ne_zero htwo ht_ne
  -- `u²` is the first coordinate of the double
  obtain ⟨u, hu⟩ : ∃ u, u * (y * (a - d * x ^ 2)) = (a - d) * x :=
    ⟨(a - d) * x / (y * (a - d * x ^ 2)), div_mul_cancel₀ _ hyd⟩
  have hroot : 2 * t * u = s ^ 2 - (a - d) ^ 2 := by
    apply mul_right_cancel₀ (mul_ne_zero (mul_ne_zero hy hyd) hm)
    linear_combination 2 * t * y * (1 - x) * hu + 2 * (a - d) * x * (1 - x) * ht
      + 4 * (a - d) * x * hs - (s ^ 2 - (a - d) ^ 2) * (1 - x) * hsq
      - (1 + x) * (s * (1 - x) + (a - d) * (1 + x)) * hs
  have heq := hP.equation
  obtain ⟨l, hl⟩ : ∃ l, l * s = t + u * s := ⟨(t + u * s) / s, div_mul_cancel₀ _ hs_ne⟩
  have hslope : l * (2 * t) = 3 * s ^ 2 + 4 * (a + d) * s + (a - d) ^ 2 := by
    apply mul_right_cancel₀ hs_ne
    linear_combination 2 * t * hl + 2 * heq + s * hroot
  have hsum := hP.double hreg ht_ne hslope
  have hfirst : l ^ 2 - 2 * (a + d) - 2 * s = u ^ 2 := by
    apply mul_right_cancel₀ (pow_ne_zero 2 hs_ne)
    linear_combination (l * s + t + u * s) * hl + heq + s * hroot
  rw [hfirst] at hsum
  have hscale : (1 + x ^ 2) * (a - d * x ^ 2) - (a - d) * x ^ 2
      = (a - d * x ^ 2) * (1 + d * x * x * y * y) := by
    rw [OnCurve] at h
    linear_combination -d * x ^ 2 * h
  have hgap : 1 - d * x * x * y * y - (x * x - a * y * y) = 2 * (y * (y * (a - d * x ^ 2))) := by
    rw [OnCurve] at h
    linear_combination -h
  refine ⟨h.add h hminus hplus hx₃ hy₃, .inr ⟨?_, u ^ 2, _, hsum, ?_, ?_⟩⟩
  · rintro rfl
    rw [one_mul] at hx₃
    rw [hx₃, sub_self] at hgap
    exact mul_ne_zero htwo (mul_ne_zero hy hyd) hgap.symm
  · rw [OnCurve] at h
    apply mul_right_cancel₀ (mul_ne_zero hminus hden)
    linear_combination -(u ^ 2 + (a - d)) * (a - d * x ^ 2) * hx₃
      + u ^ 2 * (a - d * x ^ 2) * hgap
      + 2 * (u * (y * (a - d * x ^ 2)) + (a - d) * x) * hu
      + (2 * (a - d) * d * x ^ 2 + (a - d) * (a - d * x ^ 2)) * h
  · have hline : (l * (s - u ^ 2) - t) * s = u * s ^ 2 - u ^ 2 * t - u ^ 3 * s := by
      linear_combination (s - u ^ 2) * hl
    have hthird : x * (s * y - 2 * u - u ^ 2 * y) = u * (1 + d * x * x * y * y) := by
      apply mul_right_cancel₀ (mul_ne_zero hyd hden)
      linear_combination x * s * (a - d * x ^ 2) * hsq + x * (a - d * x ^ 2) * (1 + x) * hs
        - 2 * x * (a - d * x ^ 2) * hu - x * (u * (y * (a - d * x ^ 2)) + (a - d) * x) * hu
        - (a - d * x ^ 2) * (1 + d * x * x * y * y) * hu + (a - d) * x * hscale
    apply mul_right_cancel₀ (mul_ne_zero hs_ne hplus)
    linear_combination y₃ * (1 + d * x * x * y * y) * hline
      + (u * s ^ 2 - u ^ 2 * t - u ^ 3 * s) * hy₃ - 2 * x * u ^ 2 * ht + 2 * u * s * hthird

/-- The neutral element, the point of order two, and the others. -/
theorem Shows.cases (hreg : Regular a d) (h : Shows x y P) :
    x = 1 ∧ y = 0 ∧ P = 0 ∨ x = -1 ∧ y = 0 ∧ At P 0 0
      ∨ y ≠ 0 ∧ x ≠ 1 ∧ x ≠ -1 ∧ ∃ s t, At P s t ∧ s * (1 - x) = (a - d) * (1 + x)
          ∧ t * y = 2 * s := by
  obtain ⟨hcurve, ⟨hx, hP⟩ | ⟨hx, s, t, hP, hs, ht⟩⟩ := h
  · exact .inl ⟨hx, hcurve.of_x_sq hreg (by rw [hx, one_pow]), hP⟩
  · by_cases hneg : x = -1
    · have hy : y = 0 := hcurve.of_x_sq hreg (by rw [hneg, neg_one_sq])
      have htwo := hreg.two
      have heq := hP.equation
      obtain rfl : s = 0 := by grind
      obtain rfl : t = 0 := by grind
      exact .inr (.inl ⟨hneg, hy, hP⟩)
    · refine .inr (.inr ⟨?_, hx, hneg, s, t, hP, hs, ht⟩)
      rintro rfl
      have hsq : (x - 1) * (x + 1) = 0 := by
        rw [OnCurve] at hcurve
        linear_combination hcurve
      rcases mul_eq_zero.mp hsq with h | h
      · exact hx (sub_eq_zero.mp h)
      · exact hneg (eq_neg_of_add_eq_zero_left h)

/-- The point of order two is its own opposite. -/
theorem At.add_self (h : At P 0 0) : P + P = 0 := by
  have hneg := h.neg
  rw [neg_zero] at hneg
  rw [← eq_neg_iff_add_eq_zero]
  exact h.unique hneg

/-- Adding the point of order two. -/
theorem Shows.add_two (hP : At P 0 0) (hreg : Regular a d) (h : OnCurve a d x y) (hQ : At Q s t)
    (hx : x ≠ 1) (hneg : x ≠ -1) (hs : s * (1 - x) = (a - d) * (1 + x)) (ht : t * y = 2 * s) :
    Shows (-x) (-y) (P + Q) := by
  have hc := hreg.sub_ne
  have hm : 1 - x ≠ 0 := sub_ne_zero.mpr (Ne.symm hx)
  have hs_ne : s ≠ 0 := by
    rintro rfl
    rw [zero_mul] at hs
    have hzero := (mul_eq_zero.mp hs.symm).resolve_left hc
    exact hneg (eq_neg_of_add_eq_zero_right hzero)
  obtain ⟨s', hs'⟩ : ∃ s', s' * s = (a - d) ^ 2 := ⟨(a - d) ^ 2 / s, div_mul_cancel₀ _ hs_ne⟩
  obtain ⟨t', ht'⟩ : ∃ t', t' * s ^ 2 = -((a - d) ^ 2 * t) :=
    ⟨_ / s ^ 2, div_mul_cancel₀ _ (pow_ne_zero 2 hs_ne)⟩
  refine ⟨?_, .inr ⟨?_, s', t', hP.add_two hQ hs_ne hs' ht', ?_, ?_⟩⟩
  · rw [OnCurve, neg_sq, neg_sq]
    exact h
  · intro hone
    exact hneg (neg_eq_iff_eq_neg.mp hone)
  · apply mul_right_cancel₀ (mul_ne_zero hs_ne hm)
    linear_combination (1 + x) * (1 - x) * hs' - (a - d) * (1 - x) * hs
  · apply mul_right_cancel₀ (pow_ne_zero 2 hs_ne)
    linear_combination -y * ht' + (a - d) ^ 2 * ht - 2 * s * hs'

/-- **The addition law.** Where its denominators are nonzero, it computes the sum. -/
theorem Shows.add (hreg : Regular a d) (hP : Shows x₁ y₁ P) (hQ : Shows x₂ y₂ Q)
    (hminus : 1 - d * x₁ * x₂ * y₁ * y₂ ≠ 0) (hplus : 1 + d * x₁ * x₂ * y₁ * y₂ ≠ 0)
    (hx₃ : x₃ * (1 - d * x₁ * x₂ * y₁ * y₂) = x₁ * x₂ - a * y₁ * y₂)
    (hy₃ : y₃ * (1 + d * x₁ * x₂ * y₁ * y₂) = x₁ * y₂ + y₁ * x₂) : Shows x₃ y₃ (P + Q) := by
  rcases hP.cases hreg with ⟨rfl, rfl, rfl⟩ | ⟨rfl, rfl, hP'⟩
      | ⟨hy₁, hx₁, hneg₁, s₁, t₁, hP', hs₁, ht₁⟩
  · obtain rfl : x₃ = x₂ := by linear_combination hx₃
    obtain rfl : y₃ = y₂ := by linear_combination hy₃
    rwa [zero_add]
  · rcases hQ.cases hreg with ⟨rfl, rfl, rfl⟩ | ⟨rfl, rfl, hQ'⟩
        | ⟨hy₂, hx₂, hneg₂, s₂, t₂, hQ', hs₂, ht₂⟩
    · obtain rfl : x₃ = -1 := by linear_combination hx₃
      obtain rfl : y₃ = 0 := by linear_combination hy₃
      rwa [add_zero]
    · obtain rfl : x₃ = 1 := by linear_combination hx₃
      obtain rfl : y₃ = 0 := by linear_combination hy₃
      rw [hQ'.unique hP', hP'.add_self]
      exact shows_zero
    · obtain rfl : x₃ = -x₂ := by linear_combination hx₃
      obtain rfl : y₃ = -y₂ := by linear_combination hy₃
      exact Shows.add_two hP' hreg hQ.onCurve hQ' hx₂ hneg₂ hs₂ ht₂
  · rcases hQ.cases hreg with ⟨rfl, rfl, rfl⟩ | ⟨rfl, rfl, hQ'⟩
        | ⟨hy₂, hx₂, hneg₂, s₂, t₂, hQ', hs₂, ht₂⟩
    · obtain rfl : x₃ = x₁ := by linear_combination hx₃
      obtain rfl : y₃ = y₁ := by linear_combination hy₃
      rwa [add_zero]
    · obtain rfl : x₃ = -x₁ := by linear_combination hx₃
      obtain rfl : y₃ = -y₁ := by linear_combination hy₃
      rw [add_comm]
      exact Shows.add_two hQ' hreg hP.onCurve hP' hx₁ hneg₁ hs₁ ht₁
    · by_cases hx : x₁ = x₂
      · subst hx
        have hm : 1 - x₁ ≠ 0 := sub_ne_zero.mpr (Ne.symm hx₁)
        obtain rfl : s₁ = s₂ := mul_right_cancel₀ hm (hs₁.trans hs₂.symm)
        rcases hP'.eq_or_eq hQ' with rfl | rfl
        · obtain ⟨-, rfl⟩ := hP.inj hreg hQ
          exact Shows.double hreg hP.onCurve hP' hx₁ hy₁ hs₁ ht₁ hminus hplus hx₃ hy₃
        · -- opposite points
          obtain ⟨-, rfl⟩ := hP.inj hreg hQ.neg
          have hcurve := hQ.onCurve
          rw [OnCurve] at hcurve
          obtain rfl : x₃ = 1 := by
            apply mul_right_cancel₀ hminus
            linear_combination hx₃ + hcurve
          obtain rfl : y₃ = 0 := by
            apply mul_right_cancel₀ hplus
            linear_combination hy₃
          rw [neg_add_cancel]
          exact shows_zero
      · exact Shows.add_of_ne hreg hP.onCurve hQ.onCurve hP' hQ' hx₁ hx₂ hy₁ hy₂ hs₁ hs₂ ht₁ ht₂
          hx hminus hplus hx₃ hy₃

end

/-! ## Projective coordinates -/

/-- `(x / z, y / z)`. -/
structure Projective (R : Type*) where
  x : R
  y : R
  z : R

/-- The addition law without inversions, over anything that can be added and multiplied. -/
def Projective.add {R : Type*} [Add R] [Sub R] [Mul R] (a d : R) (P Q : Projective R) :
    Projective R :=
  let zz := P.z * Q.z
  let b := zz * zz
  let c := P.x * Q.x
  let dd := P.y * Q.y
  let e := d * c * dd
  let f := b - e
  let g := b + e
  let cross := (P.x + P.y) * (Q.x + Q.y)
  ⟨zz * g * (c - a * dd), zz * f * (cross - c - dd), f * g⟩

section

variable {P Q : (curve a d).Point} {p q : Projective K}

/-- `P` is the group element with the projective coordinates `p`. -/
def Lifts (p : Projective K) (P : (curve a d).Point) : Prop :=
  p.z ≠ 0 ∧ Shows (p.x * p.z⁻¹) (p.y * p.z⁻¹) P

theorem Shows.lifts {x y : K} (h : Shows x y P) : Lifts ⟨x, y, 1⟩ P := by
  refine ⟨one_ne_zero, ?_⟩
  rwa [inv_one, mul_one, mul_one]

/-- The third coordinate of a sum is the product of the two denominators. -/
theorem Lifts.add_z (hp : p.z ≠ 0) (hq : q.z ≠ 0) :
    (p.add a d q).z = (p.z * q.z) ^ 4
      * (1 - d * (p.x * p.z⁻¹) * (q.x * q.z⁻¹) * (p.y * p.z⁻¹) * (q.y * q.z⁻¹))
      * (1 + d * (p.x * p.z⁻¹) * (q.x * q.z⁻¹) * (p.y * p.z⁻¹) * (q.y * q.z⁻¹)) := by
  simp only [Projective.add]
  field_simp

/-- The first coordinate of a sum, cleared of its denominator. -/
theorem Lifts.add_x (hp : p.z ≠ 0) (hq : q.z ≠ 0) :
    (p.add a d q).x
        * (1 - d * (p.x * p.z⁻¹) * (q.x * q.z⁻¹) * (p.y * p.z⁻¹) * (q.y * q.z⁻¹))
      = (p.add a d q).z
        * (p.x * p.z⁻¹ * (q.x * q.z⁻¹) - a * (p.y * p.z⁻¹) * (q.y * q.z⁻¹)) := by
  simp only [Projective.add]
  field_simp

/-- The second. -/
theorem Lifts.add_y (hp : p.z ≠ 0) (hq : q.z ≠ 0) :
    (p.add a d q).y
        * (1 + d * (p.x * p.z⁻¹) * (q.x * q.z⁻¹) * (p.y * p.z⁻¹) * (q.y * q.z⁻¹))
      = (p.add a d q).z
        * (p.x * p.z⁻¹ * (q.y * q.z⁻¹) + p.y * p.z⁻¹ * (q.x * q.z⁻¹)) := by
  simp only [Projective.add]
  field_simp
  ring

variable [DecidableEq K]

/-- A sum whose third coordinate is nonzero. -/
theorem Lifts.add (hreg : Regular a d) (hP : Lifts p P) (hQ : Lifts q Q)
    (hz : (p.add a d q).z ≠ 0) : Lifts (p.add a d q) (P + Q) := by
  obtain ⟨hp, hP⟩ := hP
  obtain ⟨hq, hQ⟩ := hQ
  have hz' := hz
  rw [Lifts.add_z hp hq] at hz'
  have hplus := right_ne_zero_of_mul hz'
  have hminus := right_ne_zero_of_mul (left_ne_zero_of_mul hz')
  refine ⟨hz, hP.add hreg hQ hminus hplus ?_ ?_⟩
  · rw [mul_right_comm, Lifts.add_x hp hq, mul_right_comm, mul_inv_cancel₀ hz, one_mul]
  · rw [mul_right_comm, Lifts.add_y hp hq, mul_right_comm, mul_inv_cancel₀ hz, one_mul]

end

/-! ## Counting -/

section

variable {P Q : (curve a d).Point}

theorem exists_at_of_ne_zero (h : P ≠ 0) : ∃ s t, At P s t := by
  cases P with
  | zero => exact absurd rfl h
  | some s t hns => exact ⟨s, t, hns, rfl⟩

open Classical in
/-- The first coordinate of an element and which of its two points it is. -/
noncomputable def code : (curve a d).Point → Option (K × Bool)
  | .zero => none
  | .some s t _ => some (s, decide (t = epsilon fun t' => (curve a d).Equation s t'))

theorem code_injective : Function.Injective (code (a := a) (d := d)) := by
  intro P Q h
  cases P with
  | zero =>
    cases Q with
    | zero => rfl
    | some s t hns => cases h
  | some s t hns =>
    cases Q with
    | zero => cases h
    | some s' t' hns' =>
      rw [code, code, Option.some.injEq, Prod.mk.injEq, decide_eq_decide] at h
      obtain ⟨rfl, hsame⟩ := h
      have hroot := equation_iff.mp (Classical.epsilon_spec ⟨t, hns.1⟩)
      have ht := sq_eq_sq_iff_eq_or_eq_neg.mp ((equation_iff.mp hns.1).trans hroot.symm)
      have ht' := sq_eq_sq_iff_eq_or_eq_neg.mp ((equation_iff.mp hns'.1).trans hroot.symm)
      obtain rfl : t = t' := by
        by_cases heq : t = Classical.epsilon fun t' => (curve a d).Equation s t'
        · exact heq.trans (hsame.mp heq).symm
        · exact (ht.resolve_left heq).trans (ht'.resolve_left (mt hsame.mpr heq)).symm
      rfl

instance [Finite K] : Finite (curve a d).Point := Finite.of_injective code code_injective

theorem card_le [Finite K] : Nat.card (curve a d).Point ≤ 2 * Nat.card K + 1 := by
  have hle := Nat.card_le_card_of_injective code (code_injective (a := a) (d := d))
  rw [Finite.card_option, Nat.card_prod, Nat.card_eq_fintype_card (α := Bool), Fintype.card_bool,
    mul_comm] at hle
  exact hle

variable [DecidableEq K]

theorem addOrderOf_eq {n : Nat} (hn : n.Prime) (hP : P ≠ 0) (hnP : n • P = 0) :
    addOrderOf P = n := by
  have hprime : Fact n.Prime := ⟨hn⟩
  exact addOrderOf_eq_prime hnP hP

theorem order_dvd_card {n : Nat} (hn : n.Prime) (hP : P ≠ 0) (hnP : n • P = 0) :
    n ∣ Nat.card (curve a d).Point := by
  rw [← addOrderOf_eq hn hP hnP]
  exact addOrderOf_dvd_natCard P

end

end EdwardsCurve
