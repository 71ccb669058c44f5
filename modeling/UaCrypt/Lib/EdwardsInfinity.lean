import UaCrypt.Lib.EdwardsCurve

/-!
# Where the addition law of `x² + ay² = 1 + dx²y²` has no value

The group has up to two elements that are no affine points, of order two: where `a` and `d` have
a square product `w²`, the points `(± w / d, ∞)`. They are the whole exception: the denominators
of a sum vanish where the sum or the difference is one of them.

- `shown_or_atInfinity`: there are no other elements, as long as `d` is not a square.
- `Shows.atInfinity_add_iff`, `Shows.atInfinity_sub_iff`: when each denominator vanishes.
- `not_atInfinity_of_odd`: never, among elements of odd order.
- `card_eq`, `two_nsmul_of_four_nsmul`: four times `n` elements, none of order four.
-/

namespace EdwardsCurve

open WeierstrassCurve WeierstrassCurve.Affine

variable {K : Type*} [Field K] {a d : K}

/-- `P` has order two and is no affine point. -/
def AtInfinity (P : (curve a d).Point) : Prop := ∃ e, At P e 0 ∧ e ≠ 0

/-! ## Elements of order two -/

section

variable {P : (curve a d).Point} {s t e w : K}

/-- The coordinate of a point at infinity comes from a root of `ad`. -/
theorem At.exists_root (hreg : Regular a d) (h : At P e 0) (he : e ≠ 0) :
    ∃ w, w ^ 2 = a * d ∧ e = -(a + d) - 2 * w := by
  have htwo := hreg.two
  have heq := h.equation
  have hroot : e ^ 2 + 2 * (a + d) * e + (a - d) ^ 2 = 0 := by
    apply mul_left_cancel₀ he
    linear_combination -heq
  refine ⟨-(e + (a + d)) / 2, ?_, ?_⟩
  · field_simp
    linear_combination hroot
  · field_simp
    ring

theorem root_ne_zero (hreg : Regular a d) (hw : w ^ 2 = a * d) : w ≠ 0 := by
  rintro rfl
  exact mul_ne_zero hreg.a_ne hreg.d_ne (by linear_combination -hw)

theorem add_root_ne_zero (hreg : Regular a d) (hw : w ^ 2 = a * d) : d + w ≠ 0 := by
  intro h
  obtain rfl : w = -d := by linear_combination h
  exact mul_ne_zero hreg.d_ne hreg.sub_ne (by linear_combination -hw)

/-- `(e, 0)` has order two if it is on the curve. -/
theorem At.add_self_of_zero [DecidableEq K] (h : At P e 0) : P + P = 0 := by
  have hneg := h.neg
  rw [neg_zero] at hneg
  rw [← eq_neg_iff_add_eq_zero]
  exact h.unique hneg

/-- Every root of `ad` gives a point at infinity. -/
theorem exists_atInfinity (hreg : Regular a d) (hw : w ^ 2 = a * d) :
    ∃ P : (curve a d).Point, At P (-(a + d) - 2 * w) 0 ∧ AtInfinity P := by
  obtain ⟨P, hP⟩ := hreg.exists_at (s := -(a + d) - 2 * w) (t := 0) (by
    linear_combination -4 * (-(a + d) - 2 * w) * hw)
  refine ⟨P, hP, _, hP, ?_⟩
  intro h
  have hsq : (a - d) ^ 2 = 0 := by linear_combination (2 * w - a - d) * h + 4 * hw
  exact hreg.sub_ne (pow_eq_zero_iff two_ne_zero |>.mp hsq)

variable [DecidableEq K]

theorem AtInfinity.add_self (h : AtInfinity P) : P + P = 0 := by
  obtain ⟨e, he, -⟩ := h
  exact he.add_self_of_zero

theorem AtInfinity.neg_eq (h : AtInfinity P) : -P = P := neg_eq_of_add_eq_zero_left h.add_self

end

section

variable [DecidableEq K] {P Q : (curve a d).Point} {x y x₁ y₁ x₂ y₂ s t s₁ t₁ s₂ t₂ e w : K}

theorem Shows.not_atInfinity (hreg : Regular a d) (h : Shows x y P) : ¬AtInfinity P := by
  rintro ⟨e, he, hne⟩
  obtain ⟨-, -, rfl⟩ | ⟨-, -, hP⟩ | ⟨-, -, -, s, t, hP, -, ht⟩ := h.cases hreg
  · exact he.ne_zero rfl
  · exact hne (hP.inj he).1.symm
  · obtain ⟨rfl, rfl⟩ := hP.inj he
    rw [zero_mul] at ht
    exact mul_ne_zero hreg.two hne ht.symm

omit [DecidableEq K] in
/-- A Weierstrass point that is not of order two is an affine point, if `d` is not a square. -/
theorem At.exists_shows (hreg : Regular a d) (hd : ¬IsSquare d) (h : At P s t) (ht : t ≠ 0) :
    ∃ x y, Shows x y P := by
  have hsub := hreg.sub_ne
  have htwo := hreg.two
  have heq := h.equation
  have hsum : s + (a - d) ≠ 0 := by
    intro hzero
    obtain rfl : s = -(a - d) := by linear_combination hzero
    refine hd ⟨t / (2 * (a - d)), ?_⟩
    field_simp
    linear_combination -heq
  have hone : 1 - (s - (a - d)) / (s + (a - d)) = 2 * (a - d) / (s + (a - d)) := by
    field_simp
    ring
  refine ⟨(s - (a - d)) / (s + (a - d)), 2 * s / t, ?_, .inr ⟨?_, s, t, h, ?_, ?_⟩⟩
  · rw [OnCurve]
    field_simp
    linear_combination -4 * s * (a - d) * heq
  · intro hx
    rw [hx, sub_self] at hone
    exact div_ne_zero (mul_ne_zero htwo hsub) hsum hone.symm
  · rw [hone]
    field_simp
    ring
  · field_simp

/-- **Every element is an affine point or at infinity.** -/
theorem shown_or_atInfinity (hreg : Regular a d) (hd : ¬IsSquare d) (P : (curve a d).Point) :
    (∃ x y, Shows x y P) ∨ AtInfinity P := by
  by_cases hP : P = 0
  · exact .inl ⟨1, 0, hP ▸ shows_zero⟩
  obtain ⟨s, t, hat⟩ := exists_at_of_ne_zero hP
  by_cases ht : t = 0
  · subst ht
    by_cases hs : s = 0
    · subst hs
      refine .inl ⟨-1, 0, ?_, .inr ⟨?_, 0, 0, hat, by ring, by ring⟩⟩
      · rw [OnCurve]
        ring
      · intro h
        exact hreg.two (by linear_combination -h)
    · exact .inr ⟨s, hat, hs⟩
  · exact .inl (hat.exists_shows hreg hd ht)

/-! ## Sums with a point at infinity -/

/-- The sum with an element of order two. -/
theorem At.add_of_two {T : (curve a d).Point} (hP : At P s t) (hT : At T e 0) (hs : s ≠ e)
    (he : e ^ 2 + 2 * (a + d) * e + (a - d) ^ 2 = 0) (hs₁ : s₁ * (s - e) = e * s - (a - d) ^ 2)
    (ht₁ : t₁ * (s - e) = t * (e - s₁)) : At (P + T) s₁ t₁ := by
  have hsub : s - e ≠ 0 := sub_ne_zero.mpr hs
  have heq := hP.equation
  obtain ⟨l, hl⟩ : ∃ l, l * (e - s) = 0 - t :=
    ⟨(0 - t) / (e - s), div_mul_cancel₀ _ (sub_ne_zero.mpr (Ne.symm hs))⟩
  have hsum := hP.add hT hs hl
  have hfirst : l ^ 2 - 2 * (a + d) - s - e = s₁ := by
    apply mul_right_cancel₀ (pow_ne_zero 2 hsub)
    linear_combination (l * (e - s) - t) * hl + heq - (s - e) * hs₁ + (2 * s - e) * he
  rw [hfirst] at hsum
  have hsecond : l * (s - s₁) - t = t₁ := by
    apply mul_right_cancel₀ hsub
    linear_combination -(s - s₁) * hl - ht₁
  rwa [hsecond] at hsum

omit [DecidableEq K] in
/-- The image of an affine point under the sum with a point at infinity. -/
theorem OnCurve.swap (hreg : Regular a d) (h : OnCurve a d x y) (hx : x ≠ 0) (hy : y ≠ 0)
    (hw : w ^ 2 = a * d) : OnCurve a d (w / (d * x)) (1 / (w * y)) := by
  have hd := hreg.d_ne
  have hw₀ := root_ne_zero hreg hw
  rw [OnCurve] at h ⊢
  field_simp
  linear_combination a * d ^ 2 * h + (y ^ 2 * (w ^ 2 + a * d) - d - d ^ 2 * x ^ 2 * y ^ 2) * hw
/-- **Adding a point at infinity**: `(x, y)` goes to `(w / (dx), 1 / (wy))`. -/
theorem Shows.add_infinity {T : (curve a d).Point} (hreg : Regular a d) (h : Shows x y P)
    (hx : x ≠ 0) (hy : y ≠ 0) (hw : w ^ 2 = a * d) (hT : At T (-(a + d) - 2 * w) 0) :
    Shows (w / (d * x)) (1 / (w * y)) (P + T) := by
  have hd := hreg.d_ne
  have htwo := hreg.two
  have hw₀ := root_ne_zero hreg hw
  have hdw := add_root_ne_zero hreg hw
  obtain ⟨-, hzero, -⟩ | ⟨-, hzero, -⟩ | ⟨-, hx₁, -, s, t, hP, hs, ht⟩ := h.cases hreg
  · exact absurd hzero hy
  · exact absurd hzero hy
  have hm : 1 - x ≠ 0 := sub_ne_zero.mpr (Ne.symm hx₁)
  have hgap : w - d * x ≠ 0 := by
    intro hzero
    refine h.onCurve.den_ne hreg ?_
    apply mul_left_cancel₀ hd
    linear_combination (w + d * x) * hzero - hw
  have hdiff : (s - (-(a + d) - 2 * w)) * (d * (1 - x)) = 2 * (d + w) * (w - d * x) := by
    linear_combination d * hs - 2 * hw
  have hne : s ≠ -(a + d) - 2 * w := by
    intro heq
    rw [heq, sub_self, zero_mul] at hdiff
    exact mul_ne_zero (mul_ne_zero htwo hdw) hgap hdiff.symm
  have hsub := sub_ne_zero.mpr hne
  obtain ⟨s₁, hs₁⟩ : ∃ s₁, s₁ * (s - (-(a + d) - 2 * w)) = (-(a + d) - 2 * w) * s - (a - d) ^ 2 :=
    ⟨_, div_mul_cancel₀ _ hsub⟩
  obtain ⟨t₁, ht₁⟩ : ∃ t₁, t₁ * (s - (-(a + d) - 2 * w)) = t * (-(a + d) - 2 * w - s₁) :=
    ⟨_, div_mul_cancel₀ _ hsub⟩
  have hsum := hP.add_of_two hT hne (by linear_combination 4 * hw) hs₁ ht₁
  have hfirst : s₁ * (w - d * x) = -(a - d) * (w + d * x) := by
    apply mul_left_cancel₀ (mul_ne_zero htwo hdw)
    linear_combination -s₁ * hdiff + d * (1 - x) * hs₁ + d * (-(a + d) - 2 * w) * hs
      + 2 * (a - d) * hw
  have hsecond : t₁ = 2 * s₁ * w * y := by
    have hcurve := h.onCurve
    rw [OnCurve] at hcurve
    apply mul_left_cancel₀ (mul_ne_zero (mul_ne_zero (mul_ne_zero htwo hdw) (pow_ne_zero 2 hgap)) hy)
    linear_combination -t₁ * (w - d * x) * y * hdiff + d * (1 - x) * (w - d * x) * y * ht₁
      + (-(a + d) - 2 * w - s₁) * d * (1 - x) * (w - d * x) * ht
      + 2 * d * (-(a + d) - 2 * w - s₁) * (w - d * x) * hs
      - (2 * (a - d) * d * (1 + x) + 4 * w * y ^ 2 * (d + w) * (w - d * x)) * hfirst
      + (4 * (a - d) * w * y ^ 2 * (d + w) - 4 * (a - d) * d * x * (1 + x)) * hw
      + 4 * (a - d) * w * d * (d + w) * hcurve
  refine ⟨h.onCurve.swap hreg hx hy hw, .inr ⟨?_, s₁, t₁, hsum, ?_, ?_⟩⟩
  · intro hone
    rw [div_eq_one_iff_eq (mul_ne_zero hd hx)] at hone
    exact hgap (sub_eq_zero.mpr hone)
  · field_simp
    linear_combination -hfirst
  · rw [hsecond]
    field_simp

/-! ## The denominators of a sum -/

omit [DecidableEq K] in
theorem product_ne_zero (h : (d * x₁ * x₂ * y₁ * y₂) ^ 2 = 1) :
    d ≠ 0 ∧ x₁ ≠ 0 ∧ x₂ ≠ 0 ∧ y₁ ≠ 0 ∧ y₂ ≠ 0 := by
  have hne : d * x₁ * x₂ * y₁ * y₂ ≠ 0 := by
    intro hzero
    rw [hzero, zero_pow two_ne_zero] at h
    exact zero_ne_one h
  simpa only [mul_ne_zero_iff, and_assoc] using hne

/-- A sum at infinity has a denominator that vanishes. -/
theorem Shows.product_sq_eq_one (hreg : Regular a d) (hP : Shows x₁ y₁ P) (hQ : Shows x₂ y₂ Q)
    (h : AtInfinity (P + Q)) : (d * x₁ * x₂ * y₁ * y₂) ^ 2 = 1 := by
  by_contra hne
  have hminus : 1 - d * x₁ * x₂ * y₁ * y₂ ≠ 0 := by
    intro hzero
    exact hne (by linear_combination -(1 + d * x₁ * x₂ * y₁ * y₂) * hzero)
  have hplus : 1 + d * x₁ * x₂ * y₁ * y₂ ≠ 0 := by
    intro hzero
    exact hne (by linear_combination (d * x₁ * x₂ * y₁ * y₂ - 1) * hzero)
  have hsum := hP.add hreg hQ hminus hplus (div_mul_cancel₀ _ hminus) (div_mul_cancel₀ _ hplus)
  exact hsum.not_atInfinity hreg h

/-- **The second denominator vanishes where the sum is at infinity.** -/
theorem Shows.atInfinity_add_iff (hreg : Regular a d) (hd : ¬IsSquare d) (hP : Shows x₁ y₁ P)
    (hQ : Shows x₂ y₂ Q) : AtInfinity (P + Q) ↔ 1 + d * x₁ * x₂ * y₁ * y₂ = 0 := by
  constructor
  · intro h
    obtain ⟨hd₀, hx₁, hx₂, hy₁, hy₂⟩ := product_ne_zero (hP.product_sq_eq_one hreg hQ h)
    have hneg : P + (P + Q) = -Q := by
      rw [← h.neg_eq, neg_add, add_neg_cancel_left]
    obtain ⟨e, he, hne⟩ := h
    obtain ⟨w, hw, rfl⟩ := he.exists_root hreg hne
    have hw₀ := root_ne_zero hreg hw
    have hshows := hP.add_infinity hreg hx₁ hy₁ hw he
    rw [hneg] at hshows
    obtain ⟨rfl, hy⟩ := hQ.neg.inj hreg hshows
    obtain rfl : y₂ = -(1 / (w * y₁)) := by rw [← hy, neg_neg]
    field_simp
    ring
  · intro h
    have hone : (d * x₁ * x₂ * y₁ * y₂) ^ 2 = 1 := by
      linear_combination (d * x₁ * x₂ * y₁ * y₂ - 1) * h
    obtain ⟨hd₀, hx₁, hx₂, hy₁, hy₂⟩ := product_ne_zero hone
    rcases mul_eq_zero.mp (denominator_identity hP.onCurve hQ.onCurve hone) with hsquare | hroot
    · refine absurd ⟨(x₁ * y₂)⁻¹, ?_⟩ hd
      field_simp
      linear_combination hsquare
    · have hw : (d * x₁ * x₂) ^ 2 = a * d := by linear_combination d * hroot
      obtain ⟨T, hT, hinfinity⟩ := exists_atInfinity hreg hw
      have hshows := hP.add_infinity hreg hx₁ hy₁ hw hT
      have hx : d * x₁ * x₂ / (d * x₁) = x₂ := mul_div_cancel_left₀ x₂ (mul_ne_zero hd₀ hx₁)
      have hy : 1 / (d * x₁ * x₂ * y₁) = -y₂ := by
        rw [div_eq_iff (by simp only [ne_eq, mul_eq_zero, hd₀, hx₁, hx₂, hy₁, or_self, not_false_eq_true])]
        linear_combination h
      rw [hx, hy] at hshows
      have hneg : P + T = -Q := hshows.unique hreg hQ.neg
      have hsum : P + Q = T := by
        rw [← hinfinity.neg_eq, eq_neg_iff_add_eq_zero, add_right_comm, hneg, neg_add_cancel]
      rwa [hsum]

/-- **The first vanishes where the difference is.** -/
theorem Shows.atInfinity_sub_iff (hreg : Regular a d) (hd : ¬IsSquare d) (hP : Shows x₁ y₁ P)
    (hQ : Shows x₂ y₂ Q) : AtInfinity (P - Q) ↔ 1 - d * x₁ * x₂ * y₁ * y₂ = 0 := by
  rw [sub_eq_add_neg, hP.atInfinity_add_iff hreg hd hQ.neg, mul_neg, ← sub_eq_add_neg]

/-- The two exceptions exclude each other. -/
theorem Shows.not_atInfinity_add (hreg : Regular a d) (hd : ¬IsSquare d) (hP : Shows x₁ y₁ P)
    (hQ : Shows x₂ y₂ Q) (h : AtInfinity (P - Q)) : ¬AtInfinity (P + Q) := by
  rw [hP.atInfinity_sub_iff hreg hd hQ] at h
  rw [hP.atInfinity_add_iff hreg hd hQ]
  intro hplus
  exact hreg.two (by linear_combination h + hplus)

omit [DecidableEq K] in
/-- Where the difference is at infinity, the first numerator vanishes too. -/
theorem Shows.numerator_eq_zero (hd : ¬IsSquare d) (hP : Shows x₁ y₁ P)
    (hQ : Shows x₂ y₂ Q) (h : 1 - d * x₁ * x₂ * y₁ * y₂ = 0) : x₁ * x₂ - a * y₁ * y₂ = 0 := by
  have hone : (d * x₁ * x₂ * y₁ * y₂) ^ 2 = 1 := by
    linear_combination -(1 + d * x₁ * x₂ * y₁ * y₂) * h
  obtain ⟨hd₀, hx₁, hx₂, hy₁, hy₂⟩ := product_ne_zero hone
  rcases mul_eq_zero.mp (denominator_identity hP.onCurve hQ.onCurve hone) with hsquare | hroot
  · refine absurd ⟨(x₁ * y₂)⁻¹, ?_⟩ hd
    field_simp
    linear_combination hsquare
  · apply mul_left_cancel₀ (mul_ne_zero (mul_ne_zero hd₀ hx₁) hx₂)
    linear_combination a * h + hroot

/-! ## Elements of odd order -/

/-- An odd multiple of an element of order two. -/
theorem odd_nsmul_of_two {n : Nat} (hn : Odd n) (h : P + P = 0) : n • P = P := by
  obtain ⟨k, rfl⟩ := hn
  rw [add_nsmul, one_nsmul, mul_nsmul, two_nsmul, h, nsmul_zero, zero_add]

theorem not_atInfinity_of_odd {n : Nat} (hn : Odd n) (h : n • P = 0) : ¬AtInfinity P := by
  intro hinfinity
  rw [odd_nsmul_of_two hn hinfinity.add_self] at h
  obtain ⟨e, he, -⟩ := hinfinity
  exact he.ne_zero h

end

/-! ## Projective coordinates -/

/-- What the law gives where it has no value. -/
def Projective.Dead (p : Projective K) : Prop := p.x = 0 ∧ p.z = 0

theorem Projective.Dead.add {p : Projective K} (h : p.Dead) (q : Projective K) :
    (p.add a d q).Dead := by
  obtain ⟨hx, hz⟩ := h
  constructor
  · simp only [Projective.add, hx, hz, zero_mul]
  · simp only [Projective.add, hx, hz, zero_mul, mul_zero, sub_zero, add_zero]

section

variable [DecidableEq K] {P Q : (curve a d).Point} {p q : Projective K}

/-- A sum has a third coordinate but for the two exceptions. -/
theorem Lifts.add_z_ne_zero_iff (hreg : Regular a d) (hd : ¬IsSquare d) (hP : Lifts p P)
    (hQ : Lifts q Q) : (p.add a d q).z ≠ 0 ↔ ¬AtInfinity (P + Q) ∧ ¬AtInfinity (P - Q) := by
  obtain ⟨hp, hP⟩ := hP
  obtain ⟨hq, hQ⟩ := hQ
  rw [Lifts.add_z hp hq, hP.atInfinity_add_iff hreg hd hQ, hP.atInfinity_sub_iff hreg hd hQ]
  simp only [ne_eq, mul_eq_zero, pow_eq_zero_iff four_ne_zero, hp, hq, or_false, false_or, not_or]
  exact and_comm

omit [DecidableEq K] in
theorem Lifts.add_x_eq (hp : p.z ≠ 0) (hq : q.z ≠ 0) :
    (p.add a d q).x = (p.z * q.z) ^ 4
      * (1 + d * (p.x * p.z⁻¹) * (q.x * q.z⁻¹) * (p.y * p.z⁻¹) * (q.y * q.z⁻¹))
      * (p.x * p.z⁻¹ * (q.x * q.z⁻¹) - a * (p.y * p.z⁻¹) * (q.y * q.z⁻¹)) := by
  simp only [Projective.add]
  field_simp

omit [DecidableEq K] in
/-- Otherwise it is dead. -/
theorem Lifts.add_dead (hd : ¬IsSquare d) (hP : Lifts p P) (hQ : Lifts q Q)
    (hz : (p.add a d q).z = 0) : (p.add a d q).Dead := by
  obtain ⟨hp, hP⟩ := hP
  obtain ⟨hq, hQ⟩ := hQ
  refine ⟨?_, hz⟩
  rw [Lifts.add_z hp hq, mul_assoc, mul_eq_zero, mul_eq_zero] at hz
  rw [Lifts.add_x_eq hp hq]
  obtain hzero | hminus | hplus := hz
  · rw [hzero, zero_mul, zero_mul]
  · rw [hP.numerator_eq_zero hd hQ hminus, mul_zero]
  · rw [hplus, mul_zero, zero_mul]

end

/-! ## The size of the group -/

/-- An element of order two outside a subgroup doubles it. -/
theorem two_mul_card_dvd {G : Type*} [AddCommGroup G] [Finite G] {H : AddSubgroup G} {T : G}
    (hT : T + T = 0) (hmem : T ∉ H) : 2 * Nat.card H ∣ Nat.card G := by
  have hprime : Fact (Nat.Prime 2) := ⟨Nat.prime_two⟩
  have hquot : (T : G ⧸ H) ≠ 0 := mt (QuotientAddGroup.eq_zero_iff T).mp hmem
  have horder : addOrderOf (T : G ⧸ H) = 2 := by
    refine addOrderOf_eq_prime ?_ hquot
    rw [two_nsmul, ← QuotientAddGroup.mk_add, hT, QuotientAddGroup.mk_zero]
  have hdvd := addOrderOf_dvd_natCard (T : G ⧸ H)
  rw [horder] at hdvd
  rw [H.card_eq_card_quotient_mul_card_addSubgroup]
  exact Nat.mul_dvd_mul_right hdvd _

/-- A multiple of an element of order four that has order two. -/
theorem eq_two_nsmul {G : Type*} [AddCommGroup G] {A T : G} (hA : addOrderOf A = 4)
    (hT : T + T = 0) (hT₀ : T ≠ 0) (hmem : T ∈ AddSubgroup.zmultiples A) : T = 2 • A := by
  obtain ⟨k, rfl⟩ := AddSubgroup.mem_zmultiples_iff.mp hmem
  have hfour : (4 : ℤ) • A = 0 := addOrderOf_dvd_iff_zsmul_eq_zero.mp (by rw [hA]; rfl)
  rw [← add_zsmul, ← addOrderOf_dvd_iff_zsmul_eq_zero, hA] at hT
  obtain ⟨j, hj⟩ := hT
  obtain ⟨i, rfl⟩ | ⟨i, rfl⟩ := j.even_or_odd
  · have hk : k = i * 4 := by push_cast at hj; omega
    rw [hk, mul_zsmul, hfour, zsmul_zero] at hT₀
    exact absurd rfl hT₀
  · have hk : k = i * 4 + 2 := by push_cast at hj; omega
    rw [hk, add_zsmul, mul_zsmul, hfour, zsmul_zero, zero_add]
    exact ofNat_zsmul A 2

/-- Two elements of order two make four. -/
theorem four_dvd_card {G : Type*} [AddCommGroup G] [Finite G] {S T : G} (hS : S + S = 0)
    (hT : T + T = 0) (hS₀ : S ≠ 0) (hT₀ : T ≠ 0) (hne : S ≠ T) : 4 ∣ Nat.card G := by
  have hprime : Fact (Nat.Prime 2) := ⟨Nat.prime_two⟩
  have hS_card : Nat.card (AddSubgroup.zmultiples S) = 2 := by
    rw [Nat.card_zmultiples]
    exact addOrderOf_eq_prime (by rw [two_nsmul, hS]) hS₀
  have hmem : T ∉ AddSubgroup.zmultiples S := by
    rw [AddSubgroup.mem_zmultiples_iff]
    rintro ⟨k, hk⟩
    obtain ⟨j, rfl⟩ | ⟨j, rfl⟩ := k.even_or_odd
    · rw [← two_mul, mul_comm, mul_zsmul, two_zsmul, hS, zsmul_zero] at hk
      exact hT₀ hk.symm
    · rw [add_zsmul, mul_comm, mul_zsmul, two_zsmul, hS, zsmul_zero, zero_add, one_zsmul] at hk
      exact hne hk
  have hdvd := two_mul_card_dvd hT hmem
  rwa [hS_card] at hdvd

/-- And leave no room for an element of order four, if four times an odd number is all. -/
theorem two_nsmul_of_four_nsmul {G : Type*} [AddCommGroup G] [Finite G] {S T A : G} {n : Nat}
    (hS : S + S = 0) (hT : T + T = 0) (hS₀ : S ≠ 0) (hT₀ : T ≠ 0) (hne : S ≠ T)
    (hcard : Nat.card G = 4 * n) (hn : Odd n) (hA : 4 • A = 0) : 2 • A = 0 := by
  by_contra htwo
  have hprime : Fact (Nat.Prime 2) := ⟨Nat.prime_two⟩
  have horder : addOrderOf A = 4 := addOrderOf_eq_prime_pow (p := 2) (n := 1) htwo hA
  have hodd : ¬8 ∣ Nat.card G := by
    rw [hcard]
    obtain ⟨k, rfl⟩ := hn
    omega
  have hin (U : G) (hU : U + U = 0) : U ∈ AddSubgroup.zmultiples A := by
    by_contra hmem
    have hdvd := two_mul_card_dvd hU hmem
    rw [Nat.card_zmultiples, horder] at hdvd
    exact hodd hdvd
  exact hne ((eq_two_nsmul horder hS hS₀ (hin S hS)).trans
    (eq_two_nsmul horder hT hT₀ (hin T hT)).symm)

/-- Multiples below a prime that divides the number of elements. -/
theorem mul_nsmul_ne_zero {G : Type*} [AddCommGroup G] {m n k : Nat} {P : G}
    (hcard : Nat.card G = m * n) (hn : n.Prime) (hk : 0 < k) (hlt : k < n) (hP : m • P ≠ 0) :
    (m * k) • P ≠ 0 := by
  intro hzero
  have hdvd := Nat.dvd_gcd (addOrderOf_dvd_of_nsmul_eq_zero hzero)
    (hcard ▸ addOrderOf_dvd_natCard P)
  have hcoprime : Nat.gcd k n = 1 := (Nat.coprime_of_lt_prime (Nat.ne_of_gt hk) hlt hn).symm
  rw [Nat.gcd_mul_left, hcoprime, mul_one] at hdvd
  exact hP (addOrderOf_dvd_iff_nsmul_eq_zero.mp hdvd)

/-- A subgroup whose order and index are coprime holds every element its order annihilates. -/
theorem mem_zmultiples_of_card {G : Type*} [AddCommGroup G] {m n : Nat} {B P : G}
    (hcoprime : Nat.Coprime m n) (hn : n ≠ 0) (hcard : Nat.card G = m * n) (hB : addOrderOf B = n)
    (hP : n • P = 0) : P ∈ AddSubgroup.zmultiples B := by
  have hindex := (AddSubgroup.zmultiples B).card_eq_card_quotient_mul_card_addSubgroup
  rw [Nat.card_zmultiples, hB, hcard] at hindex
  have hquot := Nat.eq_of_mul_eq_mul_right (Nat.pos_of_ne_zero hn) hindex
  have hm : m • (P : G ⧸ AddSubgroup.zmultiples B) = 0 := by
    rw [hquot]
    exact card_nsmul_eq_zero'
  have hn' : n • (P : G ⧸ AddSubgroup.zmultiples B) = 0 := by
    rw [← QuotientAddGroup.mk_nsmul, hP, QuotientAddGroup.mk_zero]
  have hone := Nat.dvd_gcd (addOrderOf_dvd_of_nsmul_eq_zero hm) (addOrderOf_dvd_of_nsmul_eq_zero hn')
  rw [hcoprime, Nat.dvd_one, AddMonoid.addOrderOf_eq_one_iff] at hone
  exact (QuotientAddGroup.eq_zero_iff P).mp hone

section

variable [DecidableEq K] [Finite K] {P : (curve a d).Point} {w : K}

omit [Finite K] in
/-- A point on the axis and one at infinity. -/
theorem exists_two_torsion (hreg : Regular a d) (hw : w ^ 2 = a * d) :
    ∃ S T : (curve a d).Point, S + S = 0 ∧ T + T = 0 ∧ S ≠ 0 ∧ T ≠ 0 ∧ S ≠ T := by
  obtain ⟨S, hS⟩ := hreg.exists_at (s := 0) (t := 0) (by ring)
  obtain ⟨T, -, hT⟩ := exists_atInfinity hreg hw
  refine ⟨S, T, hS.add_self, hT.add_self, hS.ne_zero, ?_, ?_⟩
  · obtain ⟨e, he, -⟩ := hT
    exact he.ne_zero
  · rintro rfl
    obtain ⟨e, he, hne⟩ := hT
    exact hne (hS.inj he).1.symm

/-- **The group has `4n` elements** if there is room for no more than seven times `n`. -/
theorem card_eq (hreg : Regular a d) (hw : w ^ 2 = a * d) {n : Nat} (hn : n.Prime) (hodd : Odd n)
    (hP : P ≠ 0) (hnP : n • P = 0) (hroom : 2 * Nat.card K + 1 < 8 * n) :
    Nat.card (curve a d).Point = 4 * n := by
  obtain ⟨S, T, hS, hT, hS₀, hT₀, hne⟩ := exists_two_torsion hreg hw
  have hfour := four_dvd_card hS hT hS₀ hT₀ hne
  have hcoprime : Nat.Coprime 4 n := (Nat.coprime_pow_left_iff (n := 2) two_pos 2 n).mpr
    (Nat.coprime_two_left.mpr hodd)
  obtain ⟨k, hk⟩ := hcoprime.mul_dvd_of_dvd_of_dvd hfour (order_dvd_card hn hP hnP)
  have hle := card_le (a := a) (d := d)
  have hpos : 0 < Nat.card (curve a d).Point := Nat.card_pos
  rw [hk] at hle hpos ⊢
  obtain rfl | rfl | hk₂ : k = 0 ∨ k = 1 ∨ 2 ≤ k := by omega
  · omega
  · rw [mul_one]
  · have hmul := Nat.mul_le_mul_left (4 * n) hk₂
    omega

end

end EdwardsCurve
