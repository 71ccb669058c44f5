import UaCrypt.Hazmat.Dstu9041.Subgroup

/-!
# Recipients (`is_usable_recipient` in `dstu9041/encryption.rs` and its two siblings)

The sender does not ask that the recipient's point be in the subgroup of the base point, only that
four times it is not neutral. The group is that subgroup times four elements of order two or one,
so what passes has order `n` or `2n`, and no multiple that the loop of `scalar_multiply` meets on
the way is exceptional.

- `isUsableRecipient`: two doublings.
- `isUsableRecipient_iff`: also where a doubling is exceptional.
- `usable_ladder`: the loop is exact for the exponents `2..n-2`.
-/

namespace UaCrypt.Hazmat.Dstu9041

open Limbs Limb FieldElement EdwardsCurve Residues

variable {c : CurveParams}

/-- `is_usable_recipient`. -/
def isUsableRecipient (q : Point c) : Bool :=
  let q2 := q.add q
  let q4 := q2.add q2
  q.isOnCurve && q4 != Point.neutral && q4.isOnCurve

section Group

variable [Fact c.p.Prime] {P Q : Point c} {G H : Group c}

/-! ## Orders -/

theorem four_mul_nsmul_ne_zero (hn : c.n.Prime) {k : Nat} (hk : 0 < k) (hlt : k < c.n)
    (hG : 4 • G ≠ 0) : (4 * k) • G ≠ 0 :=
  mul_nsmul_ne_zero (card_group hn) hn hk hlt hG

theorem two_nsmul_of_four (hn : c.n.Prime) (hG : 4 • G = 0) : 2 • G = 0 := by
  obtain ⟨w, hw⟩ := exists_root c
  obtain ⟨S, T, hS, hT, hS₀, hT₀, hne⟩ := exists_two_torsion (regular c) hw
  exact two_nsmul_of_four_nsmul hS hT hS₀ hT₀ hne (card_group hn) (n_odd c) hG

/-- There is no element of order eight either. -/
theorem not_atInfinity_four (hn : c.n.Prime) (G : Group c) : ¬AtInfinity (4 • G) := by
  intro hinfinity
  have hzero : 4 • (2 • G) = 0 := by
    have htwo := hinfinity.add_self
    rwa [← two_nsmul, ← mul_nsmul'] at htwo
  have hfour := two_nsmul_of_four hn hzero
  rw [← mul_nsmul'] at hfour
  have hinf : AtInfinity (0 : Group c) := hfour ▸ hinfinity
  exact holds_neutral.not_atInfinity hinf

/-- **What is not killed by four has order `n` or `2n`.** -/
theorem addOrderOf_eq_or (hn : c.n.Prime) (hG : 4 • G ≠ 0) :
    addOrderOf G = c.n ∨ addOrderOf G = 2 * c.n := by
  have htwo : (2 * c.n) • G = 0 := by
    have hfour : 4 • (c.n • G) = 0 := by
      rw [← mul_nsmul', ← card_group hn]
      exact card_nsmul_eq_zero'
    rw [mul_nsmul']
    exact two_nsmul_of_four hn hfour
  have hdvd := addOrderOf_dvd_of_nsmul_eq_zero htwo
  have hmem : c.n ∣ addOrderOf G := by
    by_contra hnot
    have hcoprime := ((Nat.Prime.coprime_iff_not_dvd hn).mpr hnot).symm
    have hsmall := hcoprime.dvd_of_dvd_mul_right hdvd
    exact hG (addOrderOf_dvd_iff_nsmul_eq_zero.mp (hsmall.trans ⟨2, rfl⟩))
  obtain ⟨t, ht⟩ := hmem
  rw [ht, mul_comm 2] at hdvd
  have ht₂ := Nat.dvd_of_mul_dvd_mul_left hn.pos hdvd
  obtain rfl | rfl := (Nat.dvd_prime Nat.prime_two).mp ht₂
  · exact .inl (by rw [ht, mul_one])
  · exact .inr (by rw [ht, mul_comm])

/-! ## The check -/

/-- Doubling the mark of an exception gives it again. -/
theorem zero_add_zero : (⟨zero, zero⟩ : Point c).add ⟨zero, zero⟩ = ⟨zero, zero⟩ := by
  have hspells : (⟨zero, zero⟩ : Point c).Spells 0 0 := ⟨Represents.zero, Represents.zero⟩
  have hsum := spells_add (spells_fromAffine hspells) (spells_fromAffine hspells)
  obtain ⟨hx, hy⟩ := spells_toAffine hsum
  simp only [Projective.add, mul_zero, sub_self, add_zero, zero_mul] at hx hy
  exact Point.ext ((hx.eq_iff Represents.zero).mpr rfl) ((hy.eq_iff Represents.zero).mpr rfl)

/-- A doubling, or the mark where the double is at infinity. -/
theorem double_cases (hP : Holds P G) :
    ¬AtInfinity (G + G) ∧ Holds (P.add P) (G + G)
      ∨ AtInfinity (G + G) ∧ P.add P = ⟨zero, zero⟩ := by
  by_cases hinfinity : AtInfinity (G + G)
  · exact .inr ⟨hinfinity, add_dead hP hP (.inl hinfinity)⟩
  · refine .inl ⟨hinfinity, holds_add hP hP hinfinity ?_⟩
    rw [sub_self]
    exact holds_neutral.not_atInfinity

/-- **The check is that the point is on the curve and four times it is not neutral.** -/
theorem isUsableRecipient_iff (hn : c.n.Prime) (hQ : Q.Reduced) :
    isUsableRecipient Q = true ↔ ∃ G, Holds Q G ∧ 4 • G ≠ 0 := by
  rw [isUsableRecipient]
  simp only [Bool.and_eq_true, bne_iff_ne]
  constructor
  · rintro ⟨⟨hcurve, hne⟩, hlast⟩
    obtain ⟨G, hG⟩ := exists_holds hQ hcurve
    refine ⟨G, hG, ?_⟩
    intro hzero
    have hfour : (G + G) + (G + G) = 0 := by
      rw [← two_nsmul, ← two_nsmul, ← mul_nsmul']
      exact hzero
    obtain ⟨-, hdouble⟩ | ⟨-, hdouble⟩ := double_cases hG
    · obtain ⟨-, hquadruple⟩ | ⟨hinfinity, -⟩ := double_cases hdouble
      · exact hne (hquadruple.eq_neutral_iff.mpr hfour)
      · rw [hfour] at hinfinity
        exact holds_neutral.not_atInfinity hinfinity
    · rw [hdouble, zero_add_zero, isOnCurve_zero] at hlast
      exact Bool.false_ne_true hlast
  · rintro ⟨G, hG, hne⟩
    have hfour : (G + G) + (G + G) = 4 • G := by
      rw [← two_nsmul, ← two_nsmul, ← mul_nsmul']
    obtain ⟨-, hdouble⟩ | ⟨hinfinity, -⟩ := double_cases hG
    · obtain ⟨-, hquadruple⟩ | ⟨hinfinity, -⟩ := double_cases hdouble
      · rw [hfour] at hquadruple
        exact ⟨⟨hG.isOnCurve, mt hquadruple.eq_neutral_iff.mp hne⟩, hquadruple.isOnCurve⟩
      · rw [hfour] at hinfinity
        exact absurd hinfinity (not_atInfinity_four hn G)
    · rw [← hfour, hinfinity.add_self] at hne
      exact absurd rfl hne

/-! ## The loop -/

theorem not_atInfinity_nsmul (hn : c.n.Prime) (hG : 4 • G ≠ 0) {j : Nat} (hj : j < c.n) :
    ¬AtInfinity (j • G) := by
  obtain rfl | hpos := Nat.eq_zero_or_pos j
  · rw [zero_nsmul]
    exact holds_neutral.not_atInfinity
  · intro hinfinity
    refine four_mul_nsmul_ne_zero hn hpos hj hG ?_
    rw [show 4 * j = 2 * (2 * j) by ring, mul_nsmul', mul_nsmul' G 2 j, two_nsmul (j • G),
      hinfinity.add_self, nsmul_zero]

/-- **Multiplying an accepted point is exact**, also outside the subgroup of the base point. -/
theorem usable_ladder (hn : c.n.Prime) (hQ : Holds Q G) (hG : 4 • G ≠ 0) {epsilon : Bytes c}
    (hlt : beNat epsilon.toList < c.n - 1) :
    Rung G (beNat epsilon.toList) (Q.ladder epsilon) :=
  ladder_holds hQ epsilon fun _ hj => not_atInfinity_nsmul hn hG (by omega)

/-- What a recipient's point that passes the check is good for. -/
structure RecipientCheck (c : CurveParams) [Fact c.p.Prime] : Prop where
  /-- On the curve, and four times it is not neutral. -/
  accepts : ∀ q : Point c, q.Reduced →
    (isUsableRecipient q = true ↔ q.isOnCurve = true ∧ ∃ G, Holds q G ∧ 4 • G ≠ 0)
  /-- Of order `n`, or `2n` outside the subgroup of the base point. -/
  order : ∀ q : Point c, q.Reduced → isUsableRecipient q = true →
    ∃ G, Holds q G ∧ (addOrderOf G = c.n ∨ addOrderOf G = 2 * c.n)
  /-- No third coordinate on the way is zero. -/
  partialSums : ∀ q : Point c, q.Reduced → isUsableRecipient q = true →
    ∀ epsilon : Bytes c, isValidScalar epsilon = true → ∀ z ∈ (q.ladder epsilon).2, z ≠ zero
  /-- The result is the multiple. -/
  multiple : ∀ (q : Point c) (G : Group c), Holds q G → isUsableRecipient q = true →
    ∀ epsilon : Bytes c, isValidScalar epsilon = true →
      Holds (q.scalarMultiply epsilon) (beNat epsilon.toList • G)
  /-- It is none of the points that an outsider knows, nor has it the first coordinate of one. -/
  secret : ∀ q : Point c, q.Reduced → isUsableRecipient q = true →
    ∀ epsilon : Bytes c, isValidScalar epsilon = true →
      q.scalarMultiply epsilon ≠ Point.neutral
        ∧ q.scalarMultiply epsilon ≠ ⟨zero.sub one, zero⟩
        ∧ q.scalarMultiply epsilon ≠ ⟨zero, zero⟩
        ∧ (q.scalarMultiply epsilon).x ≠ zero
        ∧ (q.scalarMultiply epsilon).x ≠ one
        ∧ (q.scalarMultiply epsilon).x ≠ zero.sub one

theorem holds_usable (hn : c.n.Prime) (hQ : Holds Q G) (hG : 4 • G ≠ 0) {epsilon : Bytes c}
    (hlt : beNat epsilon.toList < c.n - 1) :
    Holds (Q.scalarMultiply epsilon) (beNat epsilon.toList • G) := by
  rw [scalarMultiply_eq]
  exact holds_toAffine (usable_ladder hn hQ hG hlt).holds

/-- The first coordinate of the multiple. -/
theorem usable_x (hn : c.n.Prime) (hQ : Holds Q G) (hG : 4 • G ≠ 0) {epsilon : Bytes c}
    (hpos : 0 < beNat epsilon.toList) (hlt : beNat epsilon.toList < c.n - 1) :
    (Q.scalarMultiply epsilon).x ≠ zero ∧ (Q.scalarMultiply epsilon).x ≠ one
      ∧ (Q.scalarMultiply epsilon).x ≠ zero.sub one := by
  obtain ⟨x, y, hspells, hshows⟩ := holds_usable hn hQ hG hlt
  have htwo : 2 • (beNat epsilon.toList • G) ≠ 0 := by
    intro hzero
    refine four_mul_nsmul_ne_zero hn hpos (by omega) hG ?_
    rw [show 4 * beNat epsilon.toList = 2 * (2 * beNat epsilon.toList) by ring, mul_nsmul',
      mul_nsmul' G 2, hzero, nsmul_zero]
  obtain ⟨hx₀, hx₁, hneg, -⟩ := ne_exceptional hshows htwo
  rw [ne_eq, ne_eq, ne_eq, hspells.x.eq_iff Represents.zero, hspells.x.eq_iff Represents.one,
    hspells.x.eq_iff (Represents.zero.sub Represents.one), zero_sub]
  exact ⟨hx₀, hx₁, hneg⟩

/-- **The two doublings are enough for the sender.** -/
theorem recipient_check (s : Size) [Fact s.curve.p.Prime] (hn : s.curve.n.Prime) :
    RecipientCheck s.curve where
  accepts := by
    intro q hq
    rw [isUsableRecipient_iff hn hq]
    exact ⟨fun ⟨G, hG, hne⟩ => ⟨hG.isOnCurve, G, hG, hne⟩, fun ⟨_, h⟩ => h⟩
  order := by
    intro q hq husable
    obtain ⟨G, hG, hne⟩ := (isUsableRecipient_iff hn hq).mp husable
    exact ⟨G, hG, addOrderOf_eq_or hn hne⟩
  partialSums := by
    intro q hq husable epsilon hepsilon
    obtain ⟨G, hG, hne⟩ := (isUsableRecipient_iff hn hq).mp husable
    exact (usable_ladder hn hG hne ((isValidScalar_iff epsilon).mp hepsilon).2).z_ne_zero
  multiple := by
    intro q G hG husable epsilon hepsilon
    obtain ⟨H, hH, hne⟩ := (isUsableRecipient_iff hn hG.reduced).mp husable
    rw [hH.element_unique hG] at hne
    exact holds_usable hn hG hne ((isValidScalar_iff epsilon).mp hepsilon).2
  secret := by
    intro q hq husable epsilon hepsilon
    obtain ⟨G, hG, hne⟩ := (isUsableRecipient_iff hn hq).mp husable
    obtain ⟨hlow, hhigh⟩ := (isValidScalar_iff epsilon).mp hepsilon
    obtain ⟨hx₀, hx₁, hneg⟩ := usable_x hn hG hne (by omega) hhigh
    refine ⟨?_, ?_, ?_, hx₀, hx₁, hneg⟩
    · exact fun h => hx₁ (congrArg Point.x h)
    · exact fun h => hneg (congrArg Point.x h)
    · exact fun h => hx₀ (congrArg Point.x h)

/-- At `l(p) = 256`. -/
theorem recipient_check_256 : RecipientCheck (Size.curve .l256) :=
  recipient_check .l256 order256_prime

end Group

end UaCrypt.Hazmat.Dstu9041
