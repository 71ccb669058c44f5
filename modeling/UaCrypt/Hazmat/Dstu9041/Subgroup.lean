import UaCrypt.Hazmat.Dstu9041.CurveGroup

/-!
# Scalar multiplication and the subgroup of the base point

`scalar_multiply` adds without asking whether the law has a value. While the multiples it meets
are affine points it has one, which covers the whole subgroup of the base point; once it has none
the result is the mark `(0, 0)`.

- `Point.ladder`: the loop with every third coordinate it meets.
- `ladder_holds`: the loop is exact as long as no multiple it meets is at infinity.
- `holds_scalarMultiply`: multiples in the subgroup.
- `pointFromX_iff`: `point_from_x` finds the points of the subgroup, and nothing else.
-/

namespace UaCrypt.Hazmat.Dstu9041

open Limbs Limb FieldElement EdwardsCurve Residues

variable {c : CurveParams}

/-! ## The loop -/

/-- The loop of `scalar_multiply`, with the third coordinate of each point it makes: the neutral
point it starts from, and at every bit the doubled point and the candidate. -/
def Point.ladder (p : Point c) (scalar : Bytes c) :
    ProjectivePoint c × List (FieldElement c.field) :=
  let base := ProjectivePoint.fromAffine p
  let start : ProjectivePoint c := ProjectivePoint.fromAffine Point.neutral
  forBits scalar.toList (fun s bit =>
    let doubled := s.1.add s.1
    let candidate := doubled.add base
    (ProjectivePoint.select bit candidate doubled, candidate.z :: doubled.z :: s.2))
    (start, [start.z])

theorem scalarMultiply_eq (p : Point c) (scalar : Bytes c) :
    p.scalarMultiply scalar = (p.ladder scalar).1.toAffine := by
  rw [Point.scalarMultiply, Point.ladder]
  refine congrArg ProjectivePoint.toAffine ?_
  refine forBits_rel (fun acc (s : ProjectivePoint c × List (FieldElement c.field)) => acc = s.1)
    ?_ ?_ scalar.toList
  · rfl
  · rintro acc ⟨point, zs⟩ rfl bit -
    rfl

section Group

variable [Fact c.p.Prime] {P Q : Point c} {G H : Group c}

/-- What the loop keeps on the way to the multiple `k`. -/
structure Rung (G : Group c) (k : Nat) (s : ProjectivePoint c × List (FieldElement c.field)) :
    Prop where
  holds : s.1.Holds (k • G)
  z_ne_zero : ∀ z ∈ s.2, z ≠ zero

/-- One bit, where the multiples around it are affine points. -/
theorem Rung.step {k : Nat} {s : ProjectivePoint c × List (FieldElement c.field)}
    (h : Rung G k s) (hP : Holds P G) (hgood : ∀ j, j ≤ 2 * k + 1 → ¬AtInfinity (j • G)) :
    (s.1.add s.1).Holds ((2 * k) • G)
      ∧ ((s.1.add s.1).add (ProjectivePoint.fromAffine P)).Holds ((2 * k + 1) • G)
      ∧ ∀ z ∈ ((s.1.add s.1).add (ProjectivePoint.fromAffine P)).z :: (s.1.add s.1).z :: s.2,
        z ≠ zero := by
  have hdoubled : (s.1.add s.1).Holds ((2 * k) • G) := by
    rw [two_mul, add_nsmul]
    refine h.holds.add h.holds ?_ ?_
    · rw [← add_nsmul, ← two_mul]
      exact hgood (2 * k) (by omega)
    · rw [sub_self, ← zero_nsmul G]
      exact hgood 0 (by omega)
  have hcandidate : ((s.1.add s.1).add (ProjectivePoint.fromAffine P)).Holds ((2 * k + 1) • G) := by
    rw [succ_nsmul]
    refine hdoubled.add hP.fromAffine ?_ ?_
    · rw [← succ_nsmul]
      exact hgood (2 * k + 1) (by omega)
    · -- the multiple before, or the opposite of the point
      obtain rfl | hpos := Nat.eq_zero_or_pos k
      · rw [mul_zero, zero_nsmul, zero_sub]
        exact hP.negate.not_atInfinity
      · have hpred : (2 * k) • G - G = (2 * k - 1) • G := by
          rw [sub_eq_iff_eq_add, ← succ_nsmul]
          congr 1
          omega
        rw [hpred]
        exact hgood (2 * k - 1) (by omega)
  refine ⟨hdoubled, hcandidate, ?_⟩
  intro z hz
  rcases List.mem_cons.mp hz with rfl | hz
  · exact hcandidate.z_ne_zero
  · rcases List.mem_cons.mp hz with rfl | hz
    · exact hdoubled.z_ne_zero
    · exact h.z_ne_zero z hz

/-- **The loop is exact** as long as no multiple up to the next is at infinity. -/
theorem ladder_holds (hP : Holds P G) (scalar : Bytes c)
    (hgood : ∀ j, j ≤ beNat scalar.toList + 1 → ¬AtInfinity (j • G)) :
    Rung G (beNat scalar.toList) (P.ladder scalar) := by
  revert hgood
  rw [Point.ladder]
  refine forBits_invariant
    (fun k (s : ProjectivePoint c × List (FieldElement c.field)) =>
      (∀ j, j ≤ k + 1 → ¬AtInfinity (j • G)) → Rung G k s) ?_ ?_ ?_ scalar.toList
  · intro _
    refine ⟨?_, ?_⟩
    · rw [zero_nsmul]
      exact holds_neutral.fromAffine
    · intro z hz
      rw [List.mem_singleton.mp hz]
      exact holds_neutral.fromAffine.z_ne_zero
  · intro k s ih hgood
    have hk : ∀ j, j ≤ k + 1 → ¬AtInfinity (j • G) := fun j hj => hgood j (by omega)
    obtain ⟨hdoubled, -, hzs⟩ := (ih hk).step hP hgood
    refine ⟨?_, hzs⟩
    dsimp only
    rw [select_zero]
    exact hdoubled
  · intro k s ih hgood
    have hk : ∀ j, j ≤ k + 1 → ¬AtInfinity (j • G) := fun j hj => hgood j (by omega)
    obtain ⟨-, hcandidate, hzs⟩ :=
      (ih hk).step hP (fun j hj => hgood j (by omega))
    refine ⟨?_, hzs⟩
    dsimp only
    rw [select_one]
    exact hcandidate

/-- Anywhere, the loop ends at the multiple or at the mark of an exception. -/
theorem ladder_or_dead (hP : Holds P G) (scalar : Bytes c) :
    (P.ladder scalar).1.Holds (beNat scalar.toList • G) ∨ (P.ladder scalar).1.Dead := by
  obtain ⟨q, hbase, -⟩ := hP.fromAffine
  have hdouble (k : Nat) (r : ProjectivePoint c) (h : r.Holds (k • G) ∨ r.Dead) :
      (r.add r).Holds ((2 * k) • G) ∨ (r.add r).Dead := by
    rw [two_mul, add_nsmul]
    obtain h | h := h
    · exact h.add_or_dead h
    · obtain ⟨q', hspells, -⟩ := id h
      exact .inr (h.add hspells)
  rw [Point.ladder]
  refine forBits_invariant
    (fun k (s : ProjectivePoint c × List (FieldElement c.field)) =>
      s.1.Holds (k • G) ∨ s.1.Dead) ?_ ?_ ?_ scalar.toList
  · rw [zero_nsmul]
    exact .inl holds_neutral.fromAffine
  · intro k s ih
    dsimp only
    rw [select_zero]
    exact hdouble k s.1 ih
  · intro k s ih
    dsimp only
    rw [select_one, succ_nsmul]
    obtain h | h := hdouble k s.1 ih
    · exact h.add_or_dead hP.fromAffine
    · exact .inr (h.add hbase)

/-- A neutral result is the true one, also outside the subgroup. -/
theorem nsmul_eq_zero_of_scalarMultiply (hP : Holds P G) {scalar : Bytes c}
    (h : P.scalarMultiply scalar = Point.neutral) : beNat scalar.toList • G = 0 := by
  rw [scalarMultiply_eq] at h
  obtain hlive | hdead := ladder_or_dead hP scalar
  · have hholds := holds_toAffine hlive
    exact hholds.eq_neutral_iff.mp h
  · rw [hdead.toAffine] at h
    have hone : (zero : FieldElement c.field) = one := congrArg Point.x h
    rw [Represents.zero.eq_iff Represents.one] at hone
    exact absurd hone zero_ne_one

/-! ## The subgroup of the base point -/

theorem n_nsmul_nsmul (hG : c.n • G = 0) (k : Nat) : c.n • (k • G) = 0 := by
  rw [nsmul_left_comm, hG, nsmul_zero]

theorem subgroup_ladder (hP : Holds P G) (hG : c.n • G = 0) (scalar : Bytes c) :
    Rung G (beNat scalar.toList) (P.ladder scalar) :=
  ladder_holds hP scalar fun j _ => not_atInfinity_of_odd (n_odd c) (n_nsmul_nsmul hG j)

/-- **Scalar multiplication** computes multiples in the subgroup. -/
theorem holds_scalarMultiply (hP : Holds P G) (hG : c.n • G = 0) (scalar : Bytes c) :
    Holds (P.scalarMultiply scalar) (beNat scalar.toList • G) := by
  rw [scalarMultiply_eq]
  exact holds_toAffine (subgroup_ladder hP hG scalar).holds

/-! ## Points from a first coordinate -/

/-- An element of order above two is none of the exceptional points. -/
theorem ne_exceptional {x y : ZMod c.p} (h : Shows x y G) (hG : 2 • G ≠ 0) :
    x ≠ 0 ∧ x ≠ 1 ∧ x ≠ -1 ∧ y ≠ 0 := by
  have hcurve := h.onCurve
  obtain ⟨-, -, hzero⟩ | ⟨-, -, htwo⟩ | ⟨hy, hx, hneg, -⟩ := h.cases (regular c)
  · rw [hzero, nsmul_zero] at hG
    exact absurd rfl hG
  · rw [two_nsmul, htwo.add_self] at hG
    exact absurd rfl hG
  · refine ⟨?_, hx, hneg, hy⟩
    -- otherwise `a` would be a square
    rintro rfl
    refine not_isSquare_a ⟨y⁻¹, ?_⟩
    rw [OnCurve] at hcurve
    field_simp
    linear_combination hcurve

theorem two_nsmul_ne_zero (hn : c.n • G = 0) (hG : G ≠ 0) : 2 • G ≠ 0 := by
  intro htwo
  rw [two_nsmul] at htwo
  rw [odd_nsmul_of_two (n_odd c) htwo] at hn
  exact hG hn

/-- Either root of `y²` is the second coordinate of the element or of its negative. -/
theorem holds_root {x y r : ZMod c.p} {root : FieldElement c.field} (h : P.Spells x y)
    (hshows : Shows x y G) (hr : Represents root r) (hroot : r ^ 2 = y ^ 2) :
    ∃ G', Holds (⟨P.x, root⟩ : Point c) G' ∧ (G' = G ∨ G' = -G) := by
  obtain rfl | rfl := sq_eq_sq_iff_eq_or_eq_neg.mp hroot
  · exact ⟨G, ⟨x, r, ⟨h.x, hr⟩, hshows⟩, Or.inl rfl⟩
  · exact ⟨-G, ⟨x, -y, ⟨h.x, hr⟩, hshows.neg⟩, Or.inr rfl⟩

/-- What `point_from_x` excludes at once. -/
theorem excluded_iff {r : FieldElement c.field} {x : ZMod c.p} (h : Represents r x) :
    (r = zero ∨ r = one ∨ r = zero.sub one ∨ r.square = fromBeBytes c.aDivD)
      ↔ x = 0 ∨ x = 1 ∨ x = -1 ∨ (c.a : ZMod c.p) - (c.d : ZMod c.p) * x ^ 2 = 0 := by
  have hquotient : (beNat c.aDivD.toList : ZMod c.p) * (c.d : ZMod c.p) = (c.a : ZMod c.p) := by
    have hcast := congrArg (Nat.cast (R := ZMod c.p)) c.aDivD_eq
    rw [ZMod.natCast_mod, Nat.cast_mul] at hcast
    exact hcast
  rw [h.eq_iff Represents.zero, h.eq_iff Represents.one,
    h.eq_iff (Represents.zero.sub Represents.one),
    h.square.eq_iff (Represents.fromBeBytes c.aDivD_lt), zero_sub]
  have hlast : x ^ 2 = (beNat c.aDivD.toList : ZMod c.p)
      ↔ (c.a : ZMod c.p) - (c.d : ZMod c.p) * x ^ 2 = 0 := by
    rw [← hquotient]
    constructor
    · intro heq
      rw [heq]
      ring
    · intro hzero
      apply mul_right_cancel₀ (regular c).d_ne
      linear_combination -hzero
  rw [hlast]

/-- The square whose root is the second coordinate. -/
theorem represents_square {r : FieldElement c.field} {x : ZMod c.p} (h : Represents r x) :
    Represents ((one.sub r.square).multiply ((curveA c).sub ((curveD c).multiply r.square)).invert)
      ((1 - x ^ 2) * ((c.a : ZMod c.p) - (c.d : ZMod c.p) * x ^ 2)⁻¹) :=
  (Represents.one.sub h.square).multiply
    (invert_represents (curveA_represents.sub (curveD_represents.multiply h.square)))

/-- **From the first coordinate of an element of the subgroup comes the element, up to sign.** -/
theorem pointFromX_holds (h : Holds P G) (hn : c.n • G = 0) (hG : G ≠ 0) :
    ∃ R, pointFromX P.x = some R ∧ (R = P ∨ R = P.negate) := by
  obtain ⟨x, y, hspells, hshows⟩ := h
  obtain ⟨hx₀, hx₁, hneg, hy⟩ := ne_exceptional hshows (two_nsmul_ne_zero hn hG)
  have hcurve := hshows.onCurve
  have hden := hcurve.den_ne (regular c)
  have hguard := (not_congr (excluded_iff hspells.x)).mpr (by
    simp only [hx₀, hx₁, hneg, hden, or_self, not_false_eq_true])
  have hv := represents_square hspells.x
  have hvalue : (1 - x ^ 2) * ((c.a : ZMod c.p) - (c.d : ZMod c.p) * x ^ 2)⁻¹ = y ^ 2 := by
    rw [OnCurve] at hcurve
    rw [mul_inv_eq_iff_eq_mul₀ hden]
    linear_combination -hcurve
  rw [hvalue] at hv
  have hsquare : (y ^ 2) ^ (c.p / 2) = 1 := by
    have hfermat := ZMod.pow_card_sub_one_eq_one hy
    have hodd := p_odd c
    have hexp : 2 * (c.p / 2) = c.p - 1 := by omega
    rw [← pow_mul, hexp, hfermat]
  obtain ⟨r, hr, hroot⟩ := hv.sqrt hsquare
  obtain ⟨G', hG', hsign⟩ := holds_root hspells hshows hr hroot
  have hn' : c.n • G' = 0 := by
    obtain rfl | rfl := hsign
    · exact hn
    · rw [neg_nsmul, hn, neg_zero]
  have horder := (holds_scalarMultiply hG' hn' c.orderN).eq_neutral_iff.mpr hn'
  have hP : Holds P G := ⟨x, y, hspells, hshows⟩
  have hpoint := hsign.imp (fun h : G' = G => (h ▸ hG').unique hP)
    (fun h : G' = -G => (h ▸ hG').unique hP.negate)
  refine ⟨_, ?_, hpoint⟩
  rw [pointFromX]
  dsimp only
  rw [if_neg hguard, if_pos (hv.eulerCriterion.mpr hsquare), if_pos horder]

/-- **Whatever `point_from_x` returns is in the subgroup**, and not neutral. -/
theorem pointFromX_some {r : FieldElement c.field} (hr : r.toNat < c.p) {R : Point c}
    (h : pointFromX r = some R) : R.x = r ∧ ∃ G, Holds R G ∧ c.n • G = 0 ∧ G ≠ 0 := by
  have hx : Represents r (r.toNat : ZMod c.p) := ⟨hr, rfl⟩
  generalize (r.toNat : ZMod c.p) = x at hx
  have hv := represents_square hx
  rw [pointFromX] at h
  dsimp only at h
  split at h
  · cases h
  rename_i hguard
  rw [excluded_iff hx, not_or, not_or, not_or] at hguard
  obtain ⟨-, hx₁, -, hden⟩ := hguard
  split at h
  · rename_i heuler
    split at h
    · rename_i horder
      obtain rfl := Option.some.inj h
      obtain ⟨y, hy, hroot⟩ := hv.sqrt (hv.eulerCriterion.mp heuler)
      have hcurve : OnCurve (c.a : ZMod c.p) (c.d : ZMod c.p) x y := by
        rw [eq_mul_inv_iff_mul_eq₀ hden] at hroot
        rw [OnCurve]
        linear_combination hroot
      obtain ⟨G, hG⟩ := exists_shows (regular c) hcurve
      have hholds : Holds (⟨r, _⟩ : Point c) G := ⟨x, y, ⟨hx, hy⟩, hG⟩
      refine ⟨rfl, G, hholds, nsmul_eq_zero_of_scalarMultiply hholds horder, ?_⟩
      exact mt hG.x_eq_one_iff.mpr hx₁
    · cases h
  · cases h

/-- `P` is a multiple of the base point. -/
def InSubgroup (P : Point c) : Prop := ∃ G : Group c, Holds P G ∧ G ∈ AddSubgroup.zmultiples (base c)

theorem inSubgroup_iff (hn : c.n.Prime) : InSubgroup P ↔ ∃ G : Group c, Holds P G ∧ c.n • G = 0 :=
  exists_congr fun _ => and_congr_right fun _ => mem_base_iff hn

/-- Points with one first coordinate are equal or opposite. -/
theorem Holds.eq_or_eq_neg (hP : Holds P G) (hQ : Holds Q H) (hx : P.x = Q.x) : G = H ∨ G = -H := by
  obtain ⟨x, y, hspells, hshows⟩ := hP
  obtain ⟨x', y', hspells', hshows'⟩ := hQ
  obtain rfl : x = x' := (hspells.x.eq_iff hspells'.x).mp hx
  have hsq : y ^ 2 = y' ^ 2 := by
    have h := hshows.onCurve
    have h' := hshows'.onCurve
    have hden := h.den_ne (regular c)
    rw [OnCurve] at h h'
    apply mul_right_cancel₀ hden
    linear_combination h - h'
  obtain rfl | rfl := sq_eq_sq_iff_eq_or_eq_neg.mp hsq
  · exact .inl (hshows.unique (regular c) hshows')
  · exact .inr (hshows.unique (regular c) hshows'.neg)

/-- What `scalar_multiply` and `point_from_x` do on the subgroup of the base point. -/
structure SubgroupAction (c : CurveParams) [Fact c.p.Prime] : Prop where
  /-- The base point has order `n`. -/
  order : Holds (basePoint c) (base c) ∧ addOrderOf (base c) = c.n
  /-- Every scalar gives the multiple, and no third coordinate on the way is zero. -/
  multiple : ∀ (Q : Point c) (G : Group c), Holds Q G → G ∈ AddSubgroup.zmultiples (base c) →
    ∀ k : Bytes c, (∀ z ∈ (Q.ladder k).2, z ≠ zero)
      ∧ Holds (Q.scalarMultiply k) (beNat k.toList • G)
      ∧ beNat k.toList • G ∈ AddSubgroup.zmultiples (base c)
  /-- Two scalars in either order. -/
  commutes : ∀ j k : Bytes c,
    Holds (((basePoint c).scalarMultiply j).scalarMultiply k)
        ((beNat j.toList * beNat k.toList) • base c)
      ∧ ((basePoint c).scalarMultiply k).scalarMultiply j
        = ((basePoint c).scalarMultiply j).scalarMultiply k
  /-- The first coordinate does not see the sign. -/
  even : ∀ Q : Point c, InSubgroup Q → ∀ k : Bytes c,
    (Q.negate.scalarMultiply k).x = (Q.scalarMultiply k).x
  /-- A point comes back from its first coordinate if it is in the subgroup and not neutral. -/
  found : ∀ x : FieldElement c.field, x.toNat < c.p →
    ((∃ R, pointFromX x = some R) ↔ ∃ Q : Point c, InSubgroup Q ∧ Q ≠ Point.neutral ∧ Q.x = x)
  /-- Up to sign. -/
  sign : ∀ (x : FieldElement c.field) (R : Point c), x.toNat < c.p → pointFromX x = some R →
    ∀ Q : Point c, InSubgroup Q → Q.x = x → R = Q ∨ R = Q.negate
  /-- `0`, `1`, `p - 1`, the roots of `a / d`, coordinates of no point and of points elsewhere. -/
  refused : ∀ x : FieldElement c.field, x.toNat < c.p →
    (x.toNat = 0 ∨ x.toNat = 1 ∨ x.toNat = c.p - 1 ∨ (curveD c).multiply x.square = curveA c
      ∨ (∀ y : FieldElement c.field, y.toNat < c.p → (⟨x, y⟩ : Point c).isOnCurve = false)
      ∨ ∃ Q : Point c, Q.Reduced ∧ Q.isOnCurve = true ∧ ¬InSubgroup Q ∧ Q.x = x) →
    pointFromX x = none

theorem holds_multiple {k : Nat} {R : Point c} (hR : Holds R (k • base c)) (j : Bytes c) :
    Holds (R.scalarMultiply j) ((k * beNat j.toList) • base c) := by
  have h := holds_scalarMultiply hR (n_nsmul_nsmul n_nsmul_base k) j
  rwa [← mul_nsmul] at h

/-- `pointFromX` on the subgroup and off it. -/
theorem pointFromX_found (hn : c.n.Prime) {x : FieldElement c.field} (hx : x.toNat < c.p) :
    (∃ R, pointFromX x = some R) ↔ ∃ Q : Point c, InSubgroup Q ∧ Q ≠ Point.neutral ∧ Q.x = x := by
  constructor
  · rintro ⟨R, hR⟩
    obtain ⟨hRx, G, hG, hnG, hne⟩ := pointFromX_some hx hR
    exact ⟨R, (inSubgroup_iff hn).mpr ⟨G, hG, hnG⟩, mt hG.eq_neutral_iff.mp hne, hRx⟩
  · rintro ⟨Q, hQ, hne, rfl⟩
    obtain ⟨G, hG, hnG⟩ := (inSubgroup_iff hn).mp hQ
    obtain ⟨R, hR, -⟩ := pointFromX_holds hG hnG (mt hG.eq_neutral_iff.mpr hne)
    exact ⟨R, hR⟩

theorem pointFromX_sign {x : FieldElement c.field} {R : Point c} (hx : x.toNat < c.p)
    (hR : pointFromX x = some R) (hQ : Holds Q H) (hQx : Q.x = x) : R = Q ∨ R = Q.negate := by
  obtain ⟨hRx, G, hG, -⟩ := pointFromX_some hx hR
  exact (hG.eq_or_eq_neg hQ (hRx.trans hQx.symm)).imp (fun h => (h ▸ hG).unique hQ)
    (fun h => (h ▸ hG).unique hQ.negate)

/-- **Scalar multiplication is the group action on the subgroup of the base point**, and
`point_from_x` finds that subgroup and nothing else. -/
theorem subgroup_action (s : Size) [Fact s.curve.p.Prime] (hn : s.curve.n.Prime) :
    SubgroupAction s.curve where
  order := ⟨holds_base, addOrderOf_base hn⟩
  multiple := by
    intro Q G hQ hG k
    have hnG := (mem_base_iff hn).mp hG
    refine ⟨(subgroup_ladder hQ hnG k).z_ne_zero, holds_scalarMultiply hQ hnG k, ?_⟩
    exact AddSubgroup.nsmul_mem _ hG _
  commutes := by
    intro j k
    have hone : Holds (basePoint s.curve) (1 • base s.curve) := by
      rw [one_nsmul]
      exact holds_base
    have hj := holds_multiple (holds_multiple hone j) k
    have hk := holds_multiple (holds_multiple hone k) j
    rw [one_mul] at hj hk
    refine ⟨hj, ?_⟩
    rw [mul_comm] at hk
    exact hk.unique hj
  even := by
    intro Q hQ k
    obtain ⟨G, hG, hnG⟩ := (inSubgroup_iff hn).mp hQ
    have hpos := holds_scalarMultiply hG hnG k
    have hneg := holds_scalarMultiply hG.negate (by rw [neg_nsmul, hnG, neg_zero]) k
    rw [neg_nsmul] at hneg
    rw [hneg.unique hpos.negate]
    rfl
  found := fun x hx => pointFromX_found hn hx
  sign := by
    rintro x R hx hR Q ⟨H, hH, -⟩ hQx
    exact pointFromX_sign hx hR hH hQx
  refused := by
    intro x hx hcase
    rw [Option.eq_none_iff_forall_ne_some]
    intro R hR
    obtain ⟨hRx, G, hG, hnG, hne⟩ := pointFromX_some hx hR
    obtain ⟨X, Y, hspells, hshows⟩ := id hG
    obtain ⟨hx₀, hx₁, hneg, -⟩ := ne_exceptional hshows (two_nsmul_ne_zero hnG hne)
    have hX : Represents x X := hRx ▸ hspells.x
    obtain hzero | hone | hlast | hroot | hnone | ⟨Q, hQ, hcurve, hout, hQx⟩ := hcase
    · exact hx₀ (by rw [← hX.eq, hzero, Nat.cast_zero])
    · exact hx₁ (by rw [← hX.eq, hone, Nat.cast_one])
    · exact hneg (by rw [← hX.eq, hlast, natCast_p_sub_one])
    · rw [(curveD_represents.multiply hX.square).eq_iff curveA_represents] at hroot
      exact hshows.onCurve.den_ne (regular s.curve) (by rw [hroot, sub_self])
    · have hcurve := hG.isOnCurve
      have hoff := hnone R.y hG.reduced.y
      rw [← hRx] at hoff
      exact Bool.false_ne_true (hoff.symm.trans hcurve)
    · obtain ⟨H, hH⟩ := exists_holds hQ hcurve
      refine hout ((inSubgroup_iff hn).mpr ⟨H, hH, ?_⟩)
      obtain rfl | rfl := hH.eq_or_eq_neg hG (hQx.trans hRx.symm)
      · exact hnG
      · rw [neg_nsmul, hnG, neg_zero]

/-- At `l(p) = 256`. -/
theorem subgroup_action_256 : SubgroupAction (Size.curve .l256) :=
  subgroup_action .l256 order256_prime

end Group

/-! ## Scalars -/

theorem isLessThan_iff (x y : Bytes c) :
    isLessThan x y = true ↔ beNat x.toList < beNat y.toList := by
  have hx : value (fromBeBytes x : FieldElement c.field).limbs = beNat x.toList :=
    toNat_fromBeBytes x
  have hy : value (fromBeBytes y : FieldElement c.field).limbs = beNat y.toList :=
    toNat_fromBeBytes y
  rw [isLessThan, beq_iff_eq, ← hx, ← hy]
  obtain ⟨hborrow, hlt⟩ | ⟨hborrow, hle, -⟩ := subLimbs_cases
    (fromBeBytes x : FieldElement c.field).limbs (fromBeBytes y : FieldElement c.field).limbs
  · exact iff_of_true hborrow hlt
  · rw [hborrow]
    exact iff_of_false (by decide) (Nat.not_lt.mpr hle)

/-- `n` is odd, so its last byte is not zero and `n - 1` borrows nothing. -/
theorem isValidScalar_iff (scalar : Bytes c) :
    isValidScalar scalar = true ↔ 1 < beNat scalar.toList ∧ beNat scalar.toList < c.n - 1 := by
  have hlast : 8 * c.field.limbs - 1 < 8 * c.field.limbs := by
    have hpos := c.field.limbs_pos
    omega
  obtain ⟨j, hj⟩ := beNat_set_last (Vector.replicate (8 * c.field.limbs) 0) hlast
  obtain ⟨k, hk⟩ := beNat_set_last c.orderN hlast
  have hzero : 256 * j = 0 := by
    have hset := hj 0
    rw [Vector.set_replicate_self, beNat_replicate_zero, UInt8.toNat_zero] at hset
    exact hset.symm
  have hn : c.n = 256 * k + (c.orderN[8 * c.field.limbs - 1]).toNat := by
    have hset := hk c.orderN[8 * c.field.limbs - 1]
    rwa [Vector.set_getElem_self] at hset
  have hodd : c.n % 2 = 1 := c.order_odd
  have hsub : (c.orderN[8 * c.field.limbs - 1] - 1).toNat
      = (c.orderN[8 * c.field.limbs - 1]).toNat - 1 := by
    have hle : (1 : UInt8) ≤ c.orderN[8 * c.field.limbs - 1] := by
      rw [UInt8.le_iff_toNat_le, UInt8.toNat_one]
      omega
    rw [UInt8.toNat_sub_of_le _ _ hle, UInt8.toNat_one]
  rw [isValidScalar, Bool.and_eq_true, isLessThan_iff, isLessThan_iff, hj, hk, hsub, hzero,
    UInt8.toNat_one]
  omega

end UaCrypt.Hazmat.Dstu9041
