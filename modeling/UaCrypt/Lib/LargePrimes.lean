import UaCrypt.Lib.Primality

/-!
# Primality from part of `p - 1` or of `p + 1`

A certificate of `p` needs all of `p - 1` in factors. Less is enough: factors of more than a third
of `p - 1`, or one large prime factor of `p + 1`.

- `dvd_pred_of_pow`: a base of large order modulo `r` gives `r - 1` the factors.
- `prime_of_checkPartial`: with the factors beyond the cube root of `p`, two factors of `p` would
  show in a square.
- `prime_of_checkConic`: over a small prime factor of `p` the conic `x² - d y² = 1` would not have
  room for an element of order `n`.
-/

namespace Residues

/-! ## Part of `p - 1` -/

/-- The order of `a` takes from `p - 1 = f m` all of `f`. -/
theorem dvd_pred_of_pow {r f m : Nat} [Fact r.Prime] {a : ZMod r} (hone : a ^ (f * m) = 1)
    (hne : ∀ q, q.Prime → q ∣ f → a ^ (f * m / q) ≠ 1) (hpos : 0 < f * m) : f ∣ r - 1 := by
  obtain ⟨k, hk⟩ := orderOf_dvd_of_pow_eq_one hone
  have hcoprime : Nat.Coprime f k := by
    refine Nat.coprime_of_dvd fun q hq hqf hqk => hne q hq hqf ?_
    obtain ⟨j, rfl⟩ := hqk
    refine orderOf_dvd_iff_pow_eq_one.mp ⟨j, ?_⟩
    rw [hk, mul_left_comm, Nat.mul_div_cancel_left _ hq.pos]
  have hdvd : f ∣ orderOf a * k := ⟨m, hk.symm⟩
  have ha : a ≠ 0 := by
    rintro rfl
    rw [zero_pow (Nat.ne_of_gt hpos)] at hone
    exact zero_ne_one hone
  exact (hcoprime.dvd_of_dvd_mul_right hdvd).trans (ZMod.orderOf_dvd_card_sub_one ha)

/-- The sum and the product of two numbers below the base are its digits, and the difference is
a square. -/
theorem square_of_mul {f m a b : Nat} (hmul : f * m + 1 = (f * a + 1) * (f * b + 1))
    (ha : 0 < a) (hb : 0 < b) (hf : 0 < f) (hlarge : f * m + 1 ≤ f ^ 3) :
    ∃ x, x * x + 4 * (m / f) = m % f * (m % f) := by
  have hm : m = f * (a * b) + (a + b) := by
    refine Nat.eq_of_mul_eq_mul_left hf ?_
    linarith
  have hsum : a + b < f := by
    by_contra hge
    have hprod : a + b ≤ a * b + 1 := by nlinarith
    have hbig : f * f ≤ f * (a + b) := Nat.mul_le_mul_left f (Nat.not_lt.mp hge)
    have hbigger : f * f * f ≤ f * f * (a * b + 1) :=
      Nat.mul_le_mul_left _ ((Nat.not_lt.mp hge).trans hprod)
    rw [hm] at hlarge
    nlinarith
  have hdiv : m / f = a * b := by
    rw [hm, Nat.mul_add_div hf, Nat.div_eq_of_lt hsum, Nat.add_zero]
  have hmod : m % f = a + b := by
    rw [hm, Nat.mul_add_mod, Nat.mod_eq_of_lt hsum]
  rw [hdiv, hmod]
  obtain hle | hle := Nat.le_total a b
  · obtain ⟨c, rfl⟩ := Nat.exists_eq_add_of_le hle
    exact ⟨c, by ring⟩
  · obtain ⟨c, rfl⟩ := Nat.exists_eq_add_of_le hle
    exact ⟨c, by ring⟩

/-- **Prime factors that are all 1 modulo `f` leave room for one**, if `f` is beyond the cube
root. -/
theorem prime_of_dvd_pred {f m : Nat} (hgt : 0 < f * m)
    (hdvd : ∀ r, r.Prime → r ∣ f * m + 1 → f ∣ r - 1) (hlarge : f * m + 1 ≤ f ^ 3)
    (hsquare : ∀ x, x * x + 4 * (m / f) ≠ m % f * (m % f)) : (f * m + 1).Prime := by
  by_contra hnot
  have hf : 0 < f := Nat.pos_of_mul_pos_right hgt
  have hr := Nat.minFac_prime (n := f * m + 1) (by omega)
  obtain ⟨l, hl⟩ := Nat.minFac_dvd (f * m + 1)
  obtain ⟨a, ha⟩ := hdvd _ hr (Nat.minFac_dvd _)
  have htwo := hr.two_le
  have hmin : (f * m + 1).minFac = f * a + 1 := by omega
  have hl_pos : 0 < l := by
    rcases Nat.eq_zero_or_pos l with rfl | hl_pos
    · omega
    · exact hl_pos
  have hl_ne : l ≠ 1 := by
    rintro rfl
    rw [Nat.mul_one] at hl
    exact hnot (hl ▸ hr)
  rw [hmin] at hl htwo
  -- the cofactor is 1 modulo `f` as well
  have hco : f ∣ l - 1 := by
    have hsplit : f * m = f * (a * l) + (l - 1) := by
      have hexpand : (f * a + 1) * l = f * (a * l) + l := by ring
      omega
    exact (Nat.dvd_add_right (Nat.dvd_mul_right f (a * l))).mp (hsplit ▸ Nat.dvd_mul_right f m)
  obtain ⟨b, hb⟩ := hco
  have hlb : l = f * b + 1 := by omega
  have ha_pos : 0 < a := Nat.pos_of_ne_zero fun h => by simp [h] at htwo
  have hb_pos : 0 < b := Nat.pos_of_ne_zero fun h => by simp [h] at hlb; omega
  rw [hlb] at hl
  obtain ⟨x, hx⟩ := square_of_mul hl ha_pos hb_pos hf hlarge
  exact hsquare x hx

/-- A number, a base, some prime factors of the number less one, and a modulus. -/
structure PartialCertificate where
  p : Nat
  a : Nat
  factors : List Nat
  modulus : Nat

/-- The base has the factors in its order modulo every factor of `p`, and the number that would
have to be a square is none for the modulus. -/
def PartialCertificate.check (count : Nat) (known : List Nat) (c : PartialCertificate) : Bool :=
  let f := c.factors.prod
  let m := (c.p - 1) / f
  decide (1 < c.p) && decide (c.p ≤ 2 ^ count)
    && c.factors.all (fun q => known.contains q || trial 500 q)
    && f * m + 1 == c.p && decide (c.p ≤ f ^ 3)
    && (powMod (⟨c.a⟩ : Residue c.p) (c.p - 1) count).val % c.p == 1
    && (c.factors.all fun q =>
      Nat.gcd (powMod (⟨c.a⟩ : Residue c.p) ((c.p - 1) / q) count - ⟨1⟩).val c.p == 1)
    && decide (0 < c.modulus)
    && (List.range c.modulus).all fun x =>
      (x * x + 4 * (m / f)) % c.modulus != m % f * (m % f) % c.modulus

theorem not_square_of_modulus {u v l : Nat} (hl : 0 < l)
    (h : ∀ x < l, (x * x + u) % l ≠ v % l) (x : Nat) : x * x + u ≠ v := by
  intro heq
  refine h (x % l) (Nat.mod_lt x hl) ?_
  rw [← heq, Nat.add_mod, ← Nat.mul_mod, ← Nat.add_mod]

theorem prime_of_checkPartial {count : Nat} {known : List Nat} {c : PartialCertificate}
    (hknown : ∀ q ∈ known, q.Prime) (h : c.check count known = true) : c.p.Prime := by
  simp only [PartialCertificate.check, Bool.and_eq_true, decide_eq_true_eq, List.all_eq_true,
    Bool.or_eq_true, List.contains_iff_mem, beq_iff_eq, bne_iff_ne, ne_eq, List.mem_range] at h
  obtain ⟨⟨⟨⟨⟨⟨⟨⟨hgt, hcount⟩, hfactors⟩, hp⟩, hlarge⟩, hone⟩, hgcd⟩, hl⟩, hsquare⟩ := h
  have hprime (q : Nat) (hq : q ∈ c.factors) : q.Prime :=
    (hfactors q hq).elim (hknown q) prime_of_trial
  have hpred : c.factors.prod * ((c.p - 1) / c.factors.prod) = c.p - 1 := by omega
  have hpos : 0 < c.factors.prod * ((c.p - 1) / c.factors.prod) := by
    rw [hpred]
    omega
  rw [← hp]
  refine prime_of_dvd_pred hpos ?_ ((Nat.le_of_eq hp).trans hlarge)
    (not_square_of_modulus hl hsquare)
  intro r hr hdvd
  rw [hp] at hdvd
  have : Fact r.Prime := ⟨hr⟩
  have hzero : (c.p : ZMod r) = 0 := (ZMod.natCast_eq_zero_iff _ _).mpr hdvd
  refine dvd_pred_of_pow (a := (c.a : ZMod r)) ?_ ?_ hpos
  · have hmod := (powMod_eq_one_iff hgt (by omega)).mp hone
    have hcast := congrArg (ZMod.castHom hdvd (ZMod r)) hmod
    rw [map_pow, map_natCast, map_one] at hcast
    rw [hpred, hcast]
  · intro q hq hqf
    rw [Prime.dvd_prod_iff hq.prime] at hqf
    obtain ⟨q', hmem, hqq⟩ := hqf
    obtain rfl := (Nat.prime_dvd_prime_iff_eq hq (hprime q' hmem)).mp hqq
    have hle := Nat.div_le_self (c.p - 1) q
    have hne := Residue.cast_ne_zero hzero (hgcd q hmem)
    have hsub : ((powMod (⟨c.a⟩ : Residue c.p) ((c.p - 1) / q) count - ⟨1⟩).val : ZMod r)
        = (c.a : ZMod r) ^ ((c.p - 1) / q) - 1 := by
      rw [← Residue.cast, Residue.cast_sub (Nat.zero_lt_of_lt hgt) hzero,
        cast_powMod hzero _ (by omega)]
      simp only [Residue.cast, Nat.cast_one]
    rw [hsub] at hne
    rw [hpred]
    exact sub_ne_zero.mp hne

/-! ## A factor of `p + 1` -/

section Conic

open QuadraticAlgebra

variable {p d x y n count : Nat}

/-- The coordinates elsewhere. -/
def castQuadratic {d : Nat} (K : Type*) [CommRing K] (z : QuadraticAlgebra (Residue p) ⟨d⟩ ⟨0⟩) :
    QuadraticAlgebra K (d : K) 0 :=
  ⟨z.re.cast K, z.im.cast K⟩

/-- `z ^ n`, for `n` below `2 ^ count`. -/
def powQuadratic (z : QuadraticAlgebra (Residue p) ⟨d⟩ ⟨0⟩) (n count : Nat) :
    QuadraticAlgebra (Residue p) ⟨d⟩ ⟨0⟩ :=
  fromTop n (fun s k => strictly s.re.val fun x => strictly s.im.val fun y => k ⟨⟨x⟩, ⟨y⟩⟩)
    (fun s bit => if bit then s * s * z else s * s) count ⟨⟨1⟩, ⟨0⟩⟩

/-- `(x, y)` is on the conic and not neutral, and its power `n` is neutral, all of it modulo every
factor of `p`. -/
def checkConic (p d x y n count : Nat) : Bool :=
  let s := powQuadratic (⟨⟨x⟩, ⟨y⟩⟩ : QuadraticAlgebra (Residue p) ⟨d⟩ ⟨0⟩) n count
  decide (n < 2 ^ count) && x * x % p == (1 + d * y * y) % p && Nat.gcd y p == 1
    && s.re.val == 1 && s.im.val == 0

variable {K : Type*} [Field K]

theorem castQuadratic_mul (hp : (p : K) = 0) (z w : QuadraticAlgebra (Residue p) ⟨d⟩ ⟨0⟩) :
    castQuadratic K (z * w) = castQuadratic K z * castQuadratic K w := by
  have hzero : (⟨0⟩ : Residue p).cast K = 0 := Nat.cast_zero
  ext
  · simp only [castQuadratic, re_mul, Residue.cast_add hp, Residue.cast_mul hp]
    rfl
  · simp only [castQuadratic, im_mul, Residue.cast_add hp, Residue.cast_mul hp, hzero]

theorem cast_powQuadratic (hp : (p : K) = 0) (z : QuadraticAlgebra (Residue p) ⟨d⟩ ⟨0⟩)
    {n count : Nat} (h : n < 2 ^ count) :
    castQuadratic K (powQuadratic z n count) = castQuadratic K z ^ n := by
  refine fromTop_invariant (P := fun k s => castQuadratic K s = castQuadratic K z ^ k) ?_ ?_ ?_
  · intro s k
    rw [strictly_eq, strictly_eq]
  · intro k s bit hs
    cases bit with
    | false =>
      rw [if_neg (by decide), castQuadratic_mul hp, hs, ← pow_add, Bool.toNat_false,
        Nat.add_zero, Nat.two_mul]
    | true =>
      rw [if_pos rfl, castQuadratic_mul hp, castQuadratic_mul hp, hs, ← pow_add, ← pow_succ,
        Bool.toNat_true, Nat.two_mul]
  · rw [Nat.div_eq_of_lt h, pow_zero]
    ext
    · exact Nat.cast_one
    · exact Nat.cast_zero

/-- The points of the conic with the second coordinate `y` have one first coordinate and its
negative. -/
theorem eq_or_eq_neg_of_norm {e x x' y : K} (h : (⟨x, y⟩ : QuadraticAlgebra K e 0).norm = 1)
    (h' : (⟨x', y⟩ : QuadraticAlgebra K e 0).norm = 1) : x = x' ∨ x = -x' := by
  rw [norm_def] at h h'
  refine sq_eq_sq_iff_eq_or_eq_neg.mp ?_
  linear_combination h - h'

theorem nonempty_field (K : Type*) [Field K] : Nonempty K := ⟨0⟩

open Classical in
/-- The second coordinate of a point and which of its two points it is. -/
noncomputable def conicCode {e : K} (z : QuadraticAlgebra K e 0) : K × Bool :=
  (z.im, decide (z.re
    = @epsilon K (nonempty_field K) fun x => (⟨x, z.im⟩ : QuadraticAlgebra K e 0).norm = 1))

theorem conicCode_injOn {e : K} :
    Set.InjOn conicCode {z : QuadraticAlgebra K e 0 | z.norm = 1} := by
  rintro ⟨x, y⟩ hz ⟨x', y'⟩ hz' h
  rw [conicCode, conicCode, Prod.mk.injEq, decide_eq_decide] at h
  obtain ⟨rfl, hsame⟩ := h
  have hroot := Classical.epsilon_spec
    (p := fun x => (⟨x, y⟩ : QuadraticAlgebra K e 0).norm = 1) ⟨x, hz⟩
  obtain rfl : x = x' := by
    by_cases hx : x = Classical.epsilon fun x => (⟨x, y⟩ : QuadraticAlgebra K e 0).norm = 1
    · exact hx.trans (hsame.mp hx).symm
    · have hx' := mt hsame.mpr hx
      exact ((eq_or_eq_neg_of_norm hz hroot).resolve_left hx).trans
        ((eq_or_eq_neg_of_norm hz' hroot).resolve_left hx').symm
  rfl

/-- **No element of the conic has an order beyond twice the field.** -/
theorem le_of_conic [Finite K] {e : K} {z : QuadraticAlgebra K e 0} {n : Nat} (hn : n.Prime)
    (hnorm : z.norm = 1) (hz : z ≠ 1) (hpow : z ^ n = 1) : n ≤ 2 * Nat.card K := by
  have : Fact n.Prime := ⟨hn⟩
  have horder := orderOf_eq_prime hpow hz
  have hinj : Set.InjOn (fun i => conicCode (z ^ i)) (Set.Iio n) := by
    intro i hi j hj hij
    rw [← horder] at hi hj
    have hpowers {k : Nat} : (z ^ k).norm = 1 := by rw [map_pow, hnorm, one_pow]
    exact pow_injOn_Iio_orderOf hi hj (conicCode_injOn hpowers hpowers hij)
  have hcard := Nat.card_le_card_of_injective _ hinj.injective
  have hIio : Nat.card (Set.Iio n) = n := by simp
  rw [hIio, Nat.card_prod, Nat.card_eq_fintype_card (α := Bool), Fintype.card_bool,
    mul_comm] at hcard
  exact hcard

theorem exists_conic (h : checkConic p d x y n count = true) (hp : (p : K) = 0) :
    ∃ z : QuadraticAlgebra K (d : K) 0, z.norm = 1 ∧ z ≠ 1 ∧ z ^ n = 1 := by
  simp only [checkConic, Bool.and_eq_true, decide_eq_true_eq, beq_iff_eq, and_assoc] at h
  obtain ⟨hcount, hon, hy, hre, him⟩ := h
  refine ⟨castQuadratic K (⟨⟨x⟩, ⟨y⟩⟩ : QuadraticAlgebra (Residue p) ⟨d⟩ ⟨0⟩), ?_, ?_, ?_⟩
  · have hcast := congrArg (Nat.cast (R := K)) hon
    rw [Residue.natCast_mod hp, Residue.natCast_mod hp] at hcast
    push_cast at hcast
    rw [norm_def]
    simp only [castQuadratic, Residue.cast]
    linear_combination hcast
  · intro hone
    exact Residue.cast_ne_zero hp hy (congrArg QuadraticAlgebra.im hone)
  · rw [← cast_powQuadratic hp _ hcount]
    ext
    · simp only [castQuadratic, Residue.cast, hre, Nat.cast_one, re_one]
    · simp only [castQuadratic, Residue.cast, him, Nat.cast_zero, im_one]

/-- **A large prime order on the conic makes the modulus prime.** -/
theorem prime_of_checkConic (hp : 1 < p) (hn : n.Prime) (hlarge : p < (n / 2) ^ 2)
    (h : checkConic p d x y n count = true) : p.Prime := by
  by_contra hnot
  have hq : p.minFac.Prime := Nat.minFac_prime (Nat.ne_of_gt hp)
  have hsq := Nat.minFac_sq_le_self (Nat.zero_lt_of_lt hp) hnot
  have : Fact p.minFac.Prime := ⟨hq⟩
  have hzero : (p : ZMod p.minFac) = 0 := (ZMod.natCast_eq_zero_iff _ _).mpr (Nat.minFac_dvd p)
  obtain ⟨z, hnorm, hz, hpow⟩ := exists_conic (K := ZMod p.minFac) h hzero
  have hroom := le_of_conic hn hnorm hz hpow
  rw [Nat.card_zmod] at hroom
  have hhalf : n / 2 ≤ p.minFac := by omega
  have hpow := Nat.pow_le_pow_left hhalf 2
  omega

end Conic

end Residues
