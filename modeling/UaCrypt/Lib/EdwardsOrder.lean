import UaCrypt.Lib.EdwardsCurve
import UaCrypt.Lib.Residues

/-!
# Orders of Edwards points, by computation

A multiple `n` of a point is computed modulo `p` by doubling and adding, the product of all third
coordinates beside it. Where that product is not zero no addition was exceptional, so one run
shows the order in every field in which `p` is zero.

- `checkOrder`: the run and the conditions on its result.
- `exists_order`: `n` annihilates the point, which is not neutral.
- `prime_of_checkOrder`: with `n` a large prime, `p` is prime. Over a smaller prime factor of `p`
  the curve would not have room for an element of order `n`.
-/

namespace EdwardsCurve

open Residues

/-! ## Maps of projective coordinates -/

section

variable {R S : Type*} [Add R] [Sub R] [Mul R] [Add S] [Sub S] [Mul S]

/-- The coordinates elsewhere. -/
def Projective.map (f : R → S) (p : Projective R) : Projective S := ⟨f p.x, f p.y, f p.z⟩

theorem Projective.map_add {f : R → S} (hadd : ∀ x y, f (x + y) = f x + f y)
    (hsub : ∀ x y, f (x - y) = f x - f y) (hmul : ∀ x y, f (x * y) = f x * f y) (a d : R)
    (p q : Projective R) : (p.add a d q).map f = (p.map f).add (f a) (f d) (q.map f) := by
  simp only [Projective.add, Projective.map, hadd, hsub, hmul]

/-- A multiple so far, and the product of the third coordinates met. -/
structure Chain (R : Type*) where
  point : Projective R
  zs : R

/-- Double, add, and keep the sum for a set bit. -/
def Chain.step (a d : R) (base : Projective R) (s : Chain R) (bit : Bool) : Chain R :=
  let doubled := s.point.add a d s.point
  let candidate := doubled.add a d base
  ⟨if bit then candidate else doubled, s.zs * doubled.z * candidate.z⟩

end

variable {p : Nat}

/-- `k s`, the coordinates evaluated first. -/
def Chain.force (s : Chain (Residue p)) (k : Chain (Residue p) → Chain (Residue p)) :
    Chain (Residue p) :=
  strictly s.point.x.val fun x => strictly s.point.y.val fun y => strictly s.point.z.val fun z =>
    strictly s.zs.val fun zs => k ⟨⟨⟨x⟩, ⟨y⟩, ⟨z⟩⟩, ⟨zs⟩⟩

theorem Chain.force_eq (s : Chain (Residue p)) (k : Chain (Residue p) → Chain (Residue p)) :
    s.force k = k s := by
  rw [Chain.force, strictly_eq, strictly_eq, strictly_eq, strictly_eq]

/-- `n` times the point `(x, y)`, for `n` below `2 ^ count`. -/
def multiple (p a d x y n count : Nat) : Chain (Residue p) :=
  fromTop n Chain.force (Chain.step ⟨a⟩ ⟨d⟩ ⟨⟨x⟩, ⟨y⟩, ⟨1⟩⟩) count ⟨⟨⟨1⟩, ⟨0⟩, ⟨1⟩⟩, ⟨1⟩⟩

/-- The parameters are regular, `(x, y)` is on the curve and not neutral, and `n` times it is
neutral, all of it modulo every factor of `p`. -/
def checkOrder (p a d x y n count : Nat) : Bool :=
  let s := multiple p a d x y n count
  decide (n < 2 ^ count) && decide (a < d) && Nat.gcd (2 * a * d * (d - a)) p == 1
    && (x ^ 2 + a * y ^ 2) % p == (1 + d * x ^ 2 * y ^ 2) % p && Nat.gcd (x - 1) p == 1
    && decide (1 ≤ x) && Nat.gcd s.zs.val p == 1 && s.point.x.val == s.point.z.val
    && s.point.y.val == 0

section

variable {K : Type*} [Field K] {a d x y n count : Nat}

/-- What a passed check says, condition by condition. -/
theorem checkOrder_iff : checkOrder p a d x y n count = true ↔
    n < 2 ^ count ∧ a < d ∧ Nat.gcd (2 * a * d * (d - a)) p = 1
      ∧ (x ^ 2 + a * y ^ 2) % p = (1 + d * x ^ 2 * y ^ 2) % p ∧ Nat.gcd (x - 1) p = 1 ∧ 1 ≤ x
      ∧ Nat.gcd (multiple p a d x y n count).zs.val p = 1
      ∧ (multiple p a d x y n count).point.x.val = (multiple p a d x y n count).point.z.val
      ∧ (multiple p a d x y n count).point.y.val = 0 := by
  simp only [checkOrder, Bool.and_eq_true, decide_eq_true_eq, beq_iff_eq, and_assoc]

theorem regular_of_checkOrder (h : checkOrder p a d x y n count = true) (hp : (p : K) = 0) :
    Regular (a : K) (d : K) := by
  obtain ⟨-, hlt, hgcd, -⟩ := checkOrder_iff.mp h
  have hne := Residue.cast_ne_zero hp hgcd
  rw [Nat.cast_mul, Nat.cast_mul, Nat.cast_mul, Nat.cast_sub (Nat.le_of_lt hlt), Nat.cast_two] at hne
  refine ⟨?_, ?_, ?_, ?_⟩
  · exact left_ne_zero_of_mul (left_ne_zero_of_mul (left_ne_zero_of_mul hne))
  · exact right_ne_zero_of_mul (left_ne_zero_of_mul (left_ne_zero_of_mul hne))
  · exact right_ne_zero_of_mul (left_ne_zero_of_mul hne)
  · rw [← neg_sub, neg_ne_zero]
    exact right_ne_zero_of_mul hne

variable [DecidableEq K]

/-- While no third coordinate met is zero, the state holds the multiple read so far. -/
def Tracks (P : (curve (a : K) (d : K)).Point) (k : Nat) (s : Chain (Residue p)) : Prop :=
  s.zs.cast K ≠ 0 → Lifts (s.point.map (Residue.cast K)) (k • P)

theorem tracks_zero (P : (curve (a : K) (d : K)).Point) :
    Tracks P 0 (⟨⟨⟨1⟩, ⟨0⟩, ⟨1⟩⟩, ⟨1⟩⟩ : Chain (Residue p)) := by
  intro _
  have hcoords : (⟨⟨1⟩, ⟨0⟩, ⟨1⟩⟩ : Projective (Residue p)).map (Residue.cast K) = ⟨1, 0, 1⟩ := by
    simp only [Projective.map, Residue.cast, Nat.cast_one, Nat.cast_zero]
  rw [hcoords, zero_nsmul]
  exact shows_zero.lifts

theorem Tracks.step (hpos : 0 < p) (hp : (p : K) = 0) (hreg : Regular (a : K) (d : K))
    {P : (curve (a : K) (d : K)).Point} (hP : Shows (x : K) (y : K) P) {k : Nat}
    {s : Chain (Residue p)} (h : Tracks P k s) (bit : Bool) :
    Tracks P (2 * k + bit.toNat) (s.step ⟨a⟩ ⟨d⟩ ⟨⟨x⟩, ⟨y⟩, ⟨1⟩⟩ bit) := by
  intro hzs
  have hmap := Projective.map_add (Residue.cast_add hp) (Residue.cast_sub hpos hp)
    (Residue.cast_mul hp) (⟨a⟩ : Residue p) ⟨d⟩
  have hbase : Lifts ((⟨⟨x⟩, ⟨y⟩, ⟨1⟩⟩ : Projective (Residue p)).map (Residue.cast K)) P := by
    have hcoords : (⟨⟨x⟩, ⟨y⟩, ⟨1⟩⟩ : Projective (Residue p)).map (Residue.cast K)
        = ⟨(x : K), (y : K), 1⟩ := by
      simp only [Projective.map, Residue.cast, Nat.cast_one]
    rw [hcoords]
    exact hP.lifts
  simp only [Chain.step] at hzs ⊢
  rw [Residue.cast_mul hp, Residue.cast_mul hp] at hzs
  have hcandidate := right_ne_zero_of_mul hzs
  have hdoubled := right_ne_zero_of_mul (left_ne_zero_of_mul hzs)
  have hs := h (left_ne_zero_of_mul (left_ne_zero_of_mul hzs))
  have htwice : Lifts ((s.point.add ⟨a⟩ ⟨d⟩ s.point).map (Residue.cast K)) (k • P + k • P) := by
    have hz : ((s.point.add ⟨a⟩ ⟨d⟩ s.point).map (Residue.cast K)).z ≠ 0 := hdoubled
    rw [hmap] at hz ⊢
    exact hs.add hreg hs hz
  rw [mul_comm 2 k, add_nsmul, mul_nsmul, two_nsmul]
  cases bit with
  | false =>
    rw [if_neg (by decide), Bool.toNat_false, zero_nsmul, add_zero]
    exact htwice
  | true =>
    rw [if_pos rfl, Bool.toNat_true, one_nsmul]
    have hz : (((s.point.add ⟨a⟩ ⟨d⟩ s.point).add ⟨a⟩ ⟨d⟩ ⟨⟨x⟩, ⟨y⟩, ⟨1⟩⟩).map
        (Residue.cast K)).z ≠ 0 := hcandidate
    rw [hmap] at hz ⊢
    exact htwice.add hreg hbase hz

/-- **One run shows the order** in every field where `p` is zero. -/
theorem exists_order (hpos : 0 < p) (h : checkOrder p a d x y n count = true) (hp : (p : K) = 0) :
    ∃ P : (curve (a : K) (d : K)).Point, Shows (x : K) (y : K) P ∧ n • P = 0 ∧ P ≠ 0 := by
  have hreg := regular_of_checkOrder h hp
  obtain ⟨hcount, -, -, hcurve, hx, hx₁, hzs, hxz, hy⟩ := checkOrder_iff.mp h
  have hon : OnCurve (a : K) (d : K) (x : K) (y : K) := by
    have hcast := congrArg (Nat.cast (R := K)) hcurve
    rw [Residue.natCast_mod hp, Residue.natCast_mod hp] at hcast
    push_cast at hcast
    exact hcast
  obtain ⟨P, hP⟩ := exists_shows hreg hon
  refine ⟨P, hP, ?_, ?_⟩
  · have hstart : Tracks (p := p) P (n / 2 ^ count) ⟨⟨⟨1⟩, ⟨0⟩, ⟨1⟩⟩, ⟨1⟩⟩ := by
      rw [Nat.div_eq_of_lt hcount]
      exact tracks_zero P
    have hrun := fromTop_invariant Chain.force_eq (Tracks P)
      (fun k s bit hs => hs.step hpos hp hreg hP bit) hstart
    obtain ⟨hz, hshows⟩ := hrun (Residue.cast_ne_zero hp hzs)
    -- the coordinates are `(z, 0, z)`
    have hx_eq : ((multiple p a d x y n count).point.map (Residue.cast K)).x
        = ((multiple p a d x y n count).point.map (Residue.cast K)).z :=
      congrArg (Nat.cast (R := K)) hxz
    refine hshows.x_eq_one_iff.mp ?_
    rw [← multiple, hx_eq]
    exact mul_inv_cancel₀ hz
  · intro hzero
    have hone := hP.x_eq_one_iff.mpr hzero
    have hne := Residue.cast_ne_zero hp hx
    rw [Nat.cast_sub hx₁, hone, Nat.cast_one, sub_self] at hne
    exact hne rfl

end

/-- **A prime order makes the modulus prime.** -/
theorem prime_of_checkOrder {a d x y n count : Nat} (hp : 1 < p) (hn : n.Prime)
    (hlarge : p < ((n - 1) / 2) ^ 2) (h : checkOrder p a d x y n count = true) : p.Prime := by
  by_contra hnot
  have hq : p.minFac.Prime := Nat.minFac_prime (Nat.ne_of_gt hp)
  have hsq := Nat.minFac_sq_le_self (Nat.zero_lt_of_lt hp) hnot
  have : Fact p.minFac.Prime := ⟨hq⟩
  have hzero : (p : ZMod p.minFac) = 0 := (ZMod.natCast_eq_zero_iff _ _).mpr (Nat.minFac_dvd p)
  obtain ⟨P, -, hnP, hP⟩ := exists_order (K := ZMod p.minFac) (Nat.zero_lt_of_lt hp) h hzero
  have hroom := Nat.le_of_dvd Nat.card_pos (order_dvd_card hn hP hnP)
  have hcard := hroom.trans card_le
  rw [Nat.card_zmod] at hcard
  have hhalf : (n - 1) / 2 ≤ p.minFac := by omega
  have hpow := Nat.pow_le_pow_left hhalf 2
  omega

end EdwardsCurve
