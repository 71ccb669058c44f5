import UaCrypt.Lib.BinaryPoly
import UaCrypt.Lib.XorLinear

/-!
# Irreducible polynomials over GF(2), by computation

A polynomial of degree `2 ^ (k + 1)` over GF(2) is irreducible if repeated squaring brings
`X` back to itself after `2 ^ (k + 1)` steps modulo it, and if halfway the difference is
invertible. `certified` carries the squarings out on numbers, where squaring only moves the
bits apart.

- `irreducible_of_frobenius`: the criterion, over any prime field and any prime power degree.
- `spread`, `foldTop`, `squares`: the computation; `certified`, what is checked.
- `irreducible_of_certified`: a certified polynomial is irreducible.
-/

namespace BinaryIrreducible

open Polynomial Function BinaryPoly

/-! ## The criterion -/

section Criterion

variable {p : Nat} [Fact p.Prime]

theorem aeval_pow_char {K : Type*} [CommRing K] [Algebra (ZMod p) K] (g : (ZMod p)[X]) (x : K) :
    aeval (x ^ p) g = aeval x g ^ p := by
  rw [← expand_aeval, ZMod.expand_card, map_pow]

/-- A root of an irreducible factor has as many conjugates as the degree of `f`. -/
theorem irreducible_of_frobenius {q k : Nat} [Fact q.Prime] {f : (ZMod p)[X]}
    (hdeg : f.natDegree = q ^ (k + 1)) (hall : f ∣ X ^ p ^ q ^ (k + 1) - X)
    (hnone : IsCoprime f (X ^ p ^ q ^ k - X)) : Irreducible f := by
  classical
  have hpos : 0 < f.natDegree := by
    rw [hdeg]
    exact Nat.pow_pos (Fact.out : q.Prime).pos
  have hne : f ≠ 0 := ne_zero_of_natDegree_gt hpos
  obtain ⟨g, hg, hgf⟩ := exists_irreducible_of_natDegree_pos hpos
  have : Fact (Irreducible g) := ⟨hg⟩
  obtain ⟨α, hα⟩ : ∃ α : AdjoinRoot g, α = AdjoinRoot.root g := ⟨_, rfl⟩
  have hroot (h : (ZMod p)[X]) : aeval α h = 0 ↔ g ∣ h := by
    rw [hα, AdjoinRoot.aeval_eq, AdjoinRoot.mk_eq_zero]
  have hfixed (n : Nat) : IsPeriodicPt (· ^ p) n α ↔ g ∣ X ^ p ^ n - X := by
    rw [← hroot, map_sub, map_pow, aeval_X, sub_eq_zero, IsPeriodicPt, IsFixedPt, pow_iterate]
  have hperiod : minimalPeriod (· ^ p) α = q ^ (k + 1) := by
    refine minimalPeriod_eq_prime_pow (fun h => ?_) ((hfixed _).mpr (hgf.trans hall))
    exact hg.not_isUnit (hnone.isUnit_of_dvd' hgf ((hfixed _).mp h))
  have hconj (i : Nat) : aeval ((· ^ p)^[i] α) g = 0 := by
    induction i with
    | zero => exact (hroot g).mpr dvd_rfl
    | succ i ih =>
      rw [iterate_succ_apply', aeval_pow_char, ih, zero_pow (Fact.out : p.Prime).ne_zero]
  -- the conjugates are distinct roots of `g`
  obtain ⟨conjugates, hconjugates⟩ :
      ∃ s, s = (Finset.range (q ^ (k + 1))).image fun i => (· ^ p)^[i] α := ⟨_, rfl⟩
  have hcard : conjugates.card = q ^ (k + 1) := by
    rw [hconjugates, Finset.card_image_of_injOn, Finset.card_range]
    rw [Finset.coe_range, ← hperiod]
    exact iterate_injOn_Iio_minimalPeriod
  have hsubset : conjugates.val ⊆ (g.map (algebraMap (ZMod p) (AdjoinRoot g))).roots := by
    intro x hx
    rw [hconjugates] at hx
    obtain ⟨i, -, rfl⟩ := Finset.mem_image.mp (Finset.mem_val.mp hx)
    rw [mem_roots (map_ne_zero hg.ne_zero), IsRoot.def, eval_map_algebraMap]
    exact hconj i
  have hle := card_le_degree_of_subset_roots hsubset
  rw [hcard, natDegree_map, ← hdeg] at hle
  exact (associated_of_dvd_of_natDegree_le hgf hne hle).irreducible hg

end Criterion

/-! ## The computation -/

/-- The bits of `x` moved apart: one step for each power of two, largest first. -/
def spread (m : Nat) (steps : List Nat) (x : Nat) : Nat :=
  steps.foldl (fun t h => (t ^^^ (t <<< h)) &&& ((2 ^ (2 * m) - 1) / (2 ^ h + 1))) x

/-- The bits from `m` on, brought down to the terms of the modulus. -/
def foldTop (m : Nat) (terms : List Nat) (s : Nat) : Nat :=
  terms.foldl (fun t e => t ^^^ ((s >>> m) <<< e)) (s % 2 ^ m)

def square (m : Nat) (steps terms : List Nat) (r : Nat) : Nat :=
  foldTop m terms (foldTop m terms (spread m steps r))

/-- `n` squarings, as long as the remainder fits. The match makes the kernel compute each
remainder before it goes on. -/
def squares (m : Nat) (steps terms : List Nat) : Nat → Nat → Option Nat
  | 0, r => some r
  | n + 1, r =>
    if r < 2 ^ m then
      match square m steps terms r with
      | 0 => squares m steps terms n 0
      | r' + 1 => squares m steps terms n (r' + 1)
    else none

/-- What is checked: `spread` squares the powers of `X`, half the squarings take `X` to `mid`,
the other half take `mid` back to `X`, and `u` inverts `mid + X`. -/
def certified (m : Nat) (steps terms : List Nat) (mid u : Nat) : Bool :=
  (List.range m).all (fun k => spread m steps (2 ^ k) == 2 ^ (2 * k))
    && (squares m steps terms (m / 2) 2 == some mid
      && (squares m steps terms (m / 2) mid == some 2
        && (decide ((mid ^^^ 2) < 2 ^ m)
          && foldTop m terms (foldTop m terms (mulLoop m u (mid ^^^ 2))) == 1)))

/-! ## What it computes -/

theorem spread_xor (m : Nat) (steps : List Nat) (a b : Nat) :
    spread m steps (a ^^^ b) = spread m steps a ^^^ spread m steps b := by
  induction steps generalizing a b with
  | nil => rfl
  | cons h steps ih =>
    have hstep : ((a ^^^ b) ^^^ ((a ^^^ b) <<< h)) &&& ((2 ^ (2 * m) - 1) / (2 ^ h + 1))
        = ((a ^^^ (a <<< h)) &&& ((2 ^ (2 * m) - 1) / (2 ^ h + 1)))
          ^^^ ((b ^^^ (b <<< h)) &&& ((2 ^ (2 * m) - 1) / (2 ^ h + 1))) := by
      rw [Nat.shiftLeft_xor_distrib, ← Nat.and_xor_distrib_right]
      congr 1
      ac_rfl
    show spread m steps (((a ^^^ b) ^^^ ((a ^^^ b) <<< h)) &&& _) = _
    rw [hstep, ih]
    rfl

/-- Moving the bits apart squares the polynomial, once it does so for the powers of `X`. -/
theorem ofNat_spread {m : Nat} {steps : List Nat}
    (h : ∀ k, k < m → spread m steps (2 ^ k) = 2 ^ (2 * k)) {x : Nat} (hx : x < 2 ^ m) :
    ofNat (spread m steps x) = ofNat x ^ 2 := by
  have hzero : spread m steps 0 = 0 := by
    have hself := spread_xor m steps 0 0
    rwa [Nat.xor_self, Nat.xor_self] at hself
  refine eq_below_of_two_pow (· + ·) (f := fun x => ofNat (spread m steps x))
    (g := fun x => ofNat x ^ 2) ?_ ?_ ?_ ?_ x hx
  · intro a b
    rw [spread_xor, ofNat_xor]
  · intro a b
    rw [ofNat_xor, CharTwo.add_sq]
  · show ofNat (spread m steps 0) = ofNat 0 ^ 2
    rw [hzero, ofNat_zero, zero_pow two_ne_zero]
  · intro k hk
    show ofNat (spread m steps (2 ^ k)) = ofNat (2 ^ k) ^ 2
    rw [h k hk, ofNat_two_pow, ofNat_two_pow, ← pow_mul, Nat.mul_comm]

/-- `X ^ m` and the terms. -/
noncomputable def modulus (m : Nat) (terms : List Nat) : (ZMod 2)[X] :=
  X ^ m + (terms.map fun e => X ^ e).sum

section Degree

variable {m : Nat} {terms : List Nat} (hterms : ∀ e ∈ terms, e < m)

include hterms

theorem below_tail : Below m (terms.map fun e => (X : (ZMod 2)[X]) ^ e).sum := by
  induction terms with
  | nil => exact below_zero m
  | cons e terms ih =>
    rw [List.map_cons, List.sum_cons]
    refine Below.add ?_ (ih fun e he => hterms e (List.mem_cons_of_mem _ he))
    intro i hi
    rw [coeff_X_pow, if_neg]
    exact Nat.ne_of_gt (Nat.lt_of_lt_of_le (hterms e List.mem_cons_self) hi)

theorem degree_modulus : (modulus m terms).degree = m := by
  rw [modulus, degree_add_eq_left_of_degree_lt, degree_X_pow]
  rw [degree_X_pow]
  exact below_iff.mp (below_tail hterms)

theorem natDegree_modulus : (modulus m terms).natDegree = m :=
  natDegree_eq_of_degree_eq_some (degree_modulus hterms)

end Degree

/-- Bringing the top down keeps the class. -/
theorem dvd_foldTop (m : Nat) (terms : List Nat) (s : Nat) :
    modulus m terms ∣ ofNat s + ofNat (foldTop m terms s) := by
  have hfold : ∀ t, ofNat (terms.foldl (fun t e => t ^^^ ((s >>> m) <<< e)) t)
      = ofNat t + (terms.map fun e => X ^ e).sum * ofNat (s >>> m) := by
    induction terms with
    | nil =>
      intro t
      rw [List.foldl_nil, List.map_nil, List.sum_nil, zero_mul, add_zero]
    | cons e terms ih =>
      intro t
      rw [List.foldl_cons, ih, ofNat_xor, ofNat_shiftLeft, List.map_cons, List.sum_cons]
      ring
  have hcut := ofNat_eq_mod_add_shiftRight s m
  refine ⟨ofNat (s >>> m), ?_⟩
  rw [foldTop, hfold, modulus]
  have hcancel := CharTwo.add_self_eq_zero (ofNat (s % 2 ^ m))
  linear_combination hcut + hcancel

/-- The other way round, through two folds. -/
theorem dvd_foldTop_foldTop (m : Nat) (terms : List Nat) (s : Nat) :
    modulus m terms ∣ ofNat s + ofNat (foldTop m terms (foldTop m terms s)) := by
  have hsum := dvd_add (dvd_foldTop m terms s) (dvd_foldTop m terms (foldTop m terms s))
  rwa [add_assoc, ← add_assoc (ofNat (foldTop m terms s)), CharTwo.add_self_eq_zero,
    zero_add] at hsum

section Soundness

variable {m : Nat} {steps terms : List Nat}
  (hspread : ∀ k, k < m → spread m steps (2 ^ k) = 2 ^ (2 * k))

include hspread in
theorem dvd_square {r : Nat} (hr : r < 2 ^ m) :
    modulus m terms ∣ ofNat r ^ 2 + ofNat (square m steps terms r) := by
  rw [← ofNat_spread hspread hr]
  exact dvd_foldTop_foldTop m terms _

theorem squares_succ {n r : Nat} {result : Nat}
    (h : squares m steps terms (n + 1) r = some result) :
    r < 2 ^ m ∧ squares m steps terms n (square m steps terms r) = some result := by
  rw [squares] at h
  split at h
  · rename_i hr
    refine ⟨hr, ?_⟩
    cases hsq : square m steps terms r with
    | zero =>
      rw [hsq] at h
      exact h
    | succ r' =>
      rw [hsq] at h
      exact h
  · cases h

include hspread in
/-- `n` squarings raise to the power `2 ^ n`. -/
theorem dvd_squares {n r result : Nat} (h : squares m steps terms n r = some result) :
    modulus m terms ∣ ofNat r ^ 2 ^ n + ofNat result := by
  induction n generalizing r with
  | zero =>
    obtain rfl : r = result := Option.some.inj h
    rw [Nat.pow_zero, pow_one, CharTwo.add_self_eq_zero]
    exact dvd_zero _
  | succ n ih =>
    obtain ⟨hr, hrest⟩ := squares_succ h
    have hstep : modulus m terms ∣ ofNat r ^ 2 + ofNat (square m steps terms r) :=
      dvd_square hspread hr
    -- a sum raised to a power of two is the sum of the powers
    have hpow : modulus m terms
        ∣ (ofNat r ^ 2) ^ 2 ^ n + ofNat (square m steps terms r) ^ 2 ^ n := by
      rw [← add_pow_char_pow]
      exact dvd_pow hstep (Nat.two_pow_pos n).ne'
    have hsum := dvd_add hpow (ih hrest)
    rwa [add_assoc, ← add_assoc (ofNat (square m steps terms r) ^ 2 ^ n),
      CharTwo.add_self_eq_zero, zero_add, ← pow_mul, ← Nat.pow_succ'] at hsum

end Soundness

/-- A certified polynomial of degree `2 ^ (k + 1)` is irreducible. -/
theorem irreducible_of_certified {k : Nat} {steps terms : List Nat} {mid u : Nat}
    (hdeg : (modulus (2 ^ (k + 1)) terms).natDegree = 2 ^ (k + 1))
    (h : certified (2 ^ (k + 1)) steps terms mid u = true) :
    Irreducible (modulus (2 ^ (k + 1)) terms) := by
  have hhalf : 2 ^ (k + 1) / 2 = 2 ^ k := by
    rw [Nat.pow_succ, Nat.mul_div_cancel _ (by decide)]
  simp only [certified, Bool.and_eq_true, List.all_eq_true, List.mem_range, beq_iff_eq,
    decide_eq_true_iff, hhalf] at h
  obtain ⟨hspread, hfirst, hsecond, hlt, hinv⟩ := h
  have hX : ofNat 2 = X := (ofNat_two_pow 1).trans (pow_one X)
  have hmid := dvd_squares hspread hfirst
  have hback := dvd_squares hspread hsecond
  rw [hX] at hmid hback
  refine irreducible_of_frobenius (q := 2) (k := k) hdeg ?_ ?_
  · -- the second half, applied to the power the first half gives
    have hpow : modulus (2 ^ (k + 1)) terms
        ∣ (X ^ 2 ^ 2 ^ k) ^ 2 ^ 2 ^ k + ofNat mid ^ 2 ^ 2 ^ k := by
      rw [← add_pow_char_pow]
      exact dvd_pow hmid (Nat.two_pow_pos _).ne'
    have hsum := dvd_add hpow hback
    have hexp : 2 ^ 2 ^ k * 2 ^ 2 ^ k = 2 ^ 2 ^ (k + 1) := by
      rw [← Nat.pow_add, Nat.pow_succ, Nat.mul_two]
    rw [add_assoc, ← add_assoc (ofNat mid ^ 2 ^ 2 ^ k), CharTwo.add_self_eq_zero, zero_add,
      ← pow_mul, hexp] at hsum
    rwa [CharTwo.sub_eq_add]
  · have hunit := dvd_foldTop_foldTop (2 ^ (k + 1)) terms (mulLoop (2 ^ (k + 1)) u (mid ^^^ 2))
    rw [hinv, ofNat_one, ofNat_mulLoop hlt, ofNat_xor, hX] at hunit
    obtain ⟨c₁, hc₁⟩ := hunit
    obtain ⟨c₂, hc₂⟩ := hmid
    rw [CharTwo.sub_eq_add]
    refine ⟨c₁ + ofNat u * c₂, ofNat u, ?_⟩
    have htwo : (2 : (ZMod 2)[X]) = 0 := CharTwo.two_eq_zero
    linear_combination -hc₁ - ofNat u * hc₂ + ofNat u * (X ^ 2 ^ 2 ^ k + X + ofNat mid) * htwo

end BinaryIrreducible
