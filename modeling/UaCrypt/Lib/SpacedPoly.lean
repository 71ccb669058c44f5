import UaCrypt.Lib.BinaryIrreducible

/-!
# Polynomials over GF(2) as numbers with room between the coefficients

A coefficient takes `gap` bits of a number, so that the ordinary product of two such numbers adds
up the products of coefficients without a carry from one place into the next. The low bit at each
place is then the coefficient of the product modulo two. A computation with the polynomials so
takes a few operations on large numbers.

- `toPoly`: the polynomial of a number; `toPoly_mul`: products, `toPoly_and_mask`: the low bits.
- `Spacing`: the gap and the modulus, `Spacing.mul`: the product of two remainders.
- `Spacing.irreducible`: a modulus of prime degree is irreducible if as many squarings bring `X`
  back.
-/

namespace SpacedPoly

open Polynomial BinaryPoly BinaryIrreducible

variable {w a b m : Nat}

/-! ## Places -/

/-- What stands at place `k`. -/
def digit (w n k : Nat) : Nat := n / 2 ^ (w * k) % 2 ^ w

theorem digit_add {r : Nat} (h : ∀ k, digit w a k + digit w r k < 2 ^ w) (k : Nat) :
    digit w (a + r) k = digit w a k + digit w r k := by
  -- no carry leaves the places below, so the numbers above them add up on their own
  have hdiv : (a + r) / 2 ^ (w * k) = a / 2 ^ (w * k) + r / 2 ^ (w * k) := by
    induction k with
    | zero => simp
    | succ k ih =>
      have hsum := h k
      simp only [digit] at hsum
      rw [Nat.mul_succ, Nat.pow_add, ← Nat.div_div_eq_div_mul, ← Nat.div_div_eq_div_mul,
        ← Nat.div_div_eq_div_mul, ih, Nat.add_div (Nat.two_pow_pos w),
        if_neg (Nat.not_le_of_lt hsum), Nat.add_zero]
  rw [digit, hdiv, Nat.add_mod]
  exact Nat.mod_eq_of_lt (h k)

theorem digit_mul_two_pow (w a j k : Nat) :
    digit w (a * 2 ^ (w * j)) k = if j ≤ k then digit w a (k - j) else 0 := by
  split
  · rename_i hjk
    have hexp : w * k = w * (k - j) + w * j := by rw [← Nat.mul_add, Nat.sub_add_cancel hjk]
    rw [digit, hexp, Nat.pow_add, Nat.mul_div_mul_right _ _ (Nat.two_pow_pos _)]
    rfl
  · rename_i hkj
    have hexp : w * j = w * k + (w + w * (j - k - 1)) := by
      have hj : j = k + (1 + (j - k - 1)) := by omega
      conv_lhs => rw [hj, Nat.mul_add, Nat.mul_add, Nat.mul_one]
    rw [digit, hexp, Nat.pow_add, ← Nat.mul_assoc, Nat.mul_right_comm,
      Nat.mul_div_cancel _ (Nat.two_pow_pos _), Nat.pow_add, Nat.mul_left_comm, Nat.mul_mod_right]

/-- Every place holds a bit. -/
def Flat (w n : Nat) : Prop := ∀ k, digit w n k ≤ 1

/-! ## The polynomial -/

/-- The low bits of the places as coefficients. -/
noncomputable def toPoly (w n : Nat) : (ZMod 2)[X] := contract w (ofNat n)

section

variable (hw : 0 < w)

include hw

theorem coeff_toPoly (n k : Nat) : (toPoly w n).coeff k = bitCoeff (n.testBit (w * k)) := by
  rw [toPoly, coeff_contract (Nat.ne_of_gt hw), coeff_ofNat, Nat.mul_comm]

theorem coeff_toPoly_eq_digit (n k : Nat) : (toPoly w n).coeff k = (digit w n k : ZMod 2) := by
  have hbit : n.testBit (w * k) = decide (digit w n k % 2 = 1) := by
    rw [Nat.testBit_eq_decide_div_mod_eq, digit, Nat.mod_mod_of_dvd _ (dvd_pow_self 2 hw.ne')]
  rw [coeff_toPoly hw, hbit, ← ZMod.natCast_mod]
  rcases Nat.mod_two_eq_zero_or_one (digit w n k) with h | h
  · rw [h]
    rfl
  · rw [h]
    rfl

theorem toPoly_zero : toPoly w 0 = 0 := by
  ext k
  rw [coeff_toPoly hw, Nat.zero_testBit, coeff_zero]
  rfl

theorem toPoly_two_pow (k : Nat) : toPoly w (2 ^ (w * k)) = X ^ k := by
  ext i
  rw [coeff_toPoly hw, Nat.testBit_two_pow, coeff_X_pow]
  by_cases h : i = k
  · simp [h, bitCoeff]
  · simp [h, hw.ne', Ne.symm h, bitCoeff]

theorem toPoly_xor (a b : Nat) : toPoly w (a ^^^ b) = toPoly w a + toPoly w b := by
  ext k
  rw [coeff_add, coeff_toPoly hw, coeff_toPoly hw, coeff_toPoly hw, Nat.testBit_xor, bitCoeff_xor]

theorem toPoly_shiftLeft (n k : Nat) : toPoly w (n <<< (w * k)) = X ^ k * toPoly w n := by
  ext i
  rw [coeff_toPoly hw, coeff_X_pow_mul', Nat.testBit_shiftLeft]
  by_cases h : k ≤ i
  · rw [if_pos h, coeff_toPoly hw, decide_eq_true (Nat.mul_le_mul_left w h), Bool.true_and,
      Nat.mul_sub]
  · rw [if_neg h, decide_eq_false fun hle ↦ h (Nat.le_of_mul_le_mul_left hle hw), Bool.false_and]
    rfl

/-- A number cut at place `k`. -/
theorem toPoly_eq_mod_add (n k : Nat) :
    toPoly w n = toPoly w (n % 2 ^ (w * k)) + X ^ k * toPoly w (n >>> (w * k)) := by
  have hcut : n = (n % 2 ^ (w * k)) ^^^ ((n >>> (w * k)) <<< (w * k)) := by
    refine Nat.eq_of_testBit_eq fun i ↦ ?_
    rw [Nat.testBit_xor, Nat.testBit_mod_two_pow, Nat.testBit_shiftLeft, Nat.testBit_shiftRight]
    by_cases h : i < w * k
    · simp [h, Nat.not_le_of_lt h]
    · simp [h, Nat.le_of_not_lt h]
  conv_lhs => rw [hcut, toPoly_xor hw, toPoly_shiftLeft hw]

theorem toPoly_add {r : Nat} (h : ∀ k, digit w a k + digit w r k < 2 ^ w) :
    toPoly w (a + r) = toPoly w a + toPoly w r := by
  ext k
  rw [coeff_add, coeff_toPoly_eq_digit hw, coeff_toPoly_eq_digit hw, coeff_toPoly_eq_digit hw,
    digit_add h, Nat.cast_add]

/-- The rows of the product, one for each of the first `j` places of `b`. No place has grown
beyond their number. -/
theorem toPoly_mul_rows (ha : Flat w a) (hb : Flat w b) {j : Nat} (hj : j < 2 ^ w) :
    toPoly w (a * (b % 2 ^ (w * j))) = toPoly w a * toPoly w (b % 2 ^ (w * j))
      ∧ ∀ k, digit w (a * (b % 2 ^ (w * j))) k ≤ j := by
  induction j with
  | zero =>
    rw [Nat.mul_zero, Nat.pow_zero, Nat.mod_one, Nat.mul_zero]
    refine ⟨?_, fun k ↦ ?_⟩
    · rw [toPoly_zero hw, mul_zero]
    · simp [digit]
  | succ j ih =>
    obtain ⟨hpoly, hdigit⟩ := ih (Nat.lt_of_succ_lt hj)
    have hrest : b % 2 ^ (w * (j + 1)) = b % 2 ^ (w * j) + 2 ^ (w * j) * digit w b j := by
      rw [Nat.mul_succ, Nat.pow_add, Nat.mod_mul]
      rfl
    rcases Nat.le_one_iff_eq_zero_or_eq_one.mp (hb j) with h | h
    · rw [hrest, h, Nat.mul_zero, Nat.add_zero]
      exact ⟨hpoly, fun k ↦ Nat.le_succ_of_le (hdigit k)⟩
    · have hrow (k : Nat) : digit w (a * 2 ^ (w * j)) k ≤ 1 := by
        rw [digit_mul_two_pow]
        split
        · exact ha _
        · exact Nat.zero_le 1
      have hroom (k : Nat) : digit w (a * (b % 2 ^ (w * j))) k + digit w (a * 2 ^ (w * j)) k
          ≤ j + 1 := Nat.add_le_add (hdigit k) (hrow k)
      have hplace : toPoly w (b % 2 ^ (w * j) + 2 ^ (w * j))
          = toPoly w (b % 2 ^ (w * j)) + X ^ j := by
        have hhigh : (b % 2 ^ (w * j) + 2 ^ (w * j)) >>> (w * j) = 2 ^ (w * 0) := by
          rw [Nat.shiftRight_eq_div_pow, Nat.add_div_right _ (Nat.two_pow_pos _),
            Nat.div_eq_of_lt (Nat.mod_lt _ (Nat.two_pow_pos _))]
          rfl
        rw [toPoly_eq_mod_add hw _ j, Nat.add_mod_right, Nat.mod_mod, hhigh, toPoly_two_pow hw,
          pow_zero, mul_one]
      rw [hrest, h, Nat.mul_one, Nat.mul_add]
      refine ⟨?_, fun k ↦ ?_⟩
      · rw [toPoly_add hw fun k ↦ Nat.lt_of_le_of_lt (hroom k) hj, hpoly, hplace, mul_add,
          ← Nat.shiftLeft_eq, toPoly_shiftLeft hw, mul_comm (X ^ j)]
      · rw [digit_add fun k ↦ Nat.lt_of_le_of_lt (hroom k) hj]
        exact hroom k

theorem toPoly_mul (ha : Flat w a) (hb : Flat w b) (hlt : b < 2 ^ (w * m)) (hm : m < 2 ^ w) :
    toPoly w (a * b) = toPoly w a * toPoly w b := by
  have h := (toPoly_mul_rows hw ha hb hm).1
  rwa [Nat.mod_eq_of_lt hlt] at h

end

/-! ## The low bits -/

/-- A one at each of the first `m` places. -/
def mask (w : Nat) : Nat → Nat
  | 0 => 0
  | m + 1 => 2 ^ (w * m) ||| mask w m

theorem testBit_mask (w m i : Nat) : (mask w m).testBit i = true ↔ ∃ k, k < m ∧ w * k = i := by
  induction m with
  | zero => simp [mask]
  | succ m ih =>
    rw [mask, Nat.testBit_or, Bool.or_eq_true, ih, Nat.testBit_two_pow, decide_eq_true_iff]
    constructor
    · rintro (rfl | ⟨k, hk, rfl⟩)
      · exact ⟨m, Nat.lt_succ_self m, rfl⟩
      · exact ⟨k, Nat.lt_succ_of_lt hk, rfl⟩
    · rintro ⟨k, hk, rfl⟩
      rcases Nat.lt_succ_iff_lt_or_eq.mp hk with h | rfl
      · exact Or.inr ⟨k, h, rfl⟩
      · exact Or.inl rfl

theorem toPoly_and_mask (hw : 0 < w) {n : Nat} (hn : n < 2 ^ (w * m)) :
    toPoly w (n &&& mask w m) = toPoly w n := by
  ext k
  rw [coeff_toPoly hw, coeff_toPoly hw, Nat.testBit_and]
  congr 1
  by_cases hk : k < m
  · rw [(testBit_mask w m (w * k)).mpr ⟨k, hk, rfl⟩, Bool.and_true]
  · have hle : 2 ^ (w * m) ≤ 2 ^ (w * k) :=
      Nat.pow_le_pow_right (by decide) (Nat.mul_le_mul_left w (Nat.le_of_not_lt hk))
    rw [Nat.testBit_lt_two_pow (Nat.lt_of_lt_of_le hn hle), Bool.false_and]

/-- `n` has a bit at some of the first `m` places and nothing elsewhere. -/
def Fits (w m n : Nat) : Prop := ∀ i, n.testBit i = true → ∃ k, k < m ∧ w * k = i

section

variable {n n' m' : Nat}

theorem Fits.mono (h : Fits w m n) (hm : m ≤ m') : Fits w m' n := by
  intro i hi
  obtain ⟨k, hk, rfl⟩ := h i hi
  exact ⟨k, Nat.lt_of_lt_of_le hk hm, rfl⟩

theorem Fits.xor (h : Fits w m n) (h' : Fits w m n') : Fits w m (n ^^^ n') := by
  intro i hi
  rw [Nat.testBit_xor] at hi
  cases hbit : n.testBit i with
  | true => exact h i hbit
  | false =>
    rw [hbit, Bool.false_xor] at hi
    exact h' i hi

theorem fits_and_mask (w m n : Nat) : Fits w m (n &&& mask w m) := by
  intro i hi
  rw [Nat.testBit_and, Bool.and_eq_true] at hi
  exact (testBit_mask w m i).mp hi.2

theorem Fits.shiftLeft (h : Fits w m n) (d : Nat) : Fits w (m + d) (n <<< (w * d)) := by
  intro i hi
  rw [Nat.testBit_shiftLeft, Bool.and_eq_true, decide_eq_true_iff] at hi
  obtain ⟨hle, hbit⟩ := hi
  obtain ⟨k, hk, hki⟩ := h _ hbit
  refine ⟨k + d, Nat.add_lt_add_right hk d, ?_⟩
  rw [Nat.mul_add, hki, Nat.sub_add_cancel hle]

theorem Fits.shiftRight (hw : 0 < w) (h : Fits w m n) (d : Nat) :
    Fits w (m - d) (n >>> (w * d)) := by
  intro i hi
  rw [Nat.testBit_shiftRight] at hi
  obtain ⟨k, hk, hki⟩ := h _ hi
  have hdk : d ≤ k := Nat.le_of_mul_le_mul_left (by omega : w * d ≤ w * k) hw
  refine ⟨k - d, by omega, ?_⟩
  rw [Nat.mul_sub]
  omega

theorem Fits.mod (h : Fits w m n) (d : Nat) : Fits w d (n % 2 ^ (w * d)) := by
  intro i hi
  rw [Nat.testBit_mod_two_pow, Bool.and_eq_true, decide_eq_true_iff] at hi
  obtain ⟨k, -, rfl⟩ := h i hi.2
  exact ⟨k, Nat.lt_of_mul_lt_mul_left hi.1, rfl⟩

theorem Fits.lt (hw : 0 < w) (h : Fits w m n) : n < 2 ^ (w * m) := by
  refine Nat.lt_pow_two_of_testBit n fun i hi ↦ ?_
  rw [← Bool.not_eq_true]
  intro hbit
  obtain ⟨k, hk, rfl⟩ := h i hbit
  exact Nat.not_lt_of_le hi (Nat.mul_lt_mul_of_pos_left hk hw)

theorem Fits.flat (h : Fits w m n) : Flat w n := by
  intro k
  have hlow : digit w n k % 2 = digit w n k := by
    refine Nat.eq_of_testBit_eq fun i ↦ ?_
    rw [← Nat.pow_one 2, Nat.testBit_mod_two_pow]
    cases i with
    | zero => simp
    | succ i =>
      rw [decide_eq_false (by omega), Bool.false_and]
      symm
      rw [← Bool.not_eq_true, digit, Nat.testBit_mod_two_pow, ← Nat.shiftRight_eq_div_pow,
        Nat.testBit_shiftRight, Bool.and_eq_true, decide_eq_true_iff]
      -- a bit inside a place is at no place
      rintro ⟨hi, hbit⟩
      obtain ⟨j, -, hj⟩ := h _ hbit
      have hdvd : w ∣ i + 1 := (Nat.dvd_add_right (dvd_mul_right w k)).mp ⟨j, hj.symm⟩
      exact Nat.not_le_of_lt hi (Nat.le_of_dvd (Nat.succ_pos i) hdvd)
  omega

end

/-- The first `m` bits of a number, each at a place of its own. -/
def space (w : Nat) : Nat → Nat → Nat
  | 0, _ => 0
  | m + 1, n => (n % 2) ^^^ (space w m (n / 2) <<< w)

theorem fits_space (w m n : Nat) : Fits w m (space w m n) := by
  induction m generalizing n with
  | zero =>
    intro i hi
    rw [space, Nat.zero_testBit] at hi
    cases hi
  | succ m ih =>
    refine Fits.xor ?_ ?_
    · intro i hi
      rw [← Nat.pow_one 2, Nat.testBit_mod_two_pow, Bool.and_eq_true, decide_eq_true_iff] at hi
      exact ⟨0, Nat.succ_pos m, by omega⟩
    · have h := (ih (n / 2)).shiftLeft 1
      rwa [Nat.mul_one] at h

theorem toPoly_space (hw : 0 < w) {n : Nat} (hn : n < 2 ^ m) :
    toPoly w (space w m n) = ofNat n := by
  induction m generalizing n with
  | zero =>
    obtain rfl : n = 0 := by simpa using hn
    rw [space, toPoly_zero hw, ofNat_zero]
  | succ m ih =>
    have hlow : toPoly w (n % 2) = ofNat (n % 2) := by
      rcases Nat.mod_two_eq_zero_or_one n with h | h
      · rw [h, toPoly_zero hw, ofNat_zero]
      · rw [h, ofNat_one]
        exact toPoly_two_pow hw 0
    have hrest := toPoly_shiftLeft hw (space w m (n / 2)) 1
    rw [Nat.mul_one, ih (by omega)] at hrest
    rw [space, toPoly_xor hw, hlow, hrest, ofNat_eq_mod_add_shiftRight n 1]
    rfl

/-! ## Remainders -/

/-- The room for a coefficient, and the modulus. Its terms below the first are in the lower half,
so that bringing the upper places down twice is enough. -/
structure Spacing where
  gap : Nat
  degree : Nat
  terms : List Nat
  gap_pos : 0 < gap
  degree_lt : degree < 2 ^ gap
  terms_lt : ∀ e ∈ terms, 2 * e < degree

namespace Spacing

variable (p : Spacing)

noncomputable def modulus : (ZMod 2)[X] := BinaryIrreducible.modulus p.degree p.terms

noncomputable def poly (n : Nat) : (ZMod 2)[X] := toPoly p.gap n

/-- The places from the degree on, brought down. -/
def reduce (n : Nat) : Nat := foldTop (p.gap * p.degree) (p.terms.map (p.gap * ·)) n

def mul (a b : Nat) : Nat := p.reduce (p.reduce (a * b &&& mask p.gap (2 * p.degree)))

/-- A remainder. -/
def Reduced (n : Nat) : Prop := Fits p.gap p.degree n

variable {p}

theorem terms_lt_degree : ∀ e ∈ p.terms, e < p.degree := by
  intro e he
  have hlt := p.terms_lt e he
  omega

theorem dvd_reduce (n : Nat) : p.modulus ∣ p.poly n + p.poly (p.reduce n) := by
  have hw := p.gap_pos
  have hfold (terms : List Nat) (t : Nat) :
      p.poly ((terms.map (p.gap * ·)).foldl
          (fun t e ↦ t ^^^ ((n >>> (p.gap * p.degree)) <<< e)) t)
        = p.poly t + (terms.map fun e ↦ X ^ e).sum * p.poly (n >>> (p.gap * p.degree)) := by
    induction terms generalizing t with
    | nil => simp
    | cons e terms ih =>
      rw [List.map_cons, List.foldl_cons, ih, poly, toPoly_xor hw, toPoly_shiftLeft hw,
        List.map_cons, List.sum_cons]
      simp only [poly]
      ring
  have hcut := toPoly_eq_mod_add hw n p.degree
  refine ⟨p.poly (n >>> (p.gap * p.degree)), ?_⟩
  rw [reduce, foldTop, hfold, modulus, BinaryIrreducible.modulus]
  simp only [poly] at hcut ⊢
  have hcancel := CharTwo.add_self_eq_zero (toPoly p.gap (n % 2 ^ (p.gap * p.degree)))
  linear_combination hcut + hcancel

/-- Half the degree is gone after one turn, the rest after another. -/
theorem fits_reduce {m n t : Nat} (h : Fits p.gap m n) (hdeg : p.degree ≤ t)
    (hm : ∀ e ∈ p.terms, m - p.degree + e ≤ t) : Fits p.gap t (p.reduce n) := by
  have hw := p.gap_pos
  have hfold (terms : List Nat) (hterms : ∀ e ∈ terms, m - p.degree + e ≤ t) (r : Nat)
      (hr : Fits p.gap t r) :
      Fits p.gap t ((terms.map (p.gap * ·)).foldl
        (fun t e ↦ t ^^^ ((n >>> (p.gap * p.degree)) <<< e)) r) := by
    induction terms generalizing r with
    | nil => exact hr
    | cons e terms ih =>
      refine ih (fun e he ↦ hterms e (List.mem_cons_of_mem _ he)) _ (hr.xor ?_)
      exact ((h.shiftRight hw p.degree).shiftLeft e).mono (hterms e List.mem_cons_self)
  exact hfold p.terms hm _ ((h.mod p.degree).mono hdeg)

theorem reduced_mul (a b : Nat) : p.Reduced (p.mul a b) := by
  have hfirst : Fits p.gap (p.degree + (p.degree - 1) / 2)
      (p.reduce (a * b &&& mask p.gap (2 * p.degree))) := by
    refine fits_reduce (fits_and_mask _ _ _) (Nat.le_add_right _ _) fun e he ↦ ?_
    have hlt := p.terms_lt e he
    omega
  refine fits_reduce hfirst (Nat.le_refl _) fun e he ↦ ?_
  have hlt := p.terms_lt e he
  omega

theorem poly_xor (a b : Nat) : p.poly (a ^^^ b) = p.poly a + p.poly b := toPoly_xor p.gap_pos a b

theorem Reduced.xor {a b : Nat} (ha : p.Reduced a) (hb : p.Reduced b) : p.Reduced (a ^^^ b) :=
  Fits.xor ha hb

theorem dvd_mul {a b : Nat} (ha : p.Reduced a) (hb : p.Reduced b) :
    p.modulus ∣ p.poly a * p.poly b + p.poly (p.mul a b) := by
  have hw := p.gap_pos
  have hlt : a * b < 2 ^ (p.gap * (2 * p.degree)) := by
    rw [Nat.mul_left_comm, Nat.two_mul, Nat.pow_add]
    exact Nat.mul_lt_mul'' (ha.lt hw) (hb.lt hw)
  have hprod : p.poly (a * b &&& mask p.gap (2 * p.degree)) = p.poly a * p.poly b := by
    rw [poly, toPoly_and_mask hw hlt]
    exact toPoly_mul hw ha.flat hb.flat (hb.lt hw) p.degree_lt
  have hsum := dvd_add (dvd_reduce (p := p) (a * b &&& mask p.gap (2 * p.degree)))
    (dvd_reduce (p := p) (p.reduce (a * b &&& mask p.gap (2 * p.degree))))
  rw [add_assoc, ← add_assoc (p.poly (p.reduce _)), CharTwo.add_self_eq_zero, zero_add,
    hprod] at hsum
  exact hsum

/-! ## Irreducibility -/

variable (p) in
def squares : Nat → Nat → Nat
  | 0, r => r
  | n + 1, r => squares n (p.mul r r)

/-- `n` squarings raise to the power `2 ^ n`. -/
theorem dvd_squares {n r : Nat} (hr : p.Reduced r) :
    p.modulus ∣ p.poly r ^ 2 ^ n + p.poly (p.squares n r) := by
  induction n generalizing r with
  | zero =>
    rw [Nat.pow_zero, pow_one, squares, CharTwo.add_self_eq_zero]
    exact dvd_zero _
  | succ n ih =>
    have hstep : p.modulus ∣ p.poly r ^ 2 + p.poly (p.mul r r) := by
      rw [pow_two]
      exact dvd_mul hr hr
    -- a sum raised to a power of two is the sum of the powers
    have hpow : p.modulus ∣ (p.poly r ^ 2) ^ 2 ^ n + p.poly (p.mul r r) ^ 2 ^ n := by
      rw [← add_pow_char_pow]
      exact dvd_pow hstep (Nat.two_pow_pos n).ne'
    have hsum := dvd_add hpow (ih (reduced_mul r r))
    rwa [add_assoc, ← add_assoc (p.poly (p.mul r r) ^ 2 ^ n), CharTwo.add_self_eq_zero, zero_add,
      ← pow_mul, ← Nat.pow_succ'] at hsum

theorem poly_two_pow_gap : p.poly (2 ^ p.gap) = X := by
  have h := toPoly_two_pow p.gap_pos 1
  rwa [Nat.mul_one, pow_one] at h

theorem reduced_two_pow_gap (h : 1 < p.degree) : p.Reduced (2 ^ p.gap) := by
  intro i hi
  rw [Nat.testBit_two_pow, decide_eq_true_iff] at hi
  exact ⟨1, h, (Nat.mul_one _).trans hi⟩

/-- What is checked: as many squarings as the degree take `X` back to itself, and neither `0` nor
`1` is a root. -/
theorem irreducible (hprime : p.degree.Prime)
    (hsquares : p.squares p.degree (2 ^ p.gap) = 2 ^ p.gap)
    (hzero : p.modulus.eval 0 ≠ 0) (hone : p.modulus.eval 1 ≠ 0) : Irreducible p.modulus := by
  have : Fact p.degree.Prime := ⟨hprime⟩
  have hall := dvd_squares (p := p) (n := p.degree) (reduced_two_pow_gap hprime.one_lt)
  rw [hsquares, poly_two_pow_gap, ← CharTwo.sub_eq_add] at hall
  have hcoprime (c : ZMod 2) (hc : p.modulus.eval c ≠ 0) : IsCoprime p.modulus (X - C c) :=
    ((irreducible_X_sub_C c).coprime_iff_not_dvd.mpr fun h ↦ hc (dvd_iff_isRoot.mp h)).symm
  refine irreducible_of_frobenius (q := p.degree) (k := 0) ?_ ?_ ?_
  · rw [pow_one]
    exact natDegree_modulus terms_lt_degree
  · rwa [pow_one]
  · have hsplit : (X : (ZMod 2)[X]) ^ 2 ^ p.degree ^ 0 - X = (X - C 0) * (X - C 1) := by
      rw [pow_zero, pow_one, C_0, C_1]
      ring
    rw [hsplit]
    exact (hcoprime 0 hzero).mul_right (hcoprime 1 hone)

end Spacing

end SpacedPoly
