import Mathlib

/-!
# Numbers and words as polynomials over GF(2)

Bit `i` of a number is the coefficient of `X ^ i`. Bitwise XOR is then addition and a left
shift multiplication by a power of `X`.

- `ofNat n`, `ofWord w`: a number, a 64-bit word; `mulLoop`: the carry-less product.
- `words w k`: the first `k` words of an array `w`, least significant first.
- `X_pow_mul_words`: a shift of the array, word by word with the bits carried over.
- `Below m p`: all coefficients from `m` on are zero.
- `RingLaws`: operations that make a commutative ring of characteristic two, and
  `ringLaws_of_injective`, which takes them from a ring the operations map into.
-/

namespace BinaryPoly

open Polynomial

/-- The coefficient a bit stands for. -/
def bitCoeff (b : Bool) : ZMod 2 := if b then 1 else 0

theorem bitCoeff_xor (a b : Bool) : bitCoeff (a ^^ b) = bitCoeff a + bitCoeff b := by
  cases a <;> cases b <;> decide

theorem bitCoeff_injective {a b : Bool} (h : bitCoeff a = bitCoeff b) : a = b := by
  revert h
  cases a <;> cases b <;> decide

/-- The polynomial with the bits of `n` as coefficients. -/
noncomputable def ofNat (n : Nat) : (ZMod 2)[X] :=
  ∑ i ∈ Finset.range n, C (bitCoeff (n.testBit i)) * X ^ i

theorem coeff_ofNat (n d : Nat) : (ofNat n).coeff d = bitCoeff (n.testBit d) := by
  rw [ofNat, finsetSum_coeff]
  simp only [coeff_C_mul_X_pow]
  rw [Finset.sum_ite_eq (Finset.range n) d]
  split
  · rfl
  · rename_i h
    rw [Finset.mem_range, not_lt] at h
    rw [Nat.testBit_lt_two_pow (Nat.lt_of_le_of_lt h Nat.lt_two_pow_self)]
    rfl

@[simp] theorem ofNat_zero : ofNat 0 = 0 := rfl

theorem ofNat_two_pow (k : Nat) : ofNat (2 ^ k) = X ^ k := by
  ext d
  rw [coeff_ofNat, Nat.testBit_two_pow, coeff_X_pow]
  by_cases h : k = d
  · simp [h, bitCoeff]
  · simp [h, Ne.symm h, bitCoeff]

theorem ofNat_one : ofNat 1 = 1 := by
  rw [← Nat.pow_zero 2, ofNat_two_pow, pow_zero]

theorem ofNat_xor (a b : Nat) : ofNat (a ^^^ b) = ofNat a + ofNat b := by
  ext d
  rw [coeff_add, coeff_ofNat, coeff_ofNat, coeff_ofNat, Nat.testBit_xor, bitCoeff_xor]

/-- Numbers without a common bit. -/
theorem ofNat_or {a b : Nat} (h : ∀ i, ¬(a.testBit i ∧ b.testBit i)) :
    ofNat (a ||| b) = ofNat a + ofNat b := by
  have hxor : a ||| b = a ^^^ b := by
    refine Nat.eq_of_testBit_eq fun i => ?_
    rw [Nat.testBit_or, Nat.testBit_xor]
    have hi := h i
    revert hi
    cases a.testBit i <;> cases b.testBit i <;> decide
  rw [hxor, ofNat_xor]

theorem ofNat_shiftLeft (n k : Nat) : ofNat (n <<< k) = X ^ k * ofNat n := by
  ext d
  rw [coeff_ofNat, coeff_X_pow_mul', coeff_ofNat, Nat.testBit_shiftLeft]
  by_cases h : k ≤ d
  · rw [if_pos h, decide_eq_true h, Bool.true_and]
  · rw [if_neg h, decide_eq_false h, Bool.false_and]
    rfl

/-- A number cut at bit `k`. -/
theorem ofNat_eq_mod_add_shiftRight (n k : Nat) :
    ofNat n = ofNat (n % 2 ^ k) + X ^ k * ofNat (n >>> k) := by
  ext d
  rw [coeff_add, coeff_X_pow_mul', coeff_ofNat, coeff_ofNat, coeff_ofNat,
    Nat.testBit_mod_two_pow, Nat.testBit_shiftRight]
  by_cases h : k ≤ d
  · rw [if_pos h, decide_eq_false (Nat.not_lt_of_le h), Nat.add_sub_cancel' h, Bool.false_and]
    exact (zero_add _).symm
  · rw [if_neg h, decide_eq_true (Nat.lt_of_not_le h), Bool.true_and, add_zero]

/-- The low bit and the rest. -/
theorem ofNat_eq_low_bit (n : Nat) :
    ofNat n = C (bitCoeff (n.testBit 0)) + X * ofNat (n >>> 1) := by
  have hlow : ofNat (n % 2 ^ 1) = C (bitCoeff (n.testBit 0)) := by
    have hbit : n % 2 ^ 1 = (n.testBit 0).toNat := by
      rw [Nat.toNat_testBit, Nat.pow_zero, Nat.div_one, Nat.pow_one]
    rw [hbit]
    cases n.testBit 0
    · exact C_0.symm
    · exact ofNat_one
  rw [ofNat_eq_mod_add_shiftRight n 1, hlow, pow_one]

/-- Any bound on the bits does. -/
theorem ofNat_eq_sum {n m : Nat} (h : n < 2 ^ m) :
    ofNat n = ∑ i ∈ Finset.range m, C (bitCoeff (n.testBit i)) * X ^ i := by
  ext d
  rw [coeff_ofNat, finsetSum_coeff]
  simp only [coeff_C_mul_X_pow]
  rw [Finset.sum_ite_eq (Finset.range m) d]
  split
  · rfl
  · rename_i hd
    rw [Finset.mem_range, not_lt] at hd
    rw [Nat.testBit_lt_two_pow (Nat.lt_of_lt_of_le h (Nat.pow_le_pow_right (by decide) hd))]
    rfl

/-- The carry-less product, one shifted row for each bit of `b` below `m`. -/
def mulLoop (m a b : Nat) : Nat :=
  (List.range m).foldl (fun acc i => if b.testBit i then acc ^^^ (a <<< i) else acc) 0

theorem mulLoop_succ (m a b : Nat) :
    mulLoop (m + 1) a b
      = if b.testBit m then mulLoop m a b ^^^ (a <<< m) else mulLoop m a b := by
  rw [mulLoop, List.range_succ, List.foldl_append, List.foldl_cons, List.foldl_nil]
  rfl

/-- The loop multiplies polynomials. -/
theorem ofNat_mulLoop {m a b : Nat} (hb : b < 2 ^ m) :
    ofNat (mulLoop m a b) = ofNat a * ofNat b := by
  have hrun (k : Nat) : ofNat (mulLoop k a b)
      = ofNat a * ∑ i ∈ Finset.range k, C (bitCoeff (b.testBit i)) * X ^ i := by
    induction k with
    | zero => rw [Finset.sum_range_zero, mul_zero]; rfl
    | succ k ih =>
      rw [mulLoop_succ, Finset.sum_range_succ, mul_add, ← ih]
      cases b.testBit k
      · rw [if_neg Bool.false_ne_true, bitCoeff, if_neg Bool.false_ne_true, C_0, zero_mul, mul_zero,
          add_zero]
      · rw [if_pos rfl, ofNat_xor, ofNat_shiftLeft, bitCoeff, if_pos rfl, C_1, one_mul,
          mul_comm (X ^ k)]
  rw [hrun m, ← ofNat_eq_sum hb]

theorem mulLoop_lt {m n a b : Nat} (ha : a < 2 ^ n) : mulLoop m a b < 2 ^ (n + m) := by
  induction m with
  | zero => exact Nat.two_pow_pos _
  | succ m ih =>
    have hwide : 2 ^ (n + m) ≤ 2 ^ (n + (m + 1)) := Nat.pow_le_pow_right (by decide) (by omega)
    have hrow : a <<< m < 2 ^ (n + (m + 1)) := by
      rw [Nat.shiftLeft_eq]
      calc a * 2 ^ m < 2 ^ n * 2 ^ m := Nat.mul_lt_mul_of_pos_right ha (Nat.two_pow_pos m)
        _ = 2 ^ (n + m) := (Nat.pow_add 2 n m).symm
        _ ≤ 2 ^ (n + (m + 1)) := hwide
    rw [mulLoop_succ]
    split
    · exact Nat.xor_lt_two_pow (Nat.lt_of_lt_of_le ih hwide) hrow
    · exact Nat.lt_of_lt_of_le ih hwide

theorem ofNat_injective {a b : Nat} (h : ofNat a = ofNat b) : a = b := by
  refine Nat.eq_of_testBit_eq fun i => bitCoeff_injective ?_
  rw [← coeff_ofNat, ← coeff_ofNat, h]

/-! ## Degrees -/

/-- All coefficients from `m` on are zero. -/
def Below (m : Nat) (p : (ZMod 2)[X]) : Prop := ∀ i, m ≤ i → p.coeff i = 0

theorem below_iff {m : Nat} {p : (ZMod 2)[X]} : Below m p ↔ p.degree < m :=
  (degree_lt_iff_coeff_zero p m).symm

theorem Below.mono {m n : Nat} {p : (ZMod 2)[X]} (h : Below m p) (hmn : m ≤ n) : Below n p :=
  fun i hi => h i (Nat.le_trans hmn hi)

theorem Below.add {m : Nat} {p q : (ZMod 2)[X]} (hp : Below m p) (hq : Below m q) :
    Below m (p + q) := by
  intro i hi
  rw [coeff_add, hp i hi, hq i hi, add_zero]

theorem Below.X_pow_mul {m : Nat} {p : (ZMod 2)[X]} (h : Below m p) (k : Nat) :
    Below (m + k) (X ^ k * p) := by
  intro i hi
  rw [coeff_X_pow_mul', if_pos (by omega)]
  exact h _ (by omega)

theorem below_zero (m : Nat) : Below m 0 := fun i _ => coeff_zero i

theorem below_ofNat {m n : Nat} (h : n < 2 ^ m) : Below m (ofNat n) := by
  intro i hi
  have hlt : n < 2 ^ i := Nat.lt_of_lt_of_le h (Nat.pow_le_pow_right (by decide) hi)
  rw [coeff_ofNat, Nat.testBit_lt_two_pow hlt]
  rfl

/-- What `X ^ m` multiplies is zero if the product stays below `m`. -/
theorem Below.eq_zero_of_X_pow_mul {m : Nat} {p : (ZMod 2)[X]} (h : Below m (X ^ m * p)) :
    p = 0 := by
  ext d
  have hd := h (d + m) (Nat.le_add_left m d)
  rwa [coeff_X_pow_mul] at hd

/-! ## Words -/

noncomputable def ofWord (w : UInt64) : (ZMod 2)[X] := ofNat w.toNat

@[simp] theorem ofWord_zero : ofWord 0 = 0 := rfl

theorem ofWord_xor (a b : UInt64) : ofWord (a ^^^ b) = ofWord a + ofWord b := by
  rw [ofWord, UInt64.toNat_xor, ofNat_xor]
  rfl

theorem below_ofWord (w : UInt64) : Below 64 (ofWord w) := below_ofNat w.toNat_lt

theorem ofWord_injective {a b : UInt64} (h : ofWord a = ofWord b) : a = b :=
  UInt64.toNat_inj.mp (ofNat_injective h)

theorem toNat_shiftLeft_ofNat (w : UInt64) {k : Nat} (hk : k < 64) :
    (w <<< UInt64.ofNat k).toNat = w.toNat <<< k % 2 ^ 64 := by
  rw [UInt64.toNat_shiftLeft, UInt64.toNat_ofNat', Nat.mod_eq_of_lt (by omega : k < 2 ^ 64),
    Nat.mod_eq_of_lt hk]

theorem toNat_shiftRight_ofNat (w : UInt64) {k : Nat} (hk : k < 64) :
    (w >>> UInt64.ofNat k).toNat = w.toNat >>> k := by
  rw [UInt64.toNat_shiftRight, UInt64.toNat_ofNat', Nat.mod_eq_of_lt (by omega : k < 2 ^ 64),
    Nat.mod_eq_of_lt hk]

/-- A shifted word and the bits it pushes out at the top. -/
theorem X_pow_mul_ofWord (w : UInt64) {k : Nat} (hpos : 0 < k) (hk : k < 64) :
    X ^ k * ofWord w
      = ofWord (w <<< UInt64.ofNat k) + X ^ 64 * ofWord (w >>> UInt64.ofNat (64 - k)) := by
  have hsplit := ofNat_eq_mod_add_shiftRight (w.toNat <<< k) 64
  have hout : w.toNat <<< k >>> 64 = w.toNat >>> (64 - k) := by
    refine Nat.eq_of_testBit_eq fun i => ?_
    rw [Nat.testBit_shiftRight, Nat.testBit_shiftLeft, Nat.testBit_shiftRight,
      decide_eq_true (by omega), Bool.true_and]
    congr 1
    omega
  rw [ofNat_shiftLeft, hout] at hsplit
  rw [ofWord, ofWord, ofWord, toNat_shiftLeft_ofNat w hk,
    toNat_shiftRight_ofNat w (by omega : 64 - k < 64)]
  exact hsplit

/-- The bits carried into a shifted word fill the place the shift made. -/
theorem ofWord_shiftLeft_or (w v : UInt64) {k : Nat} (hpos : 0 < k) (hk : k < 64) :
    ofWord ((w <<< UInt64.ofNat k) ||| (v >>> UInt64.ofNat (64 - k)))
      = ofWord (w <<< UInt64.ofNat k) + ofWord (v >>> UInt64.ofNat (64 - k)) := by
  rw [ofWord, UInt64.toNat_or]
  refine ofNat_or fun i hboth => ?_
  rw [toNat_shiftLeft_ofNat w hk, toNat_shiftRight_ofNat v (by omega), Nat.testBit_mod_two_pow,
    Nat.testBit_shiftLeft, Nat.testBit_shiftRight, Bool.and_eq_true, Bool.and_eq_true,
    decide_eq_true_iff, decide_eq_true_iff] at hboth
  -- the low `k` bits of the one are zero, the other has no more than these
  have hlt : v.toNat < 2 ^ (64 - k + i) :=
    Nat.lt_of_lt_of_le v.toNat_lt (Nat.pow_le_pow_right (by decide) (by omega))
  rw [Nat.testBit_lt_two_pow hlt] at hboth
  exact Bool.noConfusion hboth.2

/-! ## Arrays of words -/

/-- The first `k` words of an array, the first least significant. -/
noncomputable def words (w : Nat → UInt64) (k : Nat) : (ZMod 2)[X] :=
  ∑ i ∈ Finset.range k, X ^ (64 * i) * ofWord (w i)

@[simp] theorem words_zero (w : Nat → UInt64) : words w 0 = 0 := rfl

theorem words_succ (w : Nat → UInt64) (k : Nat) :
    words w (k + 1) = words w k + X ^ (64 * k) * ofWord (w k) :=
  Finset.sum_range_succ _ k

theorem words_congr {w v : Nat → UInt64} {k : Nat} (h : ∀ i, i < k → w i = v i) :
    words w k = words v k :=
  Finset.sum_congr rfl fun i hi => by rw [h i (Finset.mem_range.mp hi)]

/-- The first word and the rest. -/
theorem words_succ_first (w : Nat → UInt64) (k : Nat) :
    words w (k + 1) = ofWord (w 0) + X ^ 64 * words (fun i => w (i + 1)) k := by
  have hrest : ∑ i ∈ Finset.range k, (X : (ZMod 2)[X]) ^ (64 * (i + 1)) * ofWord (w (i + 1))
      = X ^ 64 * words (fun i => w (i + 1)) k := by
    rw [words, Finset.mul_sum]
    refine Finset.sum_congr rfl fun i _ => ?_
    rw [← mul_assoc, ← pow_add, Nat.mul_add, Nat.add_comm]
  rw [words, Finset.sum_range_succ', hrest, Nat.mul_zero, pow_zero, one_mul, add_comm]

/-- Zero words on top do not count. -/
theorem words_of_zero_above {w : Nat → UInt64} {k n : Nat} (hkn : k ≤ n)
    (h : ∀ i, k ≤ i → i < n → w i = 0) : words w n = words w k := by
  induction n, hkn using Nat.le_induction with
  | base => rfl
  | succ n hkn ih =>
    rw [words_succ, h n hkn (Nat.lt_succ_self n), ofWord_zero, mul_zero, add_zero]
    exact ih fun i hi hin => h i hi (Nat.lt_succ_of_lt hin)

theorem words_xor (w v : Nat → UInt64) (k : Nat) :
    words (fun i => w i ^^^ v i) k = words w k + words v k := by
  rw [words, words, words, ← Finset.sum_add_distrib]
  refine Finset.sum_congr rfl fun i _ => ?_
  rw [ofWord_xor, mul_add]

theorem below_words (w : Nat → UInt64) (k : Nat) : Below (64 * k) (words w k) := by
  induction k with
  | zero => exact below_zero _
  | succ k ih =>
    rw [words_succ]
    refine (ih.mono (by omega)).add ?_
    exact ((below_ofWord (w k)).X_pow_mul (64 * k)).mono (by omega)

/-- XOR into one word. -/
theorem words_update (w : Nat → UInt64) {i k : Nat} (hi : i < k) (t : UInt64) :
    words (Function.update w i (w i ^^^ t)) k = words w k + X ^ (64 * i) * ofWord t := by
  have hupdate : Function.update w i (w i ^^^ t) = fun j => w j ^^^ if j = i then t else 0 := by
    funext j
    by_cases hj : j = i
    · subst hj
      rw [Function.update_self, if_pos rfl]
    · rw [Function.update_of_ne hj, if_neg hj, UInt64.xor_zero]
  rw [hupdate, words_xor, words, words]
  congr 1
  rw [Finset.sum_eq_single i]
  · rw [if_pos rfl]
  · intro j _ hj
    rw [if_neg hj, ofWord_zero, mul_zero]
  · intro hmem
    exact absurd (Finset.mem_range.mpr hi) hmem

/-- The word a shift by `k` leaves at `i`: its own bits, and those out of the word below. -/
def shiftedWord (w : Nat → UInt64) (k i : Nat) : UInt64 :=
  (w i <<< UInt64.ofNat k) ||| (if i = 0 then 0 else w (i - 1) >>> UInt64.ofNat (64 - k))

/-- A shift of the whole array, and the bits it pushes out at the top. -/
theorem X_pow_mul_words (w : Nat → UInt64) {s : Nat} (hpos : 0 < s) (hs : s < 64) (k : Nat) :
    X ^ s * words w (k + 1)
      = words (shiftedWord w s) (k + 1)
        + X ^ (64 * (k + 1)) * ofWord (w k >>> UInt64.ofNat (64 - s)) := by
  induction k with
  | zero =>
    rw [words_succ, words_succ, words_zero, words_zero, shiftedWord, if_pos rfl, UInt64.or_zero]
    simp only [mul_zero, pow_zero, one_mul, zero_add, mul_one]
    exact X_pow_mul_ofWord (w 0) hpos hs
  | succ k ih =>
    have hword := X_pow_mul_ofWord (w (k + 1)) hpos hs
    have hpow : (X : (ZMod 2)[X]) ^ (64 * (k + 1 + 1)) = X ^ (64 * (k + 1)) * X ^ 64 := by
      rw [← pow_add]
      congr 1
    rw [words_succ w (k + 1), words_succ (shiftedWord w s) (k + 1), shiftedWord,
      if_neg (Nat.succ_ne_zero k), Nat.add_sub_cancel, ofWord_shiftLeft_or _ _ hpos hs, hpow]
    linear_combination ih + X ^ (64 * (k + 1)) * hword

/-- A shift that pushes nothing out. -/
theorem words_shiftedWord (w : Nat → UInt64) {s k : Nat} (hpos : 0 < s) (hs : s < 64)
    {m : Nat} (h : Below m (words w k)) (hm : m + s ≤ 64 * k) :
    words (shiftedWord w s) k = X ^ s * words w k := by
  cases k with
  | zero => omega
  | succ k =>
    have hshift := X_pow_mul_words w hpos hs k
    have hout : Below (64 * (k + 1))
        (X ^ (64 * (k + 1)) * ofWord (w k >>> UInt64.ofNat (64 - s))) := by
      have hsum := ((h.X_pow_mul s).mono hm).add (below_words (shiftedWord w s) (k + 1))
      rw [hshift, add_right_comm, CharTwo.add_self_eq_zero, zero_add] at hsum
      exact hsum
    rw [hout.eq_zero_of_X_pow_mul, mul_zero, add_zero] at hshift
    exact hshift.symm

/-- A word wholly above the degree is zero. -/
theorem eq_zero_of_below {w : Nat → UInt64} {m i k : Nat} (h : Below m (words w k))
    (hm : m ≤ 64 * i) (hi : i < k) : w i = 0 := by
  induction k with
  | zero => exact absurd hi (Nat.not_lt_zero i)
  | succ k ih =>
    have htop : m ≤ 64 * k := by omega
    -- the top word is all that could lie above `64 * k`
    have hword : ofWord (w k) = 0 := by
      refine Below.eq_zero_of_X_pow_mul (m := 64 * k) ?_
      have hsum := (h.mono htop).add (below_words w k)
      rwa [words_succ, add_right_comm, CharTwo.add_self_eq_zero, zero_add] at hsum
    rw [words_succ, hword, mul_zero, add_zero] at h
    rcases Nat.lt_succ_iff_lt_or_eq.mp hi with hlt | rfl
    · exact ih h hlt
    · exact ofWord_injective hword

/-- Arrays with the same polynomial have the same words. -/
theorem words_injective {w v : Nat → UInt64} {k : Nat} (h : words w k = words v k) {i : Nat}
    (hi : i < k) : w i = v i := by
  have hsum : words (fun i => w i ^^^ v i) k = 0 := by
    rw [words_xor, h, CharTwo.add_self_eq_zero]
  have hxor : w i ^^^ v i = 0 := by
    refine eq_zero_of_below (w := fun i => w i ^^^ v i) (m := 0) ?_ (Nat.zero_le _) hi
    rw [hsum]
    exact below_zero 0
  exact UInt64.xor_eq_zero_iff.mp hxor

/-! ## Rings of characteristic two -/

/-- `add` and `mul` make a commutative ring in which every element is its own negative. -/
structure RingLaws {α : Type} (add mul : α → α → α) (zero one : α) : Prop where
  add_assoc : ∀ a b d, add (add a b) d = add a (add b d)
  add_comm : ∀ a b, add a b = add b a
  add_zero : ∀ a, add a zero = a
  add_self : ∀ a, add a a = zero
  mul_assoc : ∀ a b d, mul (mul a b) d = mul a (mul b d)
  mul_comm : ∀ a b, mul a b = mul b a
  mul_one : ∀ a, mul a one = a
  mul_add : ∀ a b d, mul a (add b d) = add (mul a b) (mul a d)

theorem ringLaws_of_injective {α R : Type} [CommRing R] {add mul : α → α → α}
    {zero one : α} (φ : α → R) (hφ : ∀ {a b}, φ a = φ b → a = b)
    (hadd : ∀ a b, φ (add a b) = φ a + φ b) (hmul : ∀ a b, φ (mul a b) = φ a * φ b)
    (hzero : φ zero = 0) (hone : φ one = 1) (hself : ∀ a, φ a + φ a = 0) :
    RingLaws add mul zero one where
  add_assoc a b d := hφ (by simp only [hadd, add_assoc])
  add_comm a b := hφ (by rw [hadd, hadd, add_comm])
  add_zero a := hφ (by rw [hadd, hzero, add_zero])
  add_self a := hφ (by rw [hadd, hzero, hself])
  mul_assoc a b d := hφ (by simp only [hmul, mul_assoc])
  mul_comm a b := hφ (by rw [hmul, hmul, mul_comm])
  mul_one a := hφ (by rw [hmul, hone, mul_one])
  mul_add a b d := hφ (by simp only [hmul, hadd, mul_add])

end BinaryPoly
