import UaCrypt.Lib.FinIndex

/-!
# Numbers as arrays of machine words

The number a little-endian array of 64-bit words spells, and how it changes when one word
does. Loops over the indices of such an array are `Fin.foldl`s.

- `low`, `value`: the number of the first `k` words, and of all of them.
- `value_set`: replacing one word.
- `value_lt`, `value_injective`: bounds and uniqueness.
- `foldl_invariant`, `foldr_invariant`: what a loop over all indices keeps; `foldr_bits`: one
  over the bits of a word.
-/

namespace Limbs

/-- A property of the loop state and the number of turns made, kept by every turn. -/
theorem foldl_invariant {σ : Type} {n : Nat} {f : σ → Fin n → σ} {a : σ}
    (P : Nat → σ → Prop) (hinit : P 0 a)
    (hstep : ∀ (i : Fin n) s, P i s → P (i + 1) (f s i)) : P n (Fin.foldl n f a) := by
  induction n generalizing a with
  | zero =>
    rw [Fin.foldl_zero]
    exact hinit
  | succ n ih =>
    rw [Fin.foldl_succ_last]
    have hfront := ih (f := fun s i => f s i.castSucc) hinit
      (fun i s hs => hstep i.castSucc s hs)
    exact hstep (Fin.last n) _ hfront

/-- The same for a loop that counts down: `P k` holds once the indices from `k` on are done. -/
theorem foldr_invariant {σ : Type} {n : Nat} {f : Fin n → σ → σ} {a : σ}
    (P : Nat → σ → Prop) (hinit : P n a)
    (hstep : ∀ (i : Fin n) s, P (i + 1) s → P i (f i s)) : P 0 (Fin.foldr n f a) := by
  induction n generalizing a with
  | zero =>
    rw [Fin.foldr_zero]
    exact hinit
  | succ n ih =>
    rw [Fin.foldr_succ_last]
    exact ih (f := fun i s => f i.castSucc s) (hstep (Fin.last n) a hinit)
      (fun i s hs => hstep i.castSucc s hs)

/-- Two loops that count down stay related. -/
theorem foldr_rel {σ τ : Type} {n : Nat} {body : Fin n → σ → σ} {body' : Fin n → τ → τ}
    (R : σ → τ → Prop) (hstep : ∀ i s t, R s t → R (body i s) (body' i t)) {init : σ} {init' : τ}
    (hinit : R init init') : R (Fin.foldr n body init) (Fin.foldr n body' init') := by
  induction n generalizing init init' with
  | zero =>
    rw [Fin.foldr_zero, Fin.foldr_zero]
    exact hinit
  | succ n ih =>
    rw [Fin.foldr_succ_last, Fin.foldr_succ_last]
    exact ih (fun i s t hst => hstep i.castSucc s t hst) (hstep (Fin.last n) init init' hinit)

/-- The bits from `bit` on, one more of them. -/
theorem div_pow_bit (x bit : Nat) : x / 2 ^ bit = 2 * (x / 2 ^ (bit + 1)) + x / 2 ^ bit % 2 := by
  rw [Nat.pow_succ, ← Nat.div_div_eq_div_mul]
  omega

/-- A loop over the bits of a word from the top down: with each one the number read so far is
doubled and the bit added. -/
theorem foldr_bits {σ : Type} {width x : Nat} (hx : x < 2 ^ width) {body : Fin width → σ → σ}
    (P : Nat → σ → Prop)
    (hstep : ∀ (i : Fin width) k s, P k s → P (2 * k + x / 2 ^ i.val % 2) (body i s))
    {k : Nat} {init : σ} (hinit : P k init) : P (k * 2 ^ width + x) (Fin.foldr width body init) := by
  have hloop := foldr_invariant (f := body) (a := init)
    (fun i s => P (k * 2 ^ (width - i) + x / 2 ^ i) s) (by
      rw [Nat.sub_self, Nat.pow_zero, Nat.mul_one, Nat.div_eq_of_lt hx]
      exact hinit) (by
      intro i s hs
      have hplaces : width - i.val = width - (i.val + 1) + 1 := by omega
      have hread : k * 2 ^ (width - i.val) + x / 2 ^ i.val
          = 2 * (k * 2 ^ (width - (i.val + 1)) + x / 2 ^ (i.val + 1)) + x / 2 ^ i.val % 2 := by
        have hsplit := div_pow_bit x i.val
        rw [hplaces, Nat.pow_succ]
        linarith only [hsplit]
      rw [hread]
      exact hstep i _ s hs)
  rwa [Nat.sub_zero, Nat.pow_zero, Nat.div_one] at hloop

variable {n : Nat}

/-- Word `j`, zero beyond the end. -/
def limb (x : Vector UInt64 n) (j : Nat) : Nat := if h : j < n then x[j].toNat else 0

/-- The number the first `k` words spell. -/
def low (x : Vector UInt64 n) (k : Nat) : Nat := ∑ j ∈ Finset.range k, limb x j * 2 ^ (64 * j)

/-- The number an array spells. -/
def value (x : Vector UInt64 n) : Nat := low x n

theorem word_pow_succ (k : Nat) : 2 ^ (64 * (k + 1)) = 2 ^ 64 * 2 ^ (64 * k) := by
  rw [← Nat.pow_add]
  congr 1
  omega

theorem limb_of_lt (x : Vector UInt64 n) {j : Nat} (h : j < n) : limb x j = x[j].toNat := dif_pos h

theorem limb_lt (x : Vector UInt64 n) (j : Nat) : limb x j < 2 ^ 64 := by
  rw [limb]
  split
  · exact UInt64.toNat_lt _
  · exact Nat.two_pow_pos 64

@[simp] theorem low_zero (x : Vector UInt64 n) : low x 0 = 0 := rfl

theorem low_succ (x : Vector UInt64 n) (k : Nat) :
    low x (k + 1) = low x k + limb x k * 2 ^ (64 * k) := Finset.sum_range_succ _ k

theorem low_lt (x : Vector UInt64 n) (k : Nat) : low x k < 2 ^ (64 * k) := by
  induction k with
  | zero => exact Nat.one_pos
  | succ k ih =>
    have hlimb : (limb x k + 1) * 2 ^ (64 * k) ≤ 2 ^ 64 * 2 ^ (64 * k) :=
      Nat.mul_le_mul_right _ (limb_lt x k)
    rw [low_succ, Nat.mul_succ, Nat.pow_add, Nat.mul_comm (2 ^ (64 * k)) (2 ^ 64)]
    rw [Nat.succ_mul] at hlimb
    omega

theorem value_lt (x : Vector UInt64 n) : value x < 2 ^ (64 * n) := low_lt x n

theorem low_of_le (x : Vector UInt64 n) {k : Nat} (h : n ≤ k) : low x k = value x := by
  refine (Finset.sum_subset (Finset.range_subset_range.mpr h) ?_).symm
  intro j _ hj
  rw [limb, dif_neg (by simpa using hj), Nat.zero_mul]

theorem limb_set (x : Vector UInt64 n) {i : Nat} (hi : i < n) (w : UInt64) (j : Nat) :
    limb (x.set i w) j = if j = i then w.toNat else limb x j := by
  by_cases hj : j = i
  · subst hj
    simp [limb, hi]
  · rw [if_neg hj, limb, limb]
    split
    · rw [Vector.getElem_set_ne _ _ (Ne.symm hj)]
    · rfl

/-- The words before a changed one. -/
theorem low_set_of_le (x : Vector UInt64 n) {i k : Nat} (hi : i < n) (w : UInt64) (h : k ≤ i) :
    low (x.set i w) k = low x k := by
  refine Finset.sum_congr rfl ?_
  intro j hj
  rw [limb_set x hi, if_neg (by have := Finset.mem_range.mp hj; omega)]

theorem low_set_of_lt (x : Vector UInt64 n) {i k : Nat} (hi : i < n) (w : UInt64) (h : i < k) :
    low (x.set i w) k + limb x i * 2 ^ (64 * i) = low x k + w.toNat * 2 ^ (64 * i) := by
  induction k with
  | zero => exact absurd h (Nat.not_lt_zero i)
  | succ k ih =>
    rw [low_succ, low_succ, limb_set x hi]
    by_cases hk : k = i
    · subst hk
      rw [if_pos rfl, low_set_of_le x hi w (Nat.le_refl k)]
      omega
    · have hprev := ih (by omega)
      rw [if_neg hk]
      omega

/-- Replacing a word. -/
theorem value_set (x : Vector UInt64 n) {i : Nat} (hi : i < n) (w : UInt64) :
    value (x.set i w) + limb x i * 2 ^ (64 * i) = value x + w.toNat * 2 ^ (64 * i) :=
  low_set_of_lt x hi w hi

theorem low_set_self (x : Vector UInt64 n) {k : Nat} (hk : k < n) (w : UInt64) :
    low (x.set k w) (k + 1) = low x k + w.toNat * 2 ^ (64 * k) := by
  rw [low_succ, low_set_of_le x hk w (Nat.le_refl k), limb_set x hk, if_pos rfl]

@[simp] theorem limb_zero (j : Nat) : limb (Vector.replicate n 0) j = 0 := by
  rw [limb]
  split
  · rw [Vector.getElem_replicate]
    rfl
  · rfl

@[simp] theorem value_zero : value (Vector.replicate n 0) = 0 := by
  rw [value, low]
  refine Finset.sum_eq_zero ?_
  intro j _
  rw [limb_zero, Nat.zero_mul]

/-- Word `j` of the number. -/
theorem limb_eq (x : Vector UInt64 n) (j : Nat) : limb x j = value x / 2 ^ (64 * j) % 2 ^ 64 := by
  have hsplit (k : Nat) (hk : j < k) : low x k / 2 ^ (64 * j) % 2 ^ 64 = limb x j := by
    induction k, hk using Nat.le_induction with
    | base =>
      rw [low_succ, Nat.add_mul_div_right _ _ (Nat.two_pow_pos _), Nat.div_eq_of_lt (low_lt x j),
        Nat.zero_add, Nat.mod_eq_of_lt (limb_lt x j)]
    | succ k hk ih =>
      have hpow : 2 ^ (64 * k) = 2 ^ 64 * 2 ^ (64 * (k - j - 1)) * 2 ^ (64 * j) := by
        rw [← Nat.pow_add, ← Nat.pow_add]
        congr 1
        omega
      rw [low_succ, hpow, ← Nat.mul_assoc, Nat.add_mul_div_right _ _ (Nat.two_pow_pos _),
        ← Nat.mul_assoc, Nat.mul_comm (limb x k), Nat.mul_assoc, Nat.add_mul_mod_self_left, ih]
  by_cases hj : j < n
  · exact (hsplit n hj).symm
  · have hlt : value x < 2 ^ (64 * j) :=
      Nat.lt_of_lt_of_le (value_lt x) (Nat.pow_le_pow_right (by decide) (by omega))
    rw [limb, dif_neg hj, Nat.div_eq_of_lt hlt, Nat.zero_mod]

theorem value_injective {x y : Vector UInt64 n} (h : value x = value y) : x = y := by
  apply Vector.ext
  intro i hi
  apply UInt64.toNat_inj.mp
  rw [← limb_of_lt x hi, ← limb_of_lt y hi, limb_eq, limb_eq, h]

end Limbs
