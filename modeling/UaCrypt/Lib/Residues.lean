import Mathlib

/-!
# Residues the kernel computes with

Numbers modulo `p` as natural numbers, with operations that reduce. Nothing is assumed of `p`; a
residue means something in every ring where `p` is zero.

- `Residue.cast`: that meaning; `cast_add`, `cast_sub`, `cast_mul`.
- `fromTop`: a loop over the bits of a number from the top, its state evaluated at every turn.
- `powMod`: exponentiation by that loop.
-/

namespace Residues

/-- A number, to be read modulo `p`. -/
structure Residue (p : Nat) where
  val : Nat
deriving DecidableEq, Repr

namespace Residue

variable {p : Nat}

instance : Add (Residue p) := ⟨fun x y => ⟨(x.val + y.val) % p⟩⟩

instance : Mul (Residue p) := ⟨fun x y => ⟨x.val * y.val % p⟩⟩

/-- `p - 1` stands for `-1`. -/
instance : Sub (Residue p) := ⟨fun x y => ⟨(x.val + (p - 1) * y.val) % p⟩⟩

/-- What a residue means in a ring. -/
def cast {p : Nat} (R : Type*) [CommRing R] (x : Residue p) : R := (x.val : R)

section

variable {R : Type*} [CommRing R]

theorem natCast_mod (hp : (p : R) = 0) (k : Nat) : ((k % p : Nat) : R) = k := by
  have hsplit := congrArg (Nat.cast (R := R)) (Nat.mod_add_div k p)
  rw [Nat.cast_add, Nat.cast_mul, hp, zero_mul, add_zero] at hsplit
  exact hsplit

theorem cast_add (hp : (p : R) = 0) (x y : Residue p) :
    (x + y).cast R = x.cast R + y.cast R := by
  have h : (x + y).val = (x.val + y.val) % p := rfl
  rw [cast, h, natCast_mod hp, Nat.cast_add]
  rfl

theorem cast_mul (hp : (p : R) = 0) (x y : Residue p) :
    (x * y).cast R = x.cast R * y.cast R := by
  have h : (x * y).val = x.val * y.val % p := rfl
  rw [cast, h, natCast_mod hp, Nat.cast_mul]
  rfl

theorem cast_sub (hpos : 0 < p) (hp : (p : R) = 0) (x y : Residue p) :
    (x - y).cast R = x.cast R - y.cast R := by
  have h : (x - y).val = (x.val + (p - 1) * y.val) % p := rfl
  rw [cast, h, natCast_mod hp, Nat.cast_add, Nat.cast_mul, Nat.cast_sub hpos, hp, Nat.cast_one,
    zero_sub, neg_one_mul, ← sub_eq_add_neg]
  rfl

/-- A residue prime to `p` is nowhere zero. -/
theorem cast_ne_zero [Nontrivial R] (hp : (p : R) = 0) {k : Nat} (h : Nat.gcd k p = 1) :
    (k : R) ≠ 0 := by
  intro hzero
  have hbezout := congrArg (Int.cast (R := R)) (Nat.gcd_eq_gcd_ab k p)
  rw [h] at hbezout
  push_cast at hbezout
  rw [hzero, hp, zero_mul, zero_mul, add_zero] at hbezout
  exact one_ne_zero hbezout

end

end Residue

/-! ## Loops -/

/-- `k n`, with `n` evaluated first. -/
def strictly {α : Type*} (n : Nat) (k : Nat → α) : α :=
  match n with
  | 0 => k 0
  | m + 1 => k (m + 1)

theorem strictly_eq {α : Type*} (n : Nat) (k : Nat → α) : strictly n k = k n := by
  cases n <;> rfl

/-- The bits `count - 1` to `0` of `n`; `force s k` is `k s` for a state made of numbers. -/
def fromTop {σ : Type*} (n : Nat) (force : σ → (σ → σ) → σ) (step : σ → Bool → σ) :
    Nat → σ → σ
  | 0, s => s
  | count + 1, s => force (step s (n.testBit count)) (fromTop n force step count)

/-- What the loop keeps: `P k` once the bits that spell `k` are read. -/
theorem fromTop_invariant {σ : Type*} {n : Nat} {force : σ → (σ → σ) → σ} {step : σ → Bool → σ}
    (hforce : ∀ s k, force s k = k s) (P : Nat → σ → Prop)
    (hstep : ∀ k s bit, P k s → P (2 * k + bit.toNat) (step s bit)) {count : Nat} {s : σ}
    (h : P (n / 2 ^ count) s) : P n (fromTop n force step count s) := by
  induction count generalizing s with
  | zero =>
    rw [Nat.pow_zero, Nat.div_one] at h
    exact h
  | succ count ih =>
    rw [fromTop, hforce]
    apply ih
    have hread : n / 2 ^ count = 2 * (n / 2 ^ (count + 1)) + (n.testBit count).toNat := by
      rw [Nat.testBit_eq_decide_div_mod_eq, Nat.pow_succ, ← Nat.div_div_eq_div_mul]
      have hbit : n / 2 ^ count % 2 = 0 ∨ n / 2 ^ count % 2 = 1 := by omega
      obtain hbit | hbit := hbit <;> rw [hbit]
      · have hfalse : (decide (0 = 1)).toNat = 0 := rfl
        rw [hfalse]
        omega
      · have htrue : (decide (1 = 1)).toNat = 1 := rfl
        rw [htrue]
        omega
    rw [hread]
    exact hstep _ s _ h

/-- `x ^ n`, for `n` below `2 ^ count`. -/
def powMod {p : Nat} (x : Residue p) (n count : Nat) : Residue p :=
  fromTop n (fun s k => strictly s.val fun v => k ⟨v⟩)
    (fun s bit => if bit then s * s * x else s * s) count ⟨1⟩

theorem cast_powMod {p : Nat} {R : Type*} [CommRing R] (hp : (p : R) = 0) (x : Residue p)
    {n count : Nat} (h : n < 2 ^ count) : (powMod x n count).cast R = x.cast R ^ n := by
  refine fromTop_invariant (P := fun k (s : Residue p) => s.cast R = x.cast R ^ k) ?_ ?_ ?_
  · intro s k
    exact strictly_eq s.val _
  · intro k s bit hs
    cases bit with
    | false =>
      have hzero : 2 * k + false.toNat = k * 2 := by
        rw [Bool.toNat_false]
        omega
      rw [if_neg (by decide), Residue.cast_mul hp, hs, hzero, pow_mul, sq]
    | true =>
      have hone : 2 * k + true.toNat = k * 2 + 1 := by
        rw [Bool.toNat_true]
        omega
      rw [if_pos rfl, Residue.cast_mul hp, Residue.cast_mul hp, hs, hone, pow_succ, pow_mul, sq]
  · rw [Nat.div_eq_of_lt h, pow_zero]
    exact Nat.cast_one

end Residues
