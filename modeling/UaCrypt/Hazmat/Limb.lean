import UaCrypt.Lib.Limbs
import UaCrypt.Lib.LittleEndian

/-!
# Limb carries (`hazmat/limb.rs`)

Addition, subtraction and multiplication of 64-bit words with their carries, written without a
comparison, and the loops over `n` words that every scalar and field type repeats.

- `adc_spec`, `sbb_spec`, `mac_spec`: the three word operations.
- `value_addLimbs`, `value_subLimbs`, `value_mulLimbs`: the loops.
- `condSubIfGe`: the masked subtraction; `shl1Or`: one bit shifted in.
- `limbsFromBeBytes`, `limbsToBeBytes`: big-endian byte strings.
-/

namespace UaCrypt.Hazmat.Limb

open Limbs LittleEndian

/-- `a + b + carry_in` and the carry; `carry_in` is 0 or 1. -/
def adc (a b carryIn : UInt64) : UInt64 × UInt64 :=
  let s := a + b + carryIn
  (s, ((a &&& b) ||| ((a ||| b) &&& ~~~s)) >>> 63)

/-- `a - b - borrow_in` and the borrow; `borrow_in` is 0 or 1. -/
def sbb (a b borrowIn : UInt64) : UInt64 × UInt64 :=
  let d := a - b - borrowIn
  (d, ((~~~a &&& b) ||| ((~~~a ||| b) &&& d)) >>> 63)

/-- `u128::from(a) * u128::from(b)`: its low and its high word. -/
def wideProduct (a b : UInt64) : UInt64 × UInt64 :=
  (UInt64.ofNat (a.toNat * b.toNat), UInt64.ofNat (a.toNat * b.toNat / 2 ^ 64))

/-- `r + a * b + carry`: low and high word. -/
def mac (r a b carry : UInt64) : UInt64 × UInt64 :=
  let product := wideProduct a b
  let (lo, c1) := adc product.1 r 0
  let (lo, c2) := adc lo carry 0
  (lo, product.2 + c1 + c2)

/-! The loops over `n` limbs that the scalar and field types repeat at their widths. -/

section Loops

variable {n : Nat}

/-- `add3`, `add5`, `add_limbs`: the sum and the carry out. -/
def addLimbs (a b : Vector UInt64 n) : Vector UInt64 n × UInt64 :=
  Fin.foldl n (fun (out, carry) i =>
    let (s, c) := adc a[i] b[i] carry
    (out.set i s i.isLt, c)) (Vector.replicate n 0, 0)

/-- `sub3`, `sub5`: the difference and the borrow out. -/
def subLimbs (a b : Vector UInt64 n) : Vector UInt64 n × UInt64 :=
  Fin.foldl n (fun (out, borrow) i =>
    let (d, bw) := sbb a[i] b[i] borrow
    (out.set i d i.isLt, bw)) (Vector.replicate n 0, 0)

/-- `cond_sub_if_ge`: `a - b` if `a >= b`, else `a`, by a mask. -/
def condSubIfGe (a b : Vector UInt64 n) : Vector UInt64 n :=
  let (diff, borrow) := subLimbs a b
  let mask := borrow - 1
  Vector.ofFn fun i : Fin n => a[i] ^^^ (mask &&& (a[i] ^^^ diff[i]))

/-- One row of a schoolbook product: `a[i] * b` onto `out` from word `i` on. -/
def mulRow (a b : Vector UInt64 n) (out : Vector UInt64 (2 * n)) (i : Fin n) :
    Vector UInt64 (2 * n) × UInt64 :=
  Fin.foldl n (fun (out, carry) j =>
    let (lo, hi) := mac (out[i.val + j.val]) a[i] b[j] carry
    (out.set (i.val + j.val) lo (by omega), hi)) (out, 0)

/-- `mul3`, `mul5`: every row, its carry into the next word. -/
def mulLimbs (a b : Vector UInt64 n) : Vector UInt64 (2 * n) :=
  Fin.foldl n (fun out i =>
    let (out, carry) := mulRow a b out i
    out.set (i.val + n) carry (by omega)) (Vector.replicate (2 * n) 0)

/-- `shl1_or`: one place up, `bit` into the low bit. -/
def shl1Or (x : Vector UInt64 n) (bit : UInt64) : Vector UInt64 n :=
  (Fin.foldl n (fun (out, carry) i =>
    (out.set i ((x[i] <<< 1) ||| carry) i.isLt, x[i] >>> 63)) (Vector.replicate n 0, bit)).1

/-- `limbs_from_be_bytes` of `m` bytes, which fit. -/
def limbsFromBeBytes {m : Nat} (n : Nat) (h : m ≤ 8 * n) (bytes : Vector UInt8 m) :
    Vector UInt64 n :=
  Fin.foldl m (fun limbs i =>
    limbs.set (i.val / 8)
      (limbs[i.val / 8] |||
        ((bytes[m - 1 - i.val]).toUInt64 <<< UInt64.ofNat (i.val % 8 * 8)))
      (by omega)) (Vector.replicate n 0)

/-- `to_be_bytes` to `m` bytes. -/
def limbsToBeBytes (m : Nat) (h : m ≤ 8 * n) (x : Vector UInt64 n) : Vector UInt8 m :=
  Vector.ofFn fun k : Fin m =>
    let i := m - 1 - k.val
    ((x[i / 8]) >>> UInt64.ofNat (i % 8 * 8)).toUInt8

/-- The number a big-endian byte string spells. -/
def beNat (bytes : List UInt8) : Nat := bytes.foldl (fun acc byte => 256 * acc + byte.toNat) 0

end Loops

/-! ## Words -/

/-- The top bit of a word. -/
def top (x : UInt64) : Nat := x.toNat / 2 ^ 63

theorem toNat_shiftRight_63 (x : UInt64) : (x >>> 63).toNat = top x := by
  rw [UInt64.toNat_shiftRight, Nat.shiftRight_eq_div_pow]
  rfl

theorem top_cases (x : UInt64) : top x = 0 ∨ top x = 1 := by
  have hlt := UInt64.toNat_lt x
  rw [top]
  omega

theorem top_eq (x : UInt64) : top x = (x.toNat.testBit 63).toNat := by
  rw [Nat.testBit_eq_decide_div_mod_eq, ← top]
  obtain h | h := top_cases x <;> rw [h] <;> rfl

theorem top_and (x y : UInt64) : top (x &&& y) = top x * top y := by
  rw [top_eq, top_eq, top_eq, UInt64.toNat_and, Nat.testBit_and]
  cases x.toNat.testBit 63 <;> cases y.toNat.testBit 63 <;> rfl

theorem top_or (x y : UInt64) : top (x ||| y) = max (top x) (top y) := by
  rw [top_eq, top_eq, top_eq, UInt64.toNat_or, Nat.testBit_or]
  cases x.toNat.testBit 63 <;> cases y.toNat.testBit 63 <;> rfl

theorem top_not (x : UInt64) : top (~~~x) = 1 - top x := by
  have hlt := UInt64.toNat_lt x
  have hsize : UInt64.size = 2 ^ 64 := rfl
  rw [top, top, UInt64.toNat_not, hsize]
  omega

theorem toNat_byte_shiftLeft (byte : UInt8) {k : Nat} (h : k ≤ 56) :
    (byte.toUInt64 <<< UInt64.ofNat k).toNat = 2 ^ k * byte.toNat := by
  have hbyte := byte.toNat_lt
  have hk : k % 2 ^ 64 % 64 = k := by omega
  have hpow : 2 ^ k * byte.toNat < 2 ^ 56 * 2 ^ 8 :=
    Nat.mul_lt_mul_of_le_of_lt (Nat.pow_le_pow_right (by decide) h) hbyte (by decide)
  rw [UInt64.toNat_shiftLeft, UInt64.toNat_ofNat', hk, UInt8.toNat_toUInt64, Nat.shiftLeft_eq,
    Nat.mul_comm, Nat.mod_eq_of_lt (by omega)]

theorem toNat_shiftRight_ofNat (x : UInt64) {k : Nat} (h : k < 64) :
    (x >>> UInt64.ofNat k).toNat = x.toNat / 2 ^ k := by
  have hk : k % 2 ^ 64 % 64 = k := by omega
  rw [UInt64.toNat_shiftRight, UInt64.toNat_ofNat', hk, Nat.shiftRight_eq_div_pow]

/-- One bit of a byte. -/
theorem toNat_byte_bit (byte : UInt8) (i : Fin 8) :
    ((byte >>> UInt8.ofNat i.val) &&& 1).toUInt64.toNat = byte.toNat / 2 ^ i.val % 2 := by
  have hi : i.val % 2 ^ 8 % 8 = i.val := by omega
  rw [UInt8.toNat_toUInt64, UInt8.toNat_and, UInt8.toNat_shiftRight, UInt8.toNat_ofNat', hi,
    Nat.shiftRight_eq_div_pow]
  exact Nat.and_one_is_mod _

/-- The carry is the majority of the top bits of the operands and of what is not in the sum. -/
theorem adc_spec (a b : UInt64) {carryIn : UInt64} (h : carryIn.toNat ≤ 1) :
    (adc a b carryIn).1.toNat + (adc a b carryIn).2.toNat * 2 ^ 64
        = a.toNat + b.toNat + carryIn.toNat
      ∧ (adc a b carryIn).2.toNat ≤ 1 := by
  have ha := UInt64.toNat_lt a
  have hb := UInt64.toNat_lt b
  have hs : (a + b + carryIn).toNat = (a.toNat + b.toNat + carryIn.toNat) % 2 ^ 64 := by
    rw [UInt64.toNat_add, UInt64.toNat_add, Nat.mod_add_mod]
  have hcarry : (adc a b carryIn).2.toNat
      = max (top a * top b) (max (top a) (top b) * (1 - top (a + b + carryIn))) := by
    rw [adc, toNat_shiftRight_63, top_or, top_and, top_and, top_or, top_not]
  rw [hcarry, adc, hs]
  obtain hta | hta := top_cases a <;> obtain htb | htb := top_cases b <;>
    obtain hts | hts := top_cases (a + b + carryIn) <;> rw [hta, htb, hts] <;>
    rw [top] at hta htb hts <;> rw [hs] at hts <;> omega

/-- The borrow, likewise. -/
theorem sbb_spec (a b : UInt64) {borrowIn : UInt64} (h : borrowIn.toNat ≤ 1) :
    (sbb a b borrowIn).1.toNat + b.toNat + borrowIn.toNat
        = a.toNat + (sbb a b borrowIn).2.toNat * 2 ^ 64
      ∧ (sbb a b borrowIn).2.toNat ≤ 1 := by
  have ha := UInt64.toNat_lt a
  have hb := UInt64.toNat_lt b
  have hd : (a - b - borrowIn).toNat
      = (2 ^ 64 - borrowIn.toNat + (2 ^ 64 - b.toNat + a.toNat) % 2 ^ 64) % 2 ^ 64 := by
    rw [UInt64.toNat_sub, UInt64.toNat_sub]
  have hborrow : (sbb a b borrowIn).2.toNat
      = max ((1 - top a) * top b) (max (1 - top a) (top b) * top (a - b - borrowIn)) := by
    rw [sbb, toNat_shiftRight_63, top_or, top_and, top_and, top_or, top_not]
  rw [hborrow, sbb, hd]
  obtain hta | hta := top_cases a <;> obtain htb | htb := top_cases b <;>
    obtain hts | hts := top_cases (a - b - borrowIn) <;> rw [hta, htb, hts] <;>
    rw [top] at hta htb hts <;> rw [hd] at hts <;> omega

/-- The carries `c1` and `c2` of `mac`. -/
def macCarries (r a b carry : UInt64) : UInt64 × UInt64 :=
  ((adc (wideProduct a b).1 r 0).2, (adc (adc (wideProduct a b).1 r 0).1 carry 0).2)

theorem toNat_wideProduct (a b : UInt64) :
    (wideProduct a b).1.toNat = a.toNat * b.toNat % 2 ^ 64
      ∧ (wideProduct a b).2.toNat = a.toNat * b.toNat / 2 ^ 64
      ∧ a.toNat * b.toNat ≤ (2 ^ 64 - 1) * (2 ^ 64 - 1) := by
  have ha := UInt64.toNat_lt a
  have hb := UInt64.toNat_lt b
  have hle : a.toNat * b.toNat ≤ (2 ^ 64 - 1) * (2 ^ 64 - 1) :=
    Nat.mul_le_mul (by omega) (by omega)
  refine ⟨?_, ?_, hle⟩
  · rw [wideProduct, UInt64.toNat_ofNat']
  · rw [wideProduct, UInt64.toNat_ofNat', Nat.mod_eq_of_lt]
    omega

/-- The high word of a product leaves room for two carries. -/
theorem macCarries_spec (r a b carry : UInt64) :
    (macCarries r a b carry).1.toNat ≤ 1 ∧ (macCarries r a b carry).2.toNat ≤ 1
      ∧ (mac r a b carry).2.toNat = (wideProduct a b).2.toNat + (macCarries r a b carry).1.toNat
          + (macCarries r a b carry).2.toNat := by
  have hr := UInt64.toNat_lt r
  have hc := UInt64.toNat_lt carry
  obtain ⟨hlo, hhi, hle⟩ := toNat_wideProduct a b
  have hzero : (0 : UInt64).toNat ≤ 1 := by decide
  have hzero' : (0 : UInt64).toNat = 0 := rfl
  obtain ⟨hfirst, hc1⟩ := adc_spec (wideProduct a b).1 r hzero
  obtain ⟨hsecond, hc2⟩ := adc_spec (adc (wideProduct a b).1 r 0).1 carry hzero
  rw [hzero', Nat.add_zero] at hfirst hsecond
  have hfits : (wideProduct a b).2.toNat + (adc (wideProduct a b).1 r 0).2.toNat
      + (adc (adc (wideProduct a b).1 r 0).1 carry 0).2.toNat < 2 ^ 64 := by
    omega
  have hhigh : (mac r a b carry).2 = (wideProduct a b).2 + (adc (wideProduct a b).1 r 0).2
      + (adc (adc (wideProduct a b).1 r 0).1 carry 0).2 := rfl
  refine ⟨hc1, hc2, ?_⟩
  rw [hhigh, UInt64.toNat_add, UInt64.toNat_add, Nat.mod_add_mod, Nat.mod_eq_of_lt hfits]
  rfl

theorem mac_spec (r a b carry : UInt64) :
    (mac r a b carry).1.toNat + (mac r a b carry).2.toNat * 2 ^ 64
      = r.toNat + a.toNat * b.toNat + carry.toNat := by
  obtain ⟨hlo, hhi, -⟩ := toNat_wideProduct a b
  have hzero : (0 : UInt64).toNat ≤ 1 := by decide
  have hzero' : (0 : UInt64).toNat = 0 := rfl
  obtain ⟨hfirst, -⟩ := adc_spec (wideProduct a b).1 r hzero
  obtain ⟨hsecond, -⟩ := adc_spec (adc (wideProduct a b).1 r 0).1 carry hzero
  rw [hzero', Nat.add_zero] at hfirst hsecond
  have hlow : (mac r a b carry).1 = (adc (adc (wideProduct a b).1 r 0).1 carry 0).1 := rfl
  have hhigh := (macCarries_spec r a b carry).2.2
  rw [macCarries] at hhigh
  have hsplit := Nat.div_add_mod (a.toNat * b.toNat) (2 ^ 64)
  rw [hlow, hhigh]
  rw [← hlo, ← hhi] at hsplit
  linarith only [hsplit, hfirst, hsecond]

/-- **The carry primitives are exact** on all words, with a carry or borrow of 0 or 1: they spell
the sum, the difference and the product of numbers, and what is carried out is again 0 or 1. The
high word of `mac` is a sum that does not overflow. -/
theorem carry_primitives (a b : UInt64) :
    (∀ carryIn : UInt64, carryIn.toNat ≤ 1 →
      (adc a b carryIn).1.toNat + 2 ^ 64 * (adc a b carryIn).2.toNat
          = a.toNat + b.toNat + carryIn.toNat
        ∧ (adc a b carryIn).2.toNat ≤ 1)
      ∧ (∀ borrowIn : UInt64, borrowIn.toNat ≤ 1 →
        a.toNat + 2 ^ 64 * (sbb a b borrowIn).2.toNat
            = b.toNat + borrowIn.toNat + (sbb a b borrowIn).1.toNat
          ∧ (sbb a b borrowIn).2.toNat ≤ 1)
      ∧ ∀ r carry : UInt64,
        (mac r a b carry).1.toNat + 2 ^ 64 * (mac r a b carry).2.toNat
            = r.toNat + a.toNat * b.toNat + carry.toNat
          ∧ (macCarries r a b carry).1.toNat ≤ 1 ∧ (macCarries r a b carry).2.toNat ≤ 1
          ∧ (mac r a b carry).2.toNat = (wideProduct a b).2.toNat
              + (macCarries r a b carry).1.toNat + (macCarries r a b carry).2.toNat := by
  refine ⟨fun carryIn h => ?_, fun borrowIn h => ?_, fun r carry => ?_⟩
  · obtain ⟨hsum, hcarry⟩ := adc_spec a b h
    exact ⟨by omega, hcarry⟩
  · obtain ⟨hdiff, hborrow⟩ := sbb_spec a b h
    exact ⟨by omega, hborrow⟩
  · obtain ⟨hfirst, hsecond, hhigh⟩ := macCarries_spec r a b carry
    have hmac := mac_spec r a b carry
    exact ⟨by omega, hfirst, hsecond, hhigh⟩

/-- A bit shifted in, and the one shifted out. -/
theorem shl1_spec (x : UInt64) {carry : UInt64} (h : carry.toNat ≤ 1) :
    ((x <<< 1) ||| carry).toNat + (x >>> 63).toNat * 2 ^ 64 = 2 * x.toNat + carry.toNat := by
  have hx := UInt64.toNat_lt x
  have hshift : (x <<< 1).toNat = 2 ^ 1 * (x.toNat % 2 ^ 63) := by
    rw [UInt64.toNat_shiftLeft, Nat.shiftLeft_eq]
    have hone : (1 : UInt64).toNat % 64 = 1 := rfl
    rw [hone]
    omega
  have hor : ((x <<< 1) ||| carry).toNat = 2 ^ 1 * (x.toNat % 2 ^ 63) + carry.toNat := by
    rw [UInt64.toNat_or, hshift, Nat.two_pow_add_eq_or_of_lt (by omega)]
  rw [hor, toNat_shiftRight_63, top]
  omega

/-! ## Loops -/

section Loops

variable {n : Nat}

/-- An equation between words, `k` words up. -/
theorem word_scaled {x y : Nat} (k : Nat) (h : x = y) : x * 2 ^ (64 * k) = y * 2 ^ (64 * k) := by
  rw [h]

theorem value_addLimbs (a b : Vector UInt64 n) :
    value (addLimbs a b).1 + (addLimbs a b).2.toNat * 2 ^ (64 * n) = value a + value b
      ∧ (addLimbs a b).2.toNat ≤ 1 := by
  refine foldl_invariant (fun k (s : Vector UInt64 n × UInt64) =>
    low s.1 k + s.2.toNat * 2 ^ (64 * k) = low a k + low b k ∧ s.2.toNat ≤ 1) ?_ ?_
  · exact ⟨by simp, Nat.zero_le 1⟩
  · rintro i ⟨out, carry⟩ ⟨hsum, hcarry⟩
    obtain ⟨hword, hle⟩ := adc_spec a[i] b[i] hcarry
    refine ⟨?_, hle⟩
    have hscaled := word_scaled i.val hword
    simp only [Nat.add_mul, Nat.mul_assoc, FinIndex.getElem_fin] at hscaled hsum ⊢
    rw [low_set_self out i.isLt, low_succ, low_succ, limb_of_lt a i.isLt, limb_of_lt b i.isLt,
      word_pow_succ]
    linarith only [hsum, hscaled]

theorem value_subLimbs (a b : Vector UInt64 n) :
    value (subLimbs a b).1 + value b = value a + (subLimbs a b).2.toNat * 2 ^ (64 * n)
      ∧ (subLimbs a b).2.toNat ≤ 1 := by
  refine foldl_invariant (fun k (s : Vector UInt64 n × UInt64) =>
    low s.1 k + low b k = low a k + s.2.toNat * 2 ^ (64 * k) ∧ s.2.toNat ≤ 1) ?_ ?_
  · exact ⟨by simp, Nat.zero_le 1⟩
  · rintro i ⟨out, borrow⟩ ⟨hdiff, hborrow⟩
    obtain ⟨hword, hle⟩ := sbb_spec a[i] b[i] hborrow
    refine ⟨?_, hle⟩
    have hscaled := word_scaled i.val hword
    simp only [Nat.add_mul, Nat.mul_assoc, FinIndex.getElem_fin] at hscaled hdiff ⊢
    rw [low_set_self out i.isLt, low_succ, low_succ, limb_of_lt a i.isLt, limb_of_lt b i.isLt,
      word_pow_succ]
    linarith only [hdiff, hscaled]

/-- The borrow says which is smaller. -/
theorem subLimbs_cases (a b : Vector UInt64 n) :
    (subLimbs a b).2 = 1 ∧ value a < value b
      ∨ (subLimbs a b).2 = 0 ∧ value b ≤ value a ∧ value (subLimbs a b).1 = value a - value b := by
  obtain ⟨hdiff, hle⟩ := value_subLimbs a b
  have hlt := value_lt (subLimbs a b).1
  have hltb := value_lt b
  obtain h | h : (subLimbs a b).2.toNat = 0 ∨ (subLimbs a b).2.toNat = 1 := by omega
  · rw [h] at hdiff
    exact .inr ⟨UInt64.toNat_inj.mp h, by omega, by omega⟩
  · rw [h] at hdiff
    exact .inl ⟨UInt64.toNat_inj.mp h, by omega⟩

/-- The subtraction is made exactly if it can be. -/
theorem value_condSubIfGe (a b : Vector UInt64 n) :
    value (condSubIfGe a b) = if value b ≤ value a then value a - value b else value a := by
  obtain ⟨hborrow, hlt⟩ | ⟨hborrow, hle, hdiff⟩ := subLimbs_cases a b
  · have hkeep : condSubIfGe a b = a := by
      apply Vector.ext
      intro i hi
      rw [condSubIfGe]
      simp [hborrow]
    rw [hkeep, if_neg (Nat.not_le_of_lt hlt)]
  · have htake : condSubIfGe a b = (subLimbs a b).1 := by
      apply Vector.ext
      intro i hi
      rw [condSubIfGe]
      simp [hborrow]
    rw [htake, if_pos hle, hdiff]

theorem value_condSubIfGe_mod {a b : Vector UInt64 n} (h : value a < 2 * value b) :
    value (condSubIfGe a b) = value a % value b := by
  rw [value_condSubIfGe]
  split
  · rename_i hle
    rw [Nat.mod_eq_sub_mod hle, Nat.mod_eq_of_lt (by omega)]
  · rename_i hgt
    rw [Nat.mod_eq_of_lt (by omega)]

/-- A row adds `a[i] * b`, `i` words up; its carry goes with it. -/
theorem value_mulRow (a b : Vector UInt64 n) (out : Vector UInt64 (2 * n)) (i : Fin n) :
    value (mulRow a b out i).1 + (mulRow a b out i).2.toNat * 2 ^ (64 * (i.val + n))
        = value out + a[i].toNat * value b * 2 ^ (64 * i.val)
      ∧ ∀ j, i.val + n ≤ j → limb (mulRow a b out i).1 j = limb out j := by
  refine foldl_invariant (fun k (s : Vector UInt64 (2 * n) × UInt64) =>
    value s.1 + s.2.toNat * 2 ^ (64 * (i.val + k))
        = value out + a[i].toNat * low b k * 2 ^ (64 * i.val)
      ∧ ∀ j, i.val + n ≤ j → limb s.1 j = limb out j) ?_ ?_
  · exact ⟨by simp, fun j _ => rfl⟩
  · rintro j ⟨out', carry⟩ ⟨hsum, hbeyond⟩
    have hword := word_scaled (i.val + j.val)
      (mac_spec (out'[i.val + j.val]) a[i] b[j] carry)
    have hset := value_set out' (i := i.val + j.val) (by omega)
      (mac (out'[i.val + j.val]) a[i] b[j] carry).1
    rw [limb_of_lt out' (by omega)] at hset
    refine ⟨?_, ?_⟩
    · have hpow : 2 ^ (64 * (i.val + j.val)) = 2 ^ (64 * j.val) * 2 ^ (64 * i.val) := by
        rw [← Nat.pow_add]
        congr 1
        omega
      have hrow : a[i].toNat * low b (j.val + 1) * 2 ^ (64 * i.val)
          = a[i].toNat * low b j.val * 2 ^ (64 * i.val)
            + a[i].toNat * b[j].toNat * 2 ^ (64 * (i.val + j.val)) := by
        rw [low_succ, limb_of_lt b j.isLt, hpow, FinIndex.getElem_fin b]
        ring
      rw [hrow, ← Nat.add_assoc i.val, word_pow_succ]
      simp only [Nat.add_mul, Nat.mul_assoc, FinIndex.getElem_fin] at hword hsum hset ⊢
      linarith only [hword, hsum, hset]
    · intro k hk
      dsimp only
      rw [limb_set out' (by omega), if_neg (by omega), hbeyond k hk]

theorem value_mulLimbs (a b : Vector UInt64 n) : value (mulLimbs a b) = value a * value b := by
  have hrows := foldl_invariant (n := n) (f := fun out i =>
      (mulRow a b out i).1.set (i.val + n) (mulRow a b out i).2 (by omega))
    (a := Vector.replicate (2 * n) 0)
    (fun k out => value out = low a k * value b ∧ ∀ j, k + n ≤ j → limb out j = 0)
    ⟨by simp, fun j _ => limb_zero j⟩ (by
      rintro i out ⟨hsum, hzero⟩
      obtain ⟨hrow, hbeyond⟩ := value_mulRow a b out i
      have hset := value_set (mulRow a b out i).1 (i := i.val + n) (by omega) (mulRow a b out i).2
      rw [hbeyond _ (Nat.le_refl _), hzero _ (Nat.le_refl _), Nat.zero_mul, Nat.add_zero] at hset
      refine ⟨?_, ?_⟩
      · rw [hset, hrow, hsum, low_succ, limb_of_lt a i.isLt, Nat.add_mul]
        simp only [FinIndex.getElem_fin]
        ring
      · intro j hj
        rw [limb_set _ (by omega), if_neg (by omega), hbeyond j (by omega), hzero j (by omega)])
  exact hrows.1

/-- Shifting in a bit, as long as none is shifted out. -/
theorem value_shl1Or (x : Vector UInt64 n) {bit : UInt64} (hbit : bit.toNat ≤ 1)
    (hx : 2 * value x + bit.toNat < 2 ^ (64 * n)) :
    value (shl1Or x bit) = 2 * value x + bit.toNat := by
  have hloop := foldl_invariant (n := n) (f := fun (s : Vector UInt64 n × UInt64) i =>
      (s.1.set i ((x[i] <<< 1) ||| s.2), x[i] >>> 63)) (a := (Vector.replicate n 0, bit))
    (fun k s => low s.1 k + s.2.toNat * 2 ^ (64 * k) = 2 * low x k + bit.toNat ∧ s.2.toNat ≤ 1)
    ⟨by simp, hbit⟩ (by
      rintro i ⟨out, carry⟩ ⟨hsum, hcarry⟩
      have hscaled := word_scaled i.val (shl1_spec x[i] hcarry)
      refine ⟨?_, ?_⟩
      · simp only [Nat.add_mul, Nat.mul_assoc, FinIndex.getElem_fin] at hscaled hsum ⊢
        rw [low_set_self out i.isLt, low_succ, limb_of_lt x i.isLt, word_pow_succ]
        linarith only [hsum, hscaled]
      · rw [toNat_shiftRight_63]
        obtain h | h := top_cases x[i] <;> simp only [h] <;> decide)
  have hout : shl1Or x bit = (Fin.foldl n (fun (s : Vector UInt64 n × UInt64) i =>
      (s.1.set i ((x[i] <<< 1) ||| s.2), x[i] >>> 63)) (Vector.replicate n 0, bit)).1 := rfl
  obtain ⟨hsum, hcarry⟩ := hloop
  rw [hout, value]
  obtain hzero | hone := Nat.le_one_iff_eq_zero_or_eq_one.mp hcarry
  · rw [hzero, Nat.zero_mul, Nat.add_zero] at hsum
    exact hsum
  · rw [hone, Nat.one_mul] at hsum
    rw [value] at hx
    omega

/-! ## Byte strings -/

theorem beNat_eq (bytes : List UInt8) : beNat bytes = leNat bytes.reverse := by
  rw [leNat, List.foldr_reverse, beNat]
  congr 1
  funext acc byte
  exact Nat.add_comm _ _

theorem beNat_lt (bytes : List UInt8) : beNat bytes < 256 ^ bytes.length := by
  have hlt := leNat_lt bytes.reverse
  rwa [← beNat_eq, List.length_reverse] at hlt

theorem beNat_append (bytes : List UInt8) (byte : UInt8) :
    beNat (bytes ++ [byte]) = 256 * beNat bytes + byte.toNat := by
  rw [beNat, List.foldl_append]
  rfl

/-- The first byte is the highest digit. -/
theorem beNat_cons (byte : UInt8) (bytes : List UInt8) :
    beNat (byte :: bytes) = byte.toNat * 256 ^ bytes.length + beNat bytes := by
  have hpow : 2 ^ (8 * bytes.length) = 256 ^ bytes.length := Nat.pow_mul 2 8 bytes.length
  rw [beNat_eq, beNat_eq, List.reverse_cons, leNat_append, leNat_cons, leNat_nil, Nat.mul_zero,
    Nat.add_zero, List.length_reverse, Nat.mul_comm, Nat.add_comm]

/-- Byte strings of one length are ordered as their numbers. -/
theorem lt_iff_beNat_lt {as bs : List UInt8} (h : as.length = bs.length) :
    as < bs ↔ beNat as < beNat bs := by
  induction as generalizing bs with
  | nil =>
    obtain rfl := List.length_eq_zero_iff.mp h.symm
    exact iff_of_false (List.not_lt_nil []) (Nat.lt_irrefl _)
  | cons a as ih =>
    obtain ⟨b, bs, rfl⟩ := List.exists_cons_of_length_eq_add_one h.symm
    have hlength : as.length = bs.length := Nat.succ.inj h
    have has := beNat_lt as
    have hbs := beNat_lt bs
    rw [List.cons_lt_cons_iff, ih hlength, beNat_cons, beNat_cons, hlength, UInt8.lt_iff_toNat_lt,
      ← UInt8.toNat_inj]
    rw [hlength] at has
    constructor
    · rintro (hlt | ⟨heq, hlt⟩)
      · have hstep := Nat.mul_le_mul_right (256 ^ bs.length) hlt
        rw [Nat.succ_mul] at hstep
        omega
      · rw [heq]
        omega
    · intro hlt
      obtain hab | hab | hab := Nat.lt_trichotomy a.toNat b.toNat
      · exact .inl hab
      · rw [hab] at hlt
        exact .inr ⟨hab, by omega⟩
      · have hstep := Nat.mul_le_mul_right (256 ^ bs.length) hab
        rw [Nat.succ_mul] at hstep
        omega

/-- The last byte is the lowest digit. -/
theorem beNat_set_last {m : Nat} (v : Vector UInt8 m) (h : m - 1 < m) :
    ∃ k, ∀ byte, beNat (v.set (m - 1) byte).toList = 256 * k + byte.toNat := by
  obtain ⟨l, x, hl⟩ : ∃ l x, v.toList = l ++ [x] := by
    refine ⟨v.toList.dropLast, _, (List.dropLast_append_getLast ?_).symm⟩
    rw [← List.length_pos_iff, Vector.length_toList]
    omega
  have hlen : l.length = m - 1 := by
    have hlength := congrArg List.length hl
    rw [Vector.length_toList, List.length_append, List.length_singleton] at hlength
    omega
  refine ⟨beNat l, fun byte => ?_⟩
  have hset : (v.set (m - 1) byte).toList = l ++ [byte] := by
    rw [Vector.toList_set, hl, ← hlen, List.set_append_right _ _ (Nat.le_refl _), Nat.sub_self,
      List.set_cons_zero]
  rw [hset, beNat_append]

theorem beNat_replicate_zero (m : Nat) : beNat (Vector.replicate m (0 : UInt8)).toList = 0 := by
  rw [Vector.toList_replicate, beNat]
  induction m with
  | zero => rfl
  | succ m ih => rwa [List.replicate_succ, List.foldl_cons]

theorem beNat_injective {m : Nat} {x y : Vector UInt8 m}
    (h : beNat x.toList = beNat y.toList) : x = y := by
  have hreverse : leNat x.reverse.toList = leNat y.reverse.toList := by
    rw [Vector.toList_reverse, Vector.toList_reverse, ← beNat_eq, ← beNat_eq, h]
  have heq := congrArg Vector.reverse (eq_of_leNat_eq hreverse)
  rwa [Vector.reverse_reverse, Vector.reverse_reverse] at heq

theorem pow_256 (k : Nat) : 256 ^ k = 2 ^ (64 * (k / 8)) * 2 ^ (k % 8 * 8) := by
  rw [← Nat.pow_add, show 256 = 2 ^ 8 from rfl, ← Nat.pow_mul]
  congr 1
  omega

/-- The bytes land in disjoint places of the words. -/
theorem value_limbsFromBeBytes {m : Nat} (n : Nat) (h : m ≤ 8 * n) (bytes : Vector UInt8 m) :
    value (limbsFromBeBytes n h bytes) = beNat bytes.toList := by
  have hloop := foldl_invariant (n := m) (f := fun (limbs : Vector UInt64 n) i =>
      limbs.set (i.val / 8)
        (limbs[i.val / 8] |||
          ((bytes[m - 1 - i.val]).toUInt64 <<< UInt64.ofNat (i.val % 8 * 8)))
        (by omega)) (a := Vector.replicate n 0)
    (fun k limbs => value limbs = leNat (bytes.toList.reverse.take k)) (by simp) (by
      rintro ⟨i, hi⟩ limbs hsum
      dsimp only at hsum ⊢
      have hlength : (bytes.toList.reverse.take i).length = i := by simp; omega
      have hbyte : bytes.toList.reverse.take (i + 1)
          = bytes.toList.reverse.take i ++ [bytes[m - 1 - i]] := by
        rw [List.take_succ_eq_append_getElem (by simpa using hi)]
        simp
      have hlt := leNat_lt (bytes.toList.reverse.take i)
      rw [hlength, ← hsum, pow_256] at hlt
      -- below the byte's place the word has its earlier bytes only, above it nothing
      have hword : limb limbs (i / 8) < 2 ^ (i % 8 * 8) := by
        rw [limb_eq]
        refine Nat.lt_of_le_of_lt (Nat.mod_le _ _) (Nat.div_lt_of_lt_mul hlt)
      rw [limb_of_lt limbs (by omega)] at hword
      have hx := (bytes[m - 1 - i]).toNat_lt
      have hshift : ((bytes[m - 1 - i]).toUInt64
            <<< UInt64.ofNat (i % 8 * 8)).toNat
          = 2 ^ (i % 8 * 8) * (bytes[m - 1 - i]).toNat :=
        toNat_byte_shiftLeft _ (by omega)
      have hor : (limbs[i / 8] ||| ((bytes[m - 1 - i]).toUInt64
            <<< UInt64.ofNat (i % 8 * 8))).toNat
          = 2 ^ (i % 8 * 8) * (bytes[m - 1 - i]).toNat
            + (limbs[i / 8]).toNat := by
        rw [UInt64.toNat_or, hshift, Nat.or_comm, Nat.two_pow_add_eq_or_of_lt hword]
      have hset := value_set limbs (i := i / 8) (by omega)
        (limbs[i / 8] ||| ((bytes[m - 1 - i]).toUInt64
          <<< UInt64.ofNat (i % 8 * 8)))
      rw [hor, limb_of_lt limbs (by omega)] at hset
      rw [hbyte, leNat_append, hlength, ← hsum, pow_256, leNat_cons, leNat_nil]
      linarith only [hset])
  rw [beNat_eq]
  rw [List.take_of_length_le (by simp)] at hloop
  exact hloop

theorem reverse_limbsToBeBytes {m : Nat} (h : m ≤ 8 * n) (x : Vector UInt64 n) :
    (limbsToBeBytes m h x).toList.reverse = (leBytes m (value x)).toList := by
  apply List.ext_getElem (by simp)
  intro i h₁ h₂
  have hi : i < m := by simpa using h₂
  have hback : m - 1 - (m - 1 - i) = i := by omega
  rw [List.getElem_reverse, Vector.getElem_toList, Vector.getElem_toList, getElem_leBytes]
  simp only [limbsToBeBytes, Vector.getElem_ofFn, Vector.length_toList, hback]
  have hplace : 2 ^ (8 * i) = 2 ^ (64 * (i / 8)) * 2 ^ (i % 8 * 8) := by
    rw [← pow_256, show 256 = 2 ^ 8 from rfl, ← Nat.pow_mul]
  have hword : 2 ^ 64 = 2 ^ (i % 8 * 8) * 2 ^ (64 - i % 8 * 8) := by
    rw [← Nat.pow_add]
    congr 1
    omega
  have hdvd : 2 ^ 8 ∣ 2 ^ (64 - i % 8 * 8) := Nat.pow_dvd_pow 2 (by omega)
  apply UInt8.toNat_inj.mp
  rw [UInt64.toNat_toUInt8, toNat_shiftRight_ofNat _ (by omega), UInt8.toNat_ofNat',
    Nat.shiftRight_eq_div_pow, ← limb_of_lt x (by omega), limb_eq, hplace, ← Nat.div_div_eq_div_mul,
    hword, Nat.mod_mul_right_div_self, Nat.mod_mod_of_dvd _ hdvd]

theorem beNat_limbsToBeBytes {m : Nat} (h : m ≤ 8 * n) (x : Vector UInt64 n) :
    beNat (limbsToBeBytes m h x).toList = value x % 256 ^ m := by
  rw [beNat_eq, reverse_limbsToBeBytes, leNat_leBytes]

theorem limbsToBeBytes_limbsFromBeBytes {m : Nat} (h : m ≤ 8 * n) (bytes : Vector UInt8 m) :
    limbsToBeBytes m h (limbsFromBeBytes n h bytes) = bytes := by
  apply beNat_injective
  have hlt := beNat_lt bytes.toList
  rw [Vector.length_toList] at hlt
  rw [beNat_limbsToBeBytes, value_limbsFromBeBytes, Nat.mod_eq_of_lt hlt]

end Loops

end UaCrypt.Hazmat.Limb
