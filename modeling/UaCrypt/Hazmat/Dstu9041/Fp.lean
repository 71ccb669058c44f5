import UaCrypt.Hazmat.Limb

/-!
# Prime fields (`dstu9041/fp256.rs`, `fp384.rs`, `fp512.rs`)

Arithmetic modulo `p = 2^(64 n) - c` on `n` words. The three types are one code at four, six
and eight words; a `FieldParams` is what they differ in.

- `add`, `sub`, `multiply`, `select`, `powMod`, `invert`, `eulerCriterion`, `sqrt`.
- `Represents a x`: the words `a` spell the residue `x` and are below `p`. Every operation has
  one lemma about it.
- `forBits`: the loop over the bits of an exponent, most significant first.
-/

namespace UaCrypt.Hazmat.Dstu9041

open Limbs Limb LittleEndian

/-- The constants of a field. -/
structure FieldParams where
  limbs : Nat
  /-- `P_LIMBS`. -/
  pLimbs : Vector UInt64 limbs
  /-- `C`. -/
  c : UInt64
  pMinus2 : Vector UInt8 (8 * limbs)
  pMinus1Over2 : Vector UInt8 (8 * limbs)
  pMinus1Over4 : Vector UInt8 (8 * limbs)
  pPlus3Over8 : Vector UInt8 (8 * limbs)
  /-- `W`, a square root of `-1`. -/
  w : Vector UInt64 limbs
  two_le_limbs : 2 ≤ limbs
  complement : value pLimbs + c.toNat = 2 ^ (64 * limbs)
  c_small : c.toNat < 2 ^ 16
  pMinus2_eq : beNat pMinus2.toList + 2 = value pLimbs
  pMinus1Over2_eq : 2 * beNat pMinus1Over2.toList + 1 = value pLimbs
  pMinus1Over4_eq : 4 * beNat pMinus1Over4.toList + 1 = value pLimbs
  pPlus3Over8_eq : 8 * beNat pPlus3Over8.toList = value pLimbs + 3
  w_squared : value w < value pLimbs ∧ value w ^ 2 % value pLimbs + 1 = value pLimbs

/-- The modulus. -/
def FieldParams.p (f : FieldParams) : Nat := value f.pLimbs

section Bounds

variable (f : FieldParams)

theorem FieldParams.limbs_pos : 0 < f.limbs := Nat.lt_of_lt_of_le Nat.two_pos f.two_le_limbs

theorem FieldParams.p_add_c : f.p + f.c.toNat = 2 ^ (64 * f.limbs) := f.complement

theorem FieldParams.two_pow_le : 2 ^ 128 ≤ 2 ^ (64 * f.limbs) :=
  Nat.pow_le_pow_right (by decide) (Nat.mul_le_mul_left 64 f.two_le_limbs)

theorem FieldParams.lt_p {x : Nat} (h : x < 2 ^ 64) : x < f.p := by
  have hsum := f.p_add_c
  have hpow := f.two_pow_le
  have hc := f.c_small
  omega

instance : NeZero f.p := ⟨Nat.ne_of_gt (f.lt_p (Nat.two_pow_pos 64))⟩

end Bounds

/-- `fp256.rs`: `p = 2^256 - 435`. -/
def fp256 : FieldParams where
  limbs := 4
  pLimbs := #v[
    0xFFFFFFFFFFFFFE4D, 0xFFFFFFFFFFFFFFFF, 0xFFFFFFFFFFFFFFFF, 0xFFFFFFFFFFFFFFFF]
  c := 435
  pMinus2 := #v[
    0xFF, 0xFF, 0xFF, 0xFF, 0xFF, 0xFF, 0xFF, 0xFF, 0xFF, 0xFF, 0xFF, 0xFF,
    0xFF, 0xFF, 0xFF, 0xFF, 0xFF, 0xFF, 0xFF, 0xFF, 0xFF, 0xFF, 0xFF, 0xFF,
    0xFF, 0xFF, 0xFF, 0xFF, 0xFF, 0xFF, 0xFE, 0x4B]
  pMinus1Over2 := #v[
    0x7F, 0xFF, 0xFF, 0xFF, 0xFF, 0xFF, 0xFF, 0xFF, 0xFF, 0xFF, 0xFF, 0xFF,
    0xFF, 0xFF, 0xFF, 0xFF, 0xFF, 0xFF, 0xFF, 0xFF, 0xFF, 0xFF, 0xFF, 0xFF,
    0xFF, 0xFF, 0xFF, 0xFF, 0xFF, 0xFF, 0xFF, 0x26]
  pMinus1Over4 := #v[
    0x3F, 0xFF, 0xFF, 0xFF, 0xFF, 0xFF, 0xFF, 0xFF, 0xFF, 0xFF, 0xFF, 0xFF,
    0xFF, 0xFF, 0xFF, 0xFF, 0xFF, 0xFF, 0xFF, 0xFF, 0xFF, 0xFF, 0xFF, 0xFF,
    0xFF, 0xFF, 0xFF, 0xFF, 0xFF, 0xFF, 0xFF, 0x93]
  pPlus3Over8 := #v[
    0x1F, 0xFF, 0xFF, 0xFF, 0xFF, 0xFF, 0xFF, 0xFF, 0xFF, 0xFF, 0xFF, 0xFF,
    0xFF, 0xFF, 0xFF, 0xFF, 0xFF, 0xFF, 0xFF, 0xFF, 0xFF, 0xFF, 0xFF, 0xFF,
    0xFF, 0xFF, 0xFF, 0xFF, 0xFF, 0xFF, 0xFF, 0xCA]
  w := #v[
    0x74956ADEF6968654, 0xFDEF5BA9F4C42B4B, 0x06B724D287DA9D3A, 0xFA3A4105C178A375]
  two_le_limbs := by decide
  complement := by decide +kernel
  c_small := by decide
  pMinus2_eq := by decide +kernel
  pMinus1Over2_eq := by decide +kernel
  pMinus1Over4_eq := by decide +kernel
  pPlus3Over8_eq := by decide +kernel
  w_squared := by decide +kernel

/-- `fp384.rs`: `p = 2^384 - 2147`. -/
def fp384 : FieldParams where
  limbs := 6
  pLimbs := #v[
    0xFFFFFFFFFFFFF79D, 0xFFFFFFFFFFFFFFFF, 0xFFFFFFFFFFFFFFFF, 0xFFFFFFFFFFFFFFFF,
    0xFFFFFFFFFFFFFFFF, 0xFFFFFFFFFFFFFFFF]
  c := 2147
  pMinus2 := #v[
    0xFF, 0xFF, 0xFF, 0xFF, 0xFF, 0xFF, 0xFF, 0xFF, 0xFF, 0xFF, 0xFF, 0xFF,
    0xFF, 0xFF, 0xFF, 0xFF, 0xFF, 0xFF, 0xFF, 0xFF, 0xFF, 0xFF, 0xFF, 0xFF,
    0xFF, 0xFF, 0xFF, 0xFF, 0xFF, 0xFF, 0xFF, 0xFF, 0xFF, 0xFF, 0xFF, 0xFF,
    0xFF, 0xFF, 0xFF, 0xFF, 0xFF, 0xFF, 0xFF, 0xFF, 0xFF, 0xFF, 0xF7, 0x9B]
  pMinus1Over2 := #v[
    0x7F, 0xFF, 0xFF, 0xFF, 0xFF, 0xFF, 0xFF, 0xFF, 0xFF, 0xFF, 0xFF, 0xFF,
    0xFF, 0xFF, 0xFF, 0xFF, 0xFF, 0xFF, 0xFF, 0xFF, 0xFF, 0xFF, 0xFF, 0xFF,
    0xFF, 0xFF, 0xFF, 0xFF, 0xFF, 0xFF, 0xFF, 0xFF, 0xFF, 0xFF, 0xFF, 0xFF,
    0xFF, 0xFF, 0xFF, 0xFF, 0xFF, 0xFF, 0xFF, 0xFF, 0xFF, 0xFF, 0xFB, 0xCE]
  pMinus1Over4 := #v[
    0x3F, 0xFF, 0xFF, 0xFF, 0xFF, 0xFF, 0xFF, 0xFF, 0xFF, 0xFF, 0xFF, 0xFF,
    0xFF, 0xFF, 0xFF, 0xFF, 0xFF, 0xFF, 0xFF, 0xFF, 0xFF, 0xFF, 0xFF, 0xFF,
    0xFF, 0xFF, 0xFF, 0xFF, 0xFF, 0xFF, 0xFF, 0xFF, 0xFF, 0xFF, 0xFF, 0xFF,
    0xFF, 0xFF, 0xFF, 0xFF, 0xFF, 0xFF, 0xFF, 0xFF, 0xFF, 0xFF, 0xFD, 0xE7]
  pPlus3Over8 := #v[
    0x1F, 0xFF, 0xFF, 0xFF, 0xFF, 0xFF, 0xFF, 0xFF, 0xFF, 0xFF, 0xFF, 0xFF,
    0xFF, 0xFF, 0xFF, 0xFF, 0xFF, 0xFF, 0xFF, 0xFF, 0xFF, 0xFF, 0xFF, 0xFF,
    0xFF, 0xFF, 0xFF, 0xFF, 0xFF, 0xFF, 0xFF, 0xFF, 0xFF, 0xFF, 0xFF, 0xFF,
    0xFF, 0xFF, 0xFF, 0xFF, 0xFF, 0xFF, 0xFF, 0xFF, 0xFF, 0xFF, 0xFE, 0xF4]
  w := #v[
    0x7F1D389EE5CEA1C1, 0xA5A0A33C2009F6B0, 0x5ED990AE67926D52, 0x2818CECA634EC925,
    0x87CFADDA26368BFF, 0xCF5F8268D23125BE]
  two_le_limbs := by decide
  complement := by decide +kernel
  c_small := by decide
  pMinus2_eq := by decide +kernel
  pMinus1Over2_eq := by decide +kernel
  pMinus1Over4_eq := by decide +kernel
  pPlus3Over8_eq := by decide +kernel
  w_squared := by decide +kernel

/-- `fp512.rs`: `p = 2^512 - 875`. -/
def fp512 : FieldParams where
  limbs := 8
  pLimbs := #v[
    0xFFFFFFFFFFFFFC95, 0xFFFFFFFFFFFFFFFF, 0xFFFFFFFFFFFFFFFF, 0xFFFFFFFFFFFFFFFF,
    0xFFFFFFFFFFFFFFFF, 0xFFFFFFFFFFFFFFFF, 0xFFFFFFFFFFFFFFFF, 0xFFFFFFFFFFFFFFFF]
  c := 875
  pMinus2 := #v[
    0xFF, 0xFF, 0xFF, 0xFF, 0xFF, 0xFF, 0xFF, 0xFF, 0xFF, 0xFF, 0xFF, 0xFF,
    0xFF, 0xFF, 0xFF, 0xFF, 0xFF, 0xFF, 0xFF, 0xFF, 0xFF, 0xFF, 0xFF, 0xFF,
    0xFF, 0xFF, 0xFF, 0xFF, 0xFF, 0xFF, 0xFF, 0xFF, 0xFF, 0xFF, 0xFF, 0xFF,
    0xFF, 0xFF, 0xFF, 0xFF, 0xFF, 0xFF, 0xFF, 0xFF, 0xFF, 0xFF, 0xFF, 0xFF,
    0xFF, 0xFF, 0xFF, 0xFF, 0xFF, 0xFF, 0xFF, 0xFF, 0xFF, 0xFF, 0xFF, 0xFF,
    0xFF, 0xFF, 0xFC, 0x93]
  pMinus1Over2 := #v[
    0x7F, 0xFF, 0xFF, 0xFF, 0xFF, 0xFF, 0xFF, 0xFF, 0xFF, 0xFF, 0xFF, 0xFF,
    0xFF, 0xFF, 0xFF, 0xFF, 0xFF, 0xFF, 0xFF, 0xFF, 0xFF, 0xFF, 0xFF, 0xFF,
    0xFF, 0xFF, 0xFF, 0xFF, 0xFF, 0xFF, 0xFF, 0xFF, 0xFF, 0xFF, 0xFF, 0xFF,
    0xFF, 0xFF, 0xFF, 0xFF, 0xFF, 0xFF, 0xFF, 0xFF, 0xFF, 0xFF, 0xFF, 0xFF,
    0xFF, 0xFF, 0xFF, 0xFF, 0xFF, 0xFF, 0xFF, 0xFF, 0xFF, 0xFF, 0xFF, 0xFF,
    0xFF, 0xFF, 0xFE, 0x4A]
  pMinus1Over4 := #v[
    0x3F, 0xFF, 0xFF, 0xFF, 0xFF, 0xFF, 0xFF, 0xFF, 0xFF, 0xFF, 0xFF, 0xFF,
    0xFF, 0xFF, 0xFF, 0xFF, 0xFF, 0xFF, 0xFF, 0xFF, 0xFF, 0xFF, 0xFF, 0xFF,
    0xFF, 0xFF, 0xFF, 0xFF, 0xFF, 0xFF, 0xFF, 0xFF, 0xFF, 0xFF, 0xFF, 0xFF,
    0xFF, 0xFF, 0xFF, 0xFF, 0xFF, 0xFF, 0xFF, 0xFF, 0xFF, 0xFF, 0xFF, 0xFF,
    0xFF, 0xFF, 0xFF, 0xFF, 0xFF, 0xFF, 0xFF, 0xFF, 0xFF, 0xFF, 0xFF, 0xFF,
    0xFF, 0xFF, 0xFF, 0x25]
  pPlus3Over8 := #v[
    0x1F, 0xFF, 0xFF, 0xFF, 0xFF, 0xFF, 0xFF, 0xFF, 0xFF, 0xFF, 0xFF, 0xFF,
    0xFF, 0xFF, 0xFF, 0xFF, 0xFF, 0xFF, 0xFF, 0xFF, 0xFF, 0xFF, 0xFF, 0xFF,
    0xFF, 0xFF, 0xFF, 0xFF, 0xFF, 0xFF, 0xFF, 0xFF, 0xFF, 0xFF, 0xFF, 0xFF,
    0xFF, 0xFF, 0xFF, 0xFF, 0xFF, 0xFF, 0xFF, 0xFF, 0xFF, 0xFF, 0xFF, 0xFF,
    0xFF, 0xFF, 0xFF, 0xFF, 0xFF, 0xFF, 0xFF, 0xFF, 0xFF, 0xFF, 0xFF, 0xFF,
    0xFF, 0xFF, 0xFF, 0x93]
  w := #v[
    0x278BE8FE8CBA96E3, 0x04014FA539A5B43A, 0xBB8D8350BE2041AB, 0xCA1E4B1E98EBFDF4,
    0xC423A043A8BAB910, 0xEAE556FC1EA5D8F2, 0x12E6867995AC2A62, 0x658DDAB5D2027479]
  two_le_limbs := by decide
  complement := by decide +kernel
  c_small := by decide
  pMinus2_eq := by decide +kernel
  pMinus1Over2_eq := by decide +kernel
  pMinus1Over4_eq := by decide +kernel
  pPlus3Over8_eq := by decide +kernel
  w_squared := by decide +kernel

/-- `limbs_be.to_be_bytes()` of one word. -/
def toBeBytes8 (w : UInt64) : Vector UInt8 8 := (toLeBytes w).reverse

/-- `u64::from_be_bytes`. -/
def fromBeBytes8 (bytes : Vector UInt8 8) : UInt64 := fromLeBytes bytes.reverse

/-- `for &byte in bytes { for bit_idx in (0..8).rev() { .. } }`: the body gets
`(byte >> bit_idx) & 1`. -/
def forBits {σ : Type} (bytes : List UInt8) (body : σ → UInt64 → σ) (init : σ) : σ :=
  bytes.foldl (fun s byte =>
    Fin.foldr 8 (fun bitIdx s =>
      body s ((byte >>> UInt8.ofNat bitIdx.val) &&& 1).toUInt64) s) init

/-- The words of a field element. -/
structure FieldElement (f : FieldParams) where
  limbs : Vector UInt64 f.limbs
deriving DecidableEq

section Words

variable {n : Nat}

/-- `(a & mask) | (b & !mask)`, word by word. -/
def maskSelect (mask : UInt64) (a b : Vector UInt64 n) : Vector UInt64 n :=
  Vector.ofFn fun i : Fin n => (a[i] &&& mask) ||| (b[i] &&& ~~~mask)

/-- `[w, 0, .., 0]`. -/
def lowWord (w : UInt64) : Vector UInt64 n :=
  Vector.ofFn fun i : Fin n => if i.val = 0 then w else 0

/-- `mul_small`: a product with one word, and its top word. -/
def mulSmall (a : Vector UInt64 n) (c : UInt64) : Vector UInt64 n × UInt64 :=
  Fin.foldl n (fun (r, carry) i =>
    let (lo, hi) := mac 0 a[i] c carry
    (r.set i lo i.isLt, hi)) (Vector.replicate n 0, 0)

theorem ripple_lt (i : Fin n) (k : Fin (n - i.val)) : i.val + n + k.val < 2 * n := by
  omega

/-- The carry of row `i`, rippled through the words above the row. -/
def rippleCarry (r : Vector UInt64 (2 * n)) (i : Fin n) (carry : UInt64) :
    Vector UInt64 (2 * n) × UInt64 :=
  Fin.foldl (n - i.val) (fun (r, c) k =>
    let (s, c') := adc (getElem r (i.val + n + k.val) (ripple_lt i k)) c 0
    (r.set (i.val + n + k.val) s (ripple_lt i k), c')) (r, carry)

/-- `wide_mul`. -/
def wideMul (a b : Vector UInt64 n) : Vector UInt64 (2 * n) :=
  Fin.foldl n (fun r i =>
    let (r, carry) := mulRow a b r i
    (rippleCarry r i carry).1) (Vector.replicate (2 * n) 0)

/-- `low` of `reduce_wide`. -/
def lowHalf (wide : Vector UInt64 (2 * n)) : Vector UInt64 n :=
  Vector.ofFn fun i : Fin n => wide[i.val]

/-- `high` of `reduce_wide`. -/
def highHalf (wide : Vector UInt64 (2 * n)) : Vector UInt64 n :=
  Vector.ofFn fun i : Fin n => wide[n + i.val]

end Words

namespace FieldElement

variable {f : FieldParams}

/-- `conditional_sub_p`. -/
def conditionalSubP (x : Vector UInt64 f.limbs) : Vector UInt64 f.limbs :=
  let (t, borrow) := subLimbs x f.pLimbs
  let mask := 0 - (borrow ^^^ 1)
  maskSelect mask t x

/-- `reduce_wide`. -/
def reduceWide (wide : Vector UInt64 (2 * f.limbs)) : FieldElement f :=
  let low := lowHalf wide
  let high := highHalf wide
  let (hc, hcTop) := mulSmall high f.c
  let (acc, carry) := addLimbs low hc
  let overflow := carry + hcTop
  let addition := overflow * f.c
  let (acc2, carry2) := addLimbs acc (lowWord addition)
  let addition2 := carry2 * f.c
  let (acc3, _) := addLimbs acc2 (lowWord addition2)
  let r1 := conditionalSubP acc3
  let r2 := conditionalSubP r1
  let r3 := conditionalSubP r2
  ⟨r3⟩

/-- `ZERO`. -/
def zero : FieldElement f := ⟨Vector.replicate f.limbs 0⟩

/-- `ONE`. -/
def one : FieldElement f := ⟨lowWord 1⟩

/-- `from_be_bytes`: nothing is reduced. -/
def fromBeBytes (bytes : Vector UInt8 (8 * f.limbs)) : FieldElement f :=
  ⟨Vector.ofFn fun j : Fin f.limbs =>
    let i := f.limbs - 1 - j.val
    fromBeBytes8 (Vector.ofFn fun k : Fin 8 => bytes[i * 8 + k.val])⟩

/-- `to_be_bytes`. -/
def toBeBytes (a : FieldElement f) : Vector UInt8 (8 * f.limbs) :=
  Vector.ofFn fun k : Fin (8 * f.limbs) =>
    (toBeBytes8 (a.limbs[f.limbs - 1 - k.val / 8]))[k.val % 8]

/-- `add`. -/
def add (a b : FieldElement f) : FieldElement f :=
  let (r, carry) := addLimbs a.limbs b.limbs
  let (t, borrow) := subLimbs r f.pLimbs
  let takeT := carry ||| (borrow ^^^ 1)
  let mask := 0 - takeT
  ⟨maskSelect mask t r⟩

/-- `sub`. -/
def sub (a b : FieldElement f) : FieldElement f :=
  let (r, borrow) := subLimbs a.limbs b.limbs
  let mask := 0 - borrow
  ⟨(subLimbs r (lowWord (f.c &&& mask))).1⟩

/-- `multiply`. -/
def multiply (a b : FieldElement f) : FieldElement f := reduceWide (wideMul a.limbs b.limbs)

/-- `square`. -/
def square (a : FieldElement f) : FieldElement f := a.multiply a

/-- `select`: `a` for bit 1, `b` for bit 0. -/
def select (bit : UInt64) (a b : FieldElement f) : FieldElement f :=
  ⟨maskSelect (0 - bit) a.limbs b.limbs⟩

/-- `pow_mod`. -/
def powMod (a : FieldElement f) (exponent : Vector UInt8 (8 * f.limbs)) : FieldElement f :=
  forBits exponent.toList (fun result bit =>
    let result := result.square
    let candidate := result.multiply a
    select bit candidate result) one

/-- `invert`: zero goes to zero. -/
def invert (a : FieldElement f) : FieldElement f := a.powMod f.pMinus2

/-- `euler_criterion`. -/
def eulerCriterion (a : FieldElement f) : Bool := a.powMod f.pMinus1Over2 == one

/-- `sqrt`. -/
def sqrt (a : FieldElement f) : FieldElement f :=
  let g := a.powMod f.pMinus1Over4
  let z := a.powMod f.pPlus3Over8
  let pMinus1 : FieldElement f := ⟨f.pLimbs.set 0 (getElem f.pLimbs 0 f.limbs_pos - 1) f.limbs_pos⟩
  let isMinusOne := if g = pMinus1 then 1 else 0
  let zCorrected := (⟨f.w⟩ : FieldElement f).multiply z
  select isMinusOne zCorrected z

/-- `from_candidate_bytes`: `None` from `p` on. -/
def fromCandidateBytes (bytes : Vector UInt8 (8 * f.limbs)) : Option (FieldElement f) :=
  let candidate : FieldElement f := fromBeBytes bytes
  let borrow := (subLimbs candidate.limbs f.pLimbs).2
  if borrow = 1 then some candidate else none

end FieldElement

/-! ## The bits of an exponent -/

theorem beNat_concat (bytes : List UInt8) (byte : UInt8) :
    beNat (bytes ++ [byte]) = beNat bytes * 2 ^ 8 + byte.toNat := by
  rw [beNat_append, Nat.mul_comm]
  rfl

theorem byte_bit_cases (byte : UInt8) (i : Fin 8) :
    ((byte >>> UInt8.ofNat i.val) &&& 1).toUInt64 = 0
      ∨ ((byte >>> UInt8.ofNat i.val) &&& 1).toUInt64 = 1 := by
  have hbit := toNat_byte_bit byte i
  obtain h | h : byte.toNat / 2 ^ i.val % 2 = 0 ∨ byte.toNat / 2 ^ i.val % 2 = 1 := by omega
  · exact .inl (UInt64.toNat_inj.mp (hbit.trans h))
  · exact .inr (UInt64.toNat_inj.mp (hbit.trans h))

/-- What the loop over the bits of an exponent keeps, the number read so far beside it. -/
theorem forBits_invariant {σ : Type} {body : σ → UInt64 → σ} {init : σ} (P : Nat → σ → Prop)
    (hinit : P 0 init) (hzero : ∀ k s, P k s → P (2 * k) (body s 0))
    (hone : ∀ k s, P k s → P (2 * k + 1) (body s 1)) (bytes : List UInt8) :
    P (beNat bytes) (forBits bytes body init) := by
  induction bytes using List.reverseRecOn with
  | nil => exact hinit
  | append_singleton bytes byte ih =>
    rw [forBits, List.foldl_append, List.foldl_cons, List.foldl_nil, beNat_concat]
    refine foldr_bits byte.toNat_lt P ?_ ih
    intro i k s hs
    rw [← toNat_byte_bit byte i]
    obtain h | h := byte_bit_cases byte i <;> rw [h]
    · exact hzero k s hs
    · exact hone k s hs

/-- Two loops over the same bits stay related. -/
theorem forBits_rel {σ τ : Type} {body : σ → UInt64 → σ} {body' : τ → UInt64 → τ} {init : σ}
    {init' : τ} (R : σ → τ → Prop) (hinit : R init init')
    (hstep : ∀ s t, R s t → ∀ bit, bit = 0 ∨ bit = 1 → R (body s bit) (body' t bit))
    (bytes : List UInt8) : R (forBits bytes body init) (forBits bytes body' init') := by
  induction bytes using List.reverseRecOn with
  | nil => exact hinit
  | append_singleton bytes byte ih =>
    rw [forBits, forBits, List.foldl_append, List.foldl_append, List.foldl_cons, List.foldl_cons]
    refine foldr_rel R ?_ ih
    intro i s t hst
    exact hstep s t hst _ (byte_bit_cases byte i)

/-! ## Words -/

section Words

variable {n : Nat}

theorem ones_and (w : UInt64) : w &&& ((0 : UInt64) - 1) = w := by
  have hones : (0 : UInt64) - 1 = -1 := rfl
  rw [hones, UInt64.and_neg_one]

theorem maskSelect_ones (a b : Vector UInt64 n) : maskSelect (0 - 1) a b = a := by
  apply Vector.ext
  intro i hi
  have hnot : ~~~((0 : UInt64) - 1) = 0 := rfl
  rw [maskSelect, Vector.getElem_ofFn]
  rw [ones_and, hnot, UInt64.and_zero, UInt64.or_zero]
  rfl

theorem maskSelect_zero (a b : Vector UInt64 n) : maskSelect (0 - 0) a b = b := by
  apply Vector.ext
  intro i hi
  have hzero : (0 : UInt64) - 0 = 0 := rfl
  have hnot : ~~~(0 : UInt64) = 0 - 1 := rfl
  rw [maskSelect, Vector.getElem_ofFn]
  rw [hzero, hnot, ones_and, UInt64.and_zero, UInt64.zero_or]
  rfl

theorem value_lowWord (hn : 0 < n) (w : UInt64) : value (lowWord w : Vector UInt64 n) = w.toNat := by
  have hset : (lowWord w : Vector UInt64 n) = (Vector.replicate n 0).set 0 w hn := by
    apply Vector.ext
    intro i hi
    rw [lowWord, Vector.getElem_ofFn, Vector.getElem_set]
    by_cases h : i = 0
    · subst h
      rfl
    · rw [if_neg h, if_neg (Ne.symm h), Vector.getElem_replicate]
  have hvalue := value_set (Vector.replicate n 0) hn w
  rw [limb_zero, value_zero] at hvalue
  rw [hset]
  omega

theorem value_mulSmall (a : Vector UInt64 n) (c : UInt64) :
    value (mulSmall a c).1 + (mulSmall a c).2.toNat * 2 ^ (64 * n) = value a * c.toNat := by
  refine foldl_invariant (fun k (s : Vector UInt64 n × UInt64) =>
    low s.1 k + s.2.toNat * 2 ^ (64 * k) = low a k * c.toNat) (by simp) ?_
  rintro i ⟨r, carry⟩ hsum
  have hscaled := word_scaled i.val (mac_spec 0 a[i] c carry)
  have hzero : (0 : UInt64).toNat = 0 := rfl
  simp only [Nat.add_mul, Nat.mul_assoc, FinIndex.getElem_fin, hzero, Nat.zero_add] at hscaled hsum ⊢
  rw [low_set_self r i.isLt, low_succ, limb_of_lt a i.isLt, word_pow_succ, Nat.add_mul]
  linarith only [hsum, hscaled]

/-- The words above a row take its carry, and pass one on only past the last of them. -/
theorem value_rippleCarry (r : Vector UInt64 (2 * n)) (i : Fin n) (carry : UInt64) :
    value (rippleCarry r i carry).1 + (rippleCarry r i carry).2.toNat * 2 ^ (64 * (2 * n))
      = value r + carry.toNat * 2 ^ (64 * (i.val + n)) := by
  have hloop := foldl_invariant (n := n - i.val)
    (f := fun (s : Vector UInt64 (2 * n) × UInt64) k =>
      (s.1.set (i.val + n + k.val) (adc (s.1[i.val + n + k.val]) s.2 0).1 (by omega),
        (adc (s.1[i.val + n + k.val]) s.2 0).2)) (a := (r, carry))
    (fun k s => value s.1 + s.2.toNat * 2 ^ (64 * (i.val + n + k))
      = value r + carry.toNat * 2 ^ (64 * (i.val + n))) rfl (by
      rintro ⟨k, hk⟩ ⟨s, c⟩ hsum
      dsimp only at hsum ⊢
      have hlt : i.val + n + k < 2 * n := by omega
      obtain ⟨hword, -⟩ := adc_spec s[i.val + n + k] c (show (0 : UInt64).toNat ≤ 1 from Nat.zero_le 1)
      have hscaled := word_scaled (i.val + n + k) hword
      have hset := value_set s hlt (adc s[i.val + n + k] c 0).1
      have hzero : (0 : UInt64).toNat = 0 := rfl
      rw [limb_of_lt s hlt] at hset
      rw [← Nat.add_assoc (i.val + n), word_pow_succ]
      simp only [Nat.add_mul, Nat.mul_assoc, hzero, Nat.add_zero] at hscaled hset ⊢
      linarith only [hsum, hscaled, hset])
  have htop : i.val + n + (n - i.val) = 2 * n := by omega
  rw [htop] at hloop
  exact hloop

theorem value_wideMul (a b : Vector UInt64 n) : value (wideMul a b) = value a * value b := by
  refine foldl_invariant (fun k (r : Vector UInt64 (2 * n)) => value r = low a k * value b)
    (by simp) ?_
  rintro i r hsum
  obtain ⟨hrow, -⟩ := value_mulRow a b r i
  have hripple := value_rippleCarry (mulRow a b r i).1 i (mulRow a b r i).2
  have htotal : low a (i.val + 1) * value b
      = low a i.val * value b + a[i].toNat * value b * 2 ^ (64 * i.val) := by
    rw [low_succ, limb_of_lt a i.isLt, Nat.add_mul]
    simp only [FinIndex.getElem_fin]
    ring
  -- nothing is carried out of the top word, since the product so far fits
  have hfits : low a (i.val + 1) * value b < 2 ^ (64 * (2 * n)) := by
    have hle : low a (i.val + 1) < 2 ^ (64 * n) :=
      Nat.lt_of_lt_of_le (low_lt a _) (Nat.pow_le_pow_right (by decide) (by omega))
    have hpow : 2 ^ (64 * (2 * n)) = 2 ^ (64 * n) * 2 ^ (64 * n) := by
      rw [← Nat.pow_add]
      congr 1
      omega
    rw [hpow]
    exact Nat.mul_lt_mul_of_lt_of_le hle (Nat.le_of_lt (value_lt b)) (Nat.two_pow_pos _)
  rw [htotal] at hfits ⊢
  dsimp only
  obtain hzero | hpos := Nat.eq_zero_or_pos (rippleCarry (mulRow a b r i).1 i (mulRow a b r i).2).2.toNat
  · rw [hzero, Nat.zero_mul, Nat.add_zero] at hripple
    omega
  · have hbig := Nat.le_mul_of_pos_left (2 ^ (64 * (2 * n))) hpos
    omega

theorem value_halves (wide : Vector UInt64 (2 * n)) :
    value (lowHalf wide) + value (highHalf wide) * 2 ^ (64 * n) = value wide := by
  have hlow : value (lowHalf wide) = low wide n := by
    rw [value, low, low]
    refine Finset.sum_congr rfl ?_
    intro j hmem
    have hj : j < n := Finset.mem_range.mp hmem
    rw [limb_of_lt _ hj, limb_of_lt wide (by omega)]
    simp [lowHalf]
  have hhigh : value (highHalf wide) * 2 ^ (64 * n)
      = ∑ j ∈ Finset.range n, limb wide (n + j) * 2 ^ (64 * (n + j)) := by
    rw [value, low, Finset.sum_mul]
    refine Finset.sum_congr rfl ?_
    intro j hmem
    have hj : j < n := Finset.mem_range.mp hmem
    rw [limb_of_lt _ hj, limb_of_lt wide (by omega), Nat.mul_add, Nat.pow_add, Nat.mul_assoc,
      Nat.mul_comm (2 ^ (64 * j))]
    simp [highHalf]
  have hsplit : value wide = low wide (n + n) := congrArg (low wide) (Nat.two_mul n)
  rw [hlow, hhigh, hsplit, low, low, Finset.sum_range_add]

end Words

/-! ## Operations on numbers -/

namespace FieldElement

variable {f : FieldParams}

/-- The number the words spell. -/
def toNat (a : FieldElement f) : Nat := value a.limbs

theorem toNat_injective {a b : FieldElement f} (h : a.toNat = b.toNat) : a = b := by
  cases a
  cases b
  rw [mk.injEq]
  exact value_injective h

theorem value_conditionalSubP (x : Vector UInt64 f.limbs) :
    value (conditionalSubP x) = if f.p ≤ value x then value x - f.p else value x := by
  obtain ⟨hborrow, hlt⟩ | ⟨hborrow, hle, hdiff⟩ :
      (subLimbs x f.pLimbs).2 = 1 ∧ value x < f.p ∨ (subLimbs x f.pLimbs).2 = 0 ∧ f.p ≤ value x
        ∧ value (subLimbs x f.pLimbs).1 = value x - f.p := subLimbs_cases x f.pLimbs
  · have hmask : (1 : UInt64) ^^^ 1 = 0 := rfl
    rw [conditionalSubP, if_neg (Nat.not_le_of_lt hlt)]
    dsimp only
    rw [hborrow, hmask, maskSelect_zero]
  · have hmask : (0 : UInt64) ^^^ 1 = 1 := rfl
    rw [conditionalSubP, if_pos hle]
    dsimp only
    rw [hborrow, hmask, maskSelect_ones, hdiff]

/-- Every string of words is below twice the prime. -/
theorem value_conditionalSubP_eq (x : Vector UInt64 f.limbs) :
    value (conditionalSubP x) = value x % f.p := by
  have hlt := value_lt x
  have hsum := f.p_add_c
  have hpow := f.two_pow_le
  have hc := f.c_small
  rw [value_conditionalSubP]
  split
  · rename_i hle
    rw [Nat.mod_eq_sub_mod hle, Nat.mod_eq_of_lt (by omega)]
  · rename_i hgt
    rw [Nat.mod_eq_of_lt (by omega)]

/-- `2^(64 n)` counts as `c`. -/
theorem fold_mod (x h : Nat) : (x + h * 2 ^ (64 * f.limbs)) % f.p = (x + h * f.c.toNat) % f.p := by
  rw [← f.p_add_c, Nat.mul_add, Nat.add_comm (h * f.p), ← Nat.add_assoc, Nat.add_mul_mod_self_right]

theorem value_addLow (a : Vector UInt64 f.limbs) (w : UInt64) :
    value (addLimbs a (lowWord w)).1 + (addLimbs a (lowWord w)).2.toNat * 2 ^ (64 * f.limbs)
        = value a + w.toNat
      ∧ (addLimbs a (lowWord w)).2.toNat ≤ 1 := by
  have h := value_addLimbs a (lowWord w)
  rwa [value_lowWord f.limbs_pos] at h

theorem toNat_reduceWide (wide : Vector UInt64 (2 * f.limbs)) :
    (reduceWide wide).toNat = value wide % f.p := by
  have hsum := f.p_add_c
  have hpow := f.two_pow_le
  have hc := f.c_small
  have hhalves := value_halves wide
  have hproduct := value_mulSmall (highHalf wide) f.c
  obtain ⟨hacc, hcarry⟩ := value_addLimbs (lowHalf wide) (mulSmall (highHalf wide) f.c).1
  unfold reduceWide
  dsimp only
  generalize mulSmall (highHalf wide) f.c = hc' at *
  generalize addLimbs (lowHalf wide) hc'.1 = acc at *
  -- the product with `c` overflows by at most `c`
  have htop : hc'.2.toNat ≤ f.c.toNat := by
    have hle : hc'.2.toNat * 2 ^ (64 * f.limbs) ≤ f.c.toNat * 2 ^ (64 * f.limbs) := by
      have hhigh : value (highHalf wide) * f.c.toNat ≤ 2 ^ (64 * f.limbs) * f.c.toNat :=
        Nat.mul_le_mul_right _ (Nat.le_of_lt (value_lt _))
      rw [Nat.mul_comm (2 ^ (64 * f.limbs))] at hhigh
      omega
    exact Nat.le_of_mul_le_mul_right hle (Nat.two_pow_pos _)
  have hoverflow : (acc.2 + hc'.2).toNat = acc.2.toNat + hc'.2.toNat := by
    rw [UInt64.toNat_add, Nat.mod_eq_of_lt (by omega)]
  have hsmall : (acc.2.toNat + hc'.2.toNat) * f.c.toNat ≤ 2 ^ 17 * 2 ^ 16 :=
    Nat.mul_le_mul (by omega) (by omega)
  have haddition : ((acc.2 + hc'.2) * f.c).toNat = (acc.2.toNat + hc'.2.toNat) * f.c.toNat := by
    rw [UInt64.toNat_mul, hoverflow, Nat.mod_eq_of_lt (by omega)]
  obtain ⟨hacc2, hcarry2⟩ := value_addLow acc.1 ((acc.2 + hc'.2) * f.c)
  generalize addLimbs acc.1 (lowWord ((acc.2 + hc'.2) * f.c)) = acc2 at *
  rw [haddition] at hacc2
  have haddition2 : (acc2.2 * f.c).toNat = acc2.2.toNat * f.c.toNat := by
    have hle : acc2.2.toNat * f.c.toNat ≤ 1 * 2 ^ 16 := Nat.mul_le_mul hcarry2 (by omega)
    rw [UInt64.toNat_mul, Nat.mod_eq_of_lt (by omega)]
  obtain ⟨hacc3, hcarry3⟩ := value_addLow acc2.1 (acc2.2 * f.c)
  generalize addLimbs acc2.1 (lowWord (acc2.2 * f.c)) = acc3 at *
  rw [haddition2] at hacc3
  -- after a second carry next to nothing is left, so there is no third
  have hlast : acc3.2.toNat = 0 := by
    have hlt := value_lt acc.1
    have hlt2 := value_lt acc2.1
    obtain h | h : acc2.2.toNat = 0 ∨ acc2.2.toNat = 1 := by omega
    · rw [h, Nat.zero_mul] at hacc3
      have hone := hcarry3
      obtain h3 | h3 : acc3.2.toNat = 0 ∨ acc3.2.toNat = 1 := by omega
      · exact h3
      · rw [h3] at hacc3
        omega
    · rw [h] at hacc2 hacc3
      obtain h3 | h3 : acc3.2.toNat = 0 ∨ acc3.2.toNat = 1 := by omega
      · exact h3
      · rw [h3] at hacc3
        omega
  rw [hlast, Nat.zero_mul, Nat.add_zero] at hacc3
  have hchain : value acc3.1 % f.p = value wide % f.p :=
    calc value acc3.1 % f.p
      _ = (value acc2.1 + acc2.2.toNat * 2 ^ (64 * f.limbs)) % f.p := by rw [hacc3, fold_mod]
      _ = (value acc.1 + (acc.2.toNat + hc'.2.toNat) * 2 ^ (64 * f.limbs)) % f.p := by
        rw [hacc2, fold_mod]
      _ = (value (lowHalf wide) + value (highHalf wide) * f.c.toNat) % f.p := by
        rw [← hproduct, ← Nat.add_assoc, ← hacc, Nat.add_mul, Nat.add_assoc]
      _ = value wide % f.p := by rw [← fold_mod, hhalves]
  rw [toNat, value_conditionalSubP_eq, value_conditionalSubP_eq, value_conditionalSubP_eq,
    Nat.mod_mod, Nat.mod_mod, hchain]

theorem toNat_multiply (a b : FieldElement f) :
    (multiply a b).toNat = a.toNat * b.toNat % f.p := by
  rw [multiply, toNat_reduceWide, value_wideMul]
  rfl

theorem toNat_add {a b : FieldElement f} (ha : a.toNat < f.p) (hb : b.toNat < f.p) :
    (add a b).toNat = (a.toNat + b.toNat) % f.p := by
  have hp := f.p_add_c
  obtain ⟨hsum, hcarry⟩ := value_addLimbs a.limbs b.limbs
  have hlt := value_lt (addLimbs a.limbs b.limbs).1
  change value a.limbs < f.p at ha
  change value b.limbs < f.p at hb
  rw [add, toNat, toNat, toNat]
  dsimp only
  generalize addLimbs a.limbs b.limbs = r at *
  obtain ⟨hborrow, hsmall⟩ | ⟨hborrow, hle, hdiff⟩ :
      (subLimbs r.1 f.pLimbs).2 = 1 ∧ value r.1 < f.p ∨ (subLimbs r.1 f.pLimbs).2 = 0
        ∧ f.p ≤ value r.1 ∧ value (subLimbs r.1 f.pLimbs).1 = value r.1 - f.p :=
    subLimbs_cases r.1 f.pLimbs
  · obtain ⟨hsub, -⟩ := value_subLimbs r.1 f.pLimbs
    rw [hborrow] at hsub ⊢
    obtain h | h : r.2.toNat = 0 ∨ r.2.toNat = 1 := by omega
    · -- neither a carry nor room for a subtraction
      have hzero : r.2 = 0 := UInt64.toNat_inj.mp h
      have hmask : (0 : UInt64) ||| (1 ^^^ 1) = 0 := rfl
      rw [h, Nat.zero_mul, Nat.add_zero] at hsum
      rw [hzero, hmask, maskSelect_zero, hsum, Nat.mod_eq_of_lt (by omega)]
    · have hone : r.2 = 1 := UInt64.toNat_inj.mp h
      have hmask : (1 : UInt64) ||| (1 ^^^ 1) = 1 := rfl
      have hdouble : value (subLimbs r.1 f.pLimbs).1 + f.p = value a.limbs + value b.limbs := by
        have hword : (1 : UInt64).toNat = 1 := rfl
        rw [hword] at hsub
        rw [h] at hsum
        change _ + f.p = _ at hsub
        omega
      rw [hone, hmask, maskSelect_ones, ← hdouble, Nat.add_mod_right, Nat.mod_eq_of_lt (by omega)]
  · have hzero : r.2.toNat = 0 := by
      obtain h | h : r.2.toNat = 0 ∨ r.2.toNat = 1 := by omega
      · exact h
      · rw [h] at hsum
        omega
    have hword : r.2 = 0 := UInt64.toNat_inj.mp hzero
    have hmask : (0 : UInt64) ||| (0 ^^^ 1) = 1 := rfl
    rw [hzero, Nat.zero_mul, Nat.add_zero] at hsum
    rw [hborrow, hword, hmask, maskSelect_ones, hdiff, hsum, Nat.mod_eq_sub_mod (by omega),
      Nat.mod_eq_of_lt (by omega)]

theorem toNat_sub {a b : FieldElement f} (ha : a.toNat < f.p) (hb : b.toNat < f.p) :
    ((sub a b).toNat + b.toNat) % f.p = a.toNat ∧ (sub a b).toNat < f.p := by
  have hp := f.p_add_c
  have hpos := f.limbs_pos
  obtain ⟨hdiff, -⟩ := value_subLimbs a.limbs b.limbs
  have hcases := subLimbs_cases a.limbs b.limbs
  have hlt := value_lt (subLimbs a.limbs b.limbs).1
  change value a.limbs < f.p at ha
  change value b.limbs < f.p at hb
  rw [sub, toNat, toNat, toNat]
  dsimp only
  generalize subLimbs a.limbs b.limbs = r at *
  obtain ⟨hinner, -⟩ := value_subLimbs r.1 (lowWord (f.c &&& (0 - r.2)))
  have hcases' := subLimbs_cases r.1 (lowWord (f.c &&& (0 - r.2)))
  rw [value_lowWord hpos] at hinner hcases'
  generalize subLimbs r.1 (lowWord (f.c &&& (0 - r.2))) = s at *
  obtain ⟨hborrow, hsmall⟩ | ⟨hborrow, hle, hvalue⟩ := hcases
  · -- `2^(64 n)` was borrowed, `c` of it too much
    have hword : (1 : UInt64).toNat = 1 := rfl
    rw [hborrow, ones_and] at hinner hcases'
    rw [hborrow, hword] at hdiff
    have hone : s.2 = 0 := by
      obtain ⟨-, hbad⟩ | ⟨h, -⟩ := hcases'
      · omega
      · exact h
    have hzero : (0 : UInt64).toNat = 0 := rfl
    rw [hone, hzero, Nat.zero_mul, Nat.add_zero] at hinner
    have hresult : value s.1 + value b.limbs = value a.limbs + f.p := by omega
    rw [hresult, Nat.add_mod_right, Nat.mod_eq_of_lt ha]
    exact ⟨rfl, by omega⟩
  · have hmask : f.c &&& (0 - 0) = 0 := by simp
    have hzero : (0 : UInt64).toNat = 0 := rfl
    rw [hborrow, hmask, hzero] at hinner hcases'
    have hone : s.2 = 0 := by
      obtain ⟨-, hbad⟩ | ⟨h, -⟩ := hcases'
      · omega
      · exact h
    rw [hone, hzero, Nat.zero_mul, Nat.add_zero, Nat.add_zero] at hinner
    rw [hinner, hvalue, Nat.sub_add_cancel hle, Nat.mod_eq_of_lt ha]
    exact ⟨rfl, by omega⟩

theorem select_one (a b : FieldElement f) : select 1 a b = a := by
  rw [select, maskSelect_ones]

theorem select_zero (a b : FieldElement f) : select 0 a b = b := by
  rw [select, maskSelect_zero]

/-! ## Byte strings -/

theorem getElem_toBeBytes8 (w : UInt64) {j : Nat} (h : j < 8) :
    (toBeBytes8 w)[j] = (w >>> UInt64.ofNat ((7 - j) * 8)).toUInt8 := by
  apply UInt8.toNat_inj.mp
  rw [toBeBytes8, Vector.getElem_reverse, toLeBytes, getElem_leBytes, UInt64.toNat_toUInt8,
    toNat_shiftRight_ofNat _ (by omega), UInt8.toNat_ofNat', Nat.shiftRight_eq_div_pow]
  have hplace : 8 - 1 - j = 7 - j := by omega
  rw [hplace, Nat.mul_comm 8]

/-- Word by word is byte by byte. -/
theorem toBeBytes_eq (a : FieldElement f) :
    a.toBeBytes = limbsToBeBytes (8 * f.limbs) (Nat.le_refl _) a.limbs := by
  apply Vector.ext
  intro k hk
  rw [toBeBytes, limbsToBeBytes, Vector.getElem_ofFn, Vector.getElem_ofFn]
  dsimp only
  have hword : (8 * f.limbs - 1 - k) / 8 = f.limbs - 1 - k / 8 := by omega
  have hplace : (8 * f.limbs - 1 - k) % 8 = 7 - k % 8 := by omega
  rw [getElem_toBeBytes8 _ (Nat.mod_lt k (by decide))]
  simp only [hword, hplace]

theorem toBeBytes_fromBeBytes (bytes : Vector UInt8 (8 * f.limbs)) :
    (fromBeBytes bytes : FieldElement f).toBeBytes = bytes := by
  apply Vector.ext
  intro k hk
  have hback : f.limbs - 1 - (f.limbs - 1 - k / 8) = k / 8 := by omega
  have hsplit : k / 8 * 8 + k % 8 = k := by omega
  simp only [toBeBytes, fromBeBytes, Vector.getElem_ofFn, toBeBytes8, fromBeBytes8,
    toLeBytes_fromLeBytes, Vector.reverse_reverse, hback, hsplit]

theorem beNat_toBeBytes (a : FieldElement f) : beNat a.toBeBytes.toList = a.toNat := by
  have hlt := value_lt a.limbs
  have hpow : 256 ^ (8 * f.limbs) = 2 ^ (64 * f.limbs) := by
    rw [show 256 = 2 ^ 8 from rfl, ← Nat.pow_mul]
    congr 1
    omega
  rw [toBeBytes_eq, beNat_limbsToBeBytes, hpow, Nat.mod_eq_of_lt hlt]
  rfl

theorem toNat_fromBeBytes (bytes : Vector UInt8 (8 * f.limbs)) :
    (fromBeBytes bytes : FieldElement f).toNat = beNat bytes.toList := by
  rw [← beNat_toBeBytes, toBeBytes_fromBeBytes]

theorem fromBeBytes_toBeBytes (a : FieldElement f) : fromBeBytes a.toBeBytes = a := by
  apply toNat_injective
  rw [toNat_fromBeBytes, beNat_toBeBytes]

/-- Only reduced encodings are taken. -/
theorem fromCandidateBytes_eq (bytes : Vector UInt8 (8 * f.limbs)) :
    fromCandidateBytes bytes
      = if beNat bytes.toList < f.p then some (fromBeBytes bytes : FieldElement f) else none := by
  have hcases : (subLimbs (fromBeBytes bytes : FieldElement f).limbs f.pLimbs).2 = 1
        ∧ (fromBeBytes bytes : FieldElement f).toNat < f.p
      ∨ (subLimbs (fromBeBytes bytes : FieldElement f).limbs f.pLimbs).2 = 0
        ∧ f.p ≤ (fromBeBytes bytes : FieldElement f).toNat := by
    obtain h | ⟨h, hle, -⟩ := subLimbs_cases (fromBeBytes bytes : FieldElement f).limbs f.pLimbs
    · exact .inl h
    · exact .inr ⟨h, hle⟩
  rw [toNat_fromBeBytes] at hcases
  rw [fromCandidateBytes]
  obtain ⟨hborrow, hlt⟩ | ⟨hborrow, hle⟩ := hcases
  · rw [if_pos hborrow, if_pos hlt]
  · have hne : ¬(0 : UInt64) = 1 := by decide
    rw [hborrow, if_neg hne, if_neg (Nat.not_lt.mpr hle)]

/-! ## Residues -/

/-- The words `a` spell the residue `x`, reduced. -/
structure Represents (a : FieldElement f) (x : ZMod f.p) : Prop where
  lt : a.toNat < f.p
  eq : (a.toNat : ZMod f.p) = x

namespace Represents

variable {a b : FieldElement f} {x y : ZMod f.p}

theorem toNat_eq (h : Represents a x) : a.toNat = x.val := by
  rw [← h.eq, ZMod.val_natCast, Nat.mod_eq_of_lt h.lt]

/-- Words are compared as residues are. -/
theorem eq_iff (ha : Represents a x) (hb : Represents b y) : a = b ↔ x = y := by
  constructor
  · rintro rfl
    rw [← ha.eq, ← hb.eq]
  · rintro rfl
    apply toNat_injective
    rw [ha.toNat_eq, hb.toNat_eq]

theorem of_lt {k : Nat} (h : a.toNat = k) (hlt : k < f.p) : Represents a (k : ZMod f.p) := by
  subst h
  exact ⟨hlt, rfl⟩

theorem of_mod {k : Nat} (h : a.toNat = k % f.p) : Represents a (k : ZMod f.p) := by
  refine ⟨?_, ?_⟩
  · rw [h]
    exact Nat.mod_lt _ (Nat.pos_of_neZero f.p)
  · rw [h, ZMod.natCast_mod]

theorem zero : Represents (zero : FieldElement f) 0 := by
  have h := of_lt (a := (FieldElement.zero : FieldElement f)) (k := 0) value_zero
    (f.lt_p (Nat.two_pow_pos 64))
  rwa [Nat.cast_zero] at h

theorem one : Represents (one : FieldElement f) 1 := by
  have h := of_lt (a := (FieldElement.one : FieldElement f)) (k := 1)
    (value_lowWord f.limbs_pos 1) (f.lt_p (by decide))
  rwa [Nat.cast_one] at h

theorem add (ha : Represents a x) (hb : Represents b y) : Represents (a.add b) (x + y) := by
  have h := of_mod (toNat_add ha.lt hb.lt)
  rwa [Nat.cast_add, ha.eq, hb.eq] at h

theorem sub (ha : Represents a x) (hb : Represents b y) : Represents (a.sub b) (x - y) := by
  obtain ⟨hsum, hlt⟩ := toNat_sub ha.lt hb.lt
  refine ⟨hlt, ?_⟩
  have hcast := congrArg (Nat.cast (R := ZMod f.p)) hsum
  rw [ZMod.natCast_mod, Nat.cast_add, ha.eq, hb.eq] at hcast
  exact eq_sub_of_add_eq hcast

theorem multiply (ha : Represents a x) (hb : Represents b y) :
    Represents (a.multiply b) (x * y) := by
  have h := of_mod (toNat_multiply a b)
  rwa [Nat.cast_mul, ha.eq, hb.eq] at h

theorem square (ha : Represents a x) : Represents a.square (x ^ 2) := by
  rw [sq]
  exact ha.multiply ha

theorem select {bit : UInt64} (hbit : bit = 0 ∨ bit = 1) (ha : Represents a x)
    (hb : Represents b y) : Represents (select bit a b) (if bit = 1 then x else y) := by
  obtain rfl | rfl := hbit
  · rw [select_zero, if_neg (by decide)]
    exact hb
  · rw [select_one, if_pos rfl]
    exact ha

theorem powMod (ha : Represents a x) (exponent : Vector UInt8 (8 * f.limbs)) :
    Represents (a.powMod exponent) (x ^ beNat exponent.toList) := by
  refine forBits_invariant (fun k result => Represents result (x ^ k)) ?_ ?_ ?_ exponent.toList
  · rw [pow_zero]
    exact one
  · intro k result hresult
    dsimp only
    rw [select_zero, Nat.mul_comm, pow_mul]
    exact hresult.square
  · intro k result hresult
    dsimp only
    rw [select_one, pow_succ, Nat.mul_comm, pow_mul]
    exact hresult.square.multiply ha

theorem invert (ha : Represents a x) : Represents a.invert (x ^ (f.p - 2)) := by
  have hexp : beNat f.pMinus2.toList = f.p - 2 := by
    have h := f.pMinus2_eq
    rw [FieldParams.p]
    omega
  rw [← hexp]
  exact ha.powMod f.pMinus2

theorem eulerCriterion (ha : Represents a x) :
    a.eulerCriterion = true ↔ x ^ (f.p / 2) = 1 := by
  have hexp : beNat f.pMinus1Over2.toList = f.p / 2 := by
    have h := f.pMinus1Over2_eq
    rw [FieldParams.p]
    omega
  have hpow := ha.powMod f.pMinus1Over2
  rw [hexp] at hpow
  rw [FieldElement.eulerCriterion, beq_iff_eq]
  exact hpow.eq_iff one

theorem fromBeBytes {bytes : Vector UInt8 (8 * f.limbs)} (h : beNat bytes.toList < f.p) :
    Represents (fromBeBytes bytes : FieldElement f) (beNat bytes.toList : ZMod f.p) :=
  of_lt (toNat_fromBeBytes bytes) h

/-- A reduced element's bytes are a candidate for it. -/
theorem fromCandidateBytes (ha : Represents a x) : fromCandidateBytes a.toBeBytes = some a := by
  rw [fromCandidateBytes_eq, beNat_toBeBytes, if_pos ha.lt, fromBeBytes_toBeBytes]

end Represents

/-- Every candidate taken is reduced. -/
theorem represents_of_fromCandidateBytes {bytes : Vector UInt8 (8 * f.limbs)} {a : FieldElement f}
    (h : fromCandidateBytes bytes = some a) : Represents a (a.toNat : ZMod f.p) := by
  rw [fromCandidateBytes_eq] at h
  split at h
  · rename_i hlt
    obtain rfl := Option.some.inj h
    exact ⟨by rwa [toNat_fromBeBytes], rfl⟩
  · cases h

/-! ## Square roots -/

/-- Taking one off the lowest word borrows nothing, `p` being odd. -/
theorem represents_pMinus1 :
    Represents (⟨f.pLimbs.set 0 (getElem f.pLimbs 0 f.limbs_pos - 1) f.limbs_pos⟩ : FieldElement f)
      (-1) := by
  have hodd := f.pMinus1Over2_eq
  have hset := value_set f.pLimbs f.limbs_pos (getElem f.pLimbs 0 f.limbs_pos - 1)
  have hlow := limb_eq f.pLimbs 0
  rw [limb_of_lt f.pLimbs f.limbs_pos] at hset hlow
  have hpos : 0 < (getElem f.pLimbs 0 f.limbs_pos).toNat := by
    rw [Nat.mul_zero, Nat.pow_zero, Nat.div_one] at hlow
    omega
  have hsub : (getElem f.pLimbs 0 f.limbs_pos - 1).toNat = (getElem f.pLimbs 0 f.limbs_pos).toNat - 1 := by
    have hle : (1 : UInt64) ≤ getElem f.pLimbs 0 f.limbs_pos := UInt64.le_iff_toNat_le.mpr hpos
    rw [UInt64.toNat_sub_of_le _ _ hle]
    rfl
  rw [hsub, Nat.mul_zero, Nat.pow_zero, Nat.mul_one, Nat.mul_one] at hset
  have hvalue : (⟨f.pLimbs.set 0 (getElem f.pLimbs 0 f.limbs_pos - 1) f.limbs_pos⟩ : FieldElement f).toNat
      + 1 = f.p := by
    change value (f.pLimbs.set 0 (getElem f.pLimbs 0 f.limbs_pos - 1) f.limbs_pos) + 1 = value f.pLimbs
    omega
  refine ⟨by omega, ?_⟩
  have hcast := congrArg (Nat.cast (R := ZMod f.p)) hvalue
  rw [Nat.cast_add, ZMod.natCast_self, Nat.cast_one] at hcast
  exact eq_neg_of_add_eq_zero_left hcast

theorem represents_w :
    ∃ w : ZMod f.p, Represents (⟨f.w⟩ : FieldElement f) w ∧ w ^ 2 = -1 := by
  obtain ⟨hlt, hsq⟩ := f.w_squared
  refine ⟨_, Represents.of_lt rfl hlt, ?_⟩
  have hsum : value f.w ^ 2 % f.p + 1 = f.p := hsq
  have hcast := congrArg (Nat.cast (R := ZMod f.p)) hsum
  rw [Nat.cast_add, ZMod.natCast_mod, ZMod.natCast_self, Nat.cast_pow, Nat.cast_one] at hcast
  exact eq_neg_of_add_eq_zero_left hcast

/-- Of a square, `sqrt` is a root: `p` is 5 modulo 8. -/
theorem Represents.sqrt {a : FieldElement f} {x : ZMod f.p} [Fact f.p.Prime] (h : Represents a x)
    (hx : x ^ (f.p / 2) = 1) : ∃ r, Represents a.sqrt r ∧ r ^ 2 = x := by
  have hquarter := f.pMinus1Over4_eq
  have heighth := f.pPlus3Over8_eq
  have hg := h.powMod f.pMinus1Over4
  have hz := h.powMod f.pPlus3Over8
  obtain ⟨w, hw, hw_sq⟩ := represents_w (f := f)
  rw [← FieldParams.p] at hquarter heighth
  generalize beNat f.pMinus1Over4.toList = q at hquarter hg
  generalize beNat f.pPlus3Over8.toList = e at heighth hz
  have hz_sq : (x ^ e) ^ 2 = x ^ q * x := by
    rw [← pow_mul, ← pow_succ]
    congr 1
    omega
  have hq_sq : (x ^ q) ^ 2 = 1 := by
    rw [← pow_mul, ← hx]
    congr 1
    omega
  have hbit := hg.eq_iff represents_pMinus1
  rw [FieldElement.sqrt]
  by_cases hminus : x ^ q = -1
  · -- the power is a root of `-x`
    refine ⟨w * x ^ e, ?_, ?_⟩
    · rw [if_pos (hbit.mpr hminus), select_one]
      exact hw.multiply hz
    · rw [mul_pow, hw_sq, hz_sq, hminus]
      ring
  · refine ⟨x ^ e, ?_, ?_⟩
    · rw [if_neg (mt hbit.mp hminus), select_zero]
      exact hz
    · have hone : x ^ q = 1 := by
        rw [sq] at hq_sq
        exact (mul_self_eq_one_iff.mp hq_sq).resolve_right hminus
      rw [hz_sq, hone, one_mul]

/-! ## Exactness -/

/-- The arithmetic of `FieldElement` is that of the numbers modulo `p`. -/
structure Exact (f : FieldParams) : Prop where
  /-- Every array of twice the width is reduced to its remainder. -/
  reduceWide : ∀ wide : Vector UInt64 (2 * f.limbs),
    (reduceWide wide : FieldElement f).toNat = value wide % f.p
  add : ∀ a b : FieldElement f, a.toNat < f.p → b.toNat < f.p →
    (a.add b).toNat = (a.toNat + b.toNat) % f.p
  sub : ∀ a b : FieldElement f, a.toNat < f.p → b.toNat < f.p →
    (a.sub b).toNat < f.p ∧ ((a.sub b).toNat + b.toNat) % f.p = a.toNat
  multiply : ∀ a b : FieldElement f, (a.multiply b).toNat = a.toNat * b.toNat % f.p
  square : ∀ a : FieldElement f, a.square.toNat = a.toNat ^ 2 % f.p
  /-- Every exponent of the full width. -/
  powMod : ∀ (a : FieldElement f) (e : Vector UInt8 (8 * f.limbs)), a.toNat < f.p →
    (a.powMod e).toNat = a.toNat ^ beNat e.toList % f.p
  invert : f.p.Prime → ∀ a : FieldElement f, a.toNat < f.p →
    (a ≠ FieldElement.zero → a.multiply a.invert = FieldElement.one)
      ∧ (FieldElement.zero : FieldElement f).invert = FieldElement.zero
  /-- The nonzero squares pass, and have a root. -/
  sqrt : f.p.Prime → ∀ v : FieldElement f, v.toNat < f.p →
    (v.eulerCriterion = true ↔ v ≠ FieldElement.zero
        ∧ ∃ r : FieldElement f, r.toNat < f.p ∧ r.square = v)
      ∧ (v.eulerCriterion = true → v.sqrt.toNat < f.p ∧ v.sqrt.square = v)
  candidate : ∀ bytes : Vector UInt8 (8 * f.limbs),
    ((∃ a : FieldElement f, fromCandidateBytes bytes = some a) ↔ beNat bytes.toList < f.p)
      ∧ ∀ a : FieldElement f, fromCandidateBytes bytes = some a →
        a.toNat = beNat bytes.toList ∧ a.toBeBytes = bytes
  encoding : ∀ a : FieldElement f, a.toNat < f.p → fromCandidateBytes a.toBeBytes = some a

theorem invert_exact (hp : f.p.Prime) {a : FieldElement f} (ha : a.toNat < f.p) :
    (a ≠ zero → a.multiply a.invert = one) ∧ (zero : FieldElement f).invert = zero := by
  have hprime : Fact f.p.Prime := ⟨hp⟩
  have htwo := hp.two_le
  have hlt : 2 < f.p := f.lt_p (by decide)
  refine ⟨fun hne => ?_, ?_⟩
  · have hrep : Represents a (a.toNat : ZMod f.p) := ⟨ha, rfl⟩
    have hx : (a.toNat : ZMod f.p) ≠ 0 := mt (hrep.eq_iff Represents.zero).mpr hne
    have hfermat := ZMod.pow_card_sub_one_eq_one hx
    have hexp : f.p - 1 = f.p - 2 + 1 := by omega
    rw [hexp, pow_succ'] at hfermat
    exact ((hrep.multiply hrep.invert).eq_iff Represents.one).mpr hfermat
  · refine (Represents.zero.invert.eq_iff Represents.zero).mpr ?_
    rw [zero_pow (by omega)]

theorem sqrt_exact (hp : f.p.Prime) {v : FieldElement f} (hv : v.toNat < f.p) :
    (v.eulerCriterion = true ↔ v ≠ zero ∧ ∃ r : FieldElement f, r.toNat < f.p ∧ r.square = v)
      ∧ (v.eulerCriterion = true → v.sqrt.toNat < f.p ∧ v.sqrt.square = v) := by
  have hprime : Fact f.p.Prime := ⟨hp⟩
  have hlt : 2 < f.p := f.lt_p (by decide)
  have hrep : Represents v (v.toNat : ZMod f.p) := ⟨hv, rfl⟩
  have hroot (h : v.eulerCriterion = true) : v.sqrt.toNat < f.p ∧ v.sqrt.square = v := by
    obtain ⟨r, hr, hsq⟩ := hrep.sqrt (hrep.eulerCriterion.mp h)
    exact ⟨hr.lt, (hr.square.eq_iff hrep).mpr hsq⟩
  refine ⟨⟨fun h => ⟨?_, _, hroot h⟩, ?_⟩, hroot⟩
  · rintro rfl
    have hzero := Represents.zero.eulerCriterion.mp h
    rw [zero_pow (by omega)] at hzero
    exact zero_ne_one hzero
  · rintro ⟨hne, r, hr, rfl⟩
    have hrrep : Represents r (r.toNat : ZMod f.p) := ⟨hr, rfl⟩
    have hr₀ : (r.toNat : ZMod f.p) ≠ 0 := by
      intro hzero
      refine hne ((hrrep.square.eq_iff Represents.zero).mpr ?_)
      rw [hzero, zero_pow two_ne_zero]
    rw [hrrep.square.eulerCriterion, ← pow_mul]
    have hfermat := ZMod.pow_card_sub_one_eq_one hr₀
    have hodd := f.pMinus1Over2_eq
    have hexp : 2 * (f.p / 2) = f.p - 1 := by
      rw [FieldParams.p]
      omega
    rw [hexp, hfermat]

/-- **The arithmetic of all three fields is exact.** -/
theorem field_exact : (fp256.p = 2 ^ 256 - 435 ∧ fp384.p = 2 ^ 384 - 2147
    ∧ fp512.p = 2 ^ 512 - 875) ∧ ∀ f : FieldParams, Exact f := by
  refine ⟨⟨by decide +kernel, by decide +kernel, by decide +kernel⟩, fun f => ?_⟩
  exact {
    reduceWide := toNat_reduceWide
    add := fun a b ha hb => toNat_add ha hb
    sub := fun a b ha hb => by
      obtain ⟨hsum, hlt⟩ := toNat_sub ha hb
      exact ⟨hlt, hsum⟩
    multiply := toNat_multiply
    square := fun a => by
      rw [sq]
      exact toNat_multiply a a
    powMod := fun a e ha => by
      have hrep : Represents a (a.toNat : ZMod f.p) := ⟨ha, rfl⟩
      have hpow := (hrep.powMod e).toNat_eq
      rw [hpow, ← Nat.cast_pow, ZMod.val_natCast]
    invert := fun hp a ha => invert_exact hp ha
    sqrt := fun hp v hv => sqrt_exact hp hv
    candidate := fun bytes => by
      rw [fromCandidateBytes_eq]
      split
      · rename_i hlt
        refine ⟨iff_of_true ⟨_, rfl⟩ hlt, ?_⟩
        rintro a ⟨⟩
        exact ⟨toNat_fromBeBytes bytes, toBeBytes_fromBeBytes bytes⟩
      · rename_i hge
        refine ⟨iff_of_false ?_ hge, ?_⟩
        · rintro ⟨a, ⟨⟩⟩
        · rintro a ⟨⟩
    encoding := fun a ha => Represents.fromCandidateBytes ⟨ha, rfl⟩ }

end FieldElement

end UaCrypt.Hazmat.Dstu9041
