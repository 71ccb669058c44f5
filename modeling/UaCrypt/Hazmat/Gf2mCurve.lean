import UaCrypt.Hazmat.Gf2mCorrect
import UaCrypt.Lib.BinaryIrreducible
import UaCrypt.Lib.Limbs

/-!
# The products behind GF(2^163) and GF(2^257) (`dstu4145/gf2m163.rs`, `dstu4145/gf2m257.rs`)

What the two field types share at their widths: carry-less multiplication, one shifted row for
each bit, and squaring, which only moves the bits apart. The product from word products is that
of `Gf2mWide`.

- `poly_polyMulWide`, `poly_squareWide`: the polynomial product and square.
- `reduce163`, `reduce257`: the two reductions, and `poly_reduce163`, `poly_reduce257`.
-/

namespace UaCrypt.Hazmat.Gf2mCurve

open Polynomial BinaryPoly BinaryIrreducible Limbs
open Gf2mWide (Elem poly widen poly_widen poly_ofFn words_limb_set_xor below_poly ofWord_and_mask
  polyMulWideHw poly_polyMulWideHw poly_replicate_zero shl poly_shl_of_below)

variable {n : Nat}

/-- `shl1`: one place up, in place. -/
def shl1 (x : Vector UInt64 n) : Vector UInt64 n :=
  (Fin.foldl n (fun (x, carry) limb =>
    (x.set limb ((x[limb] <<< 1) ||| carry) limb.isLt, x[limb] >>> 63)) (x, (0 : UInt64))).1

/-- One bit of `a`: the shifted row is added under the bit's mask. -/
def bitStep (a : Elem n) (s : Vector UInt64 (2 * n) × Vector UInt64 (2 * n)) (bitIndex : Nat)
    (h : bitIndex < 64 * n) : Vector UInt64 (2 * n) × Vector UInt64 (2 * n) :=
  let bitValue := ((a[bitIndex / 64]) >>> UInt64.ofNat (bitIndex % 64)) &&& 1
  let mask := 0 - bitValue
  (Vector.ofFn fun i : Fin (2 * n) => s.1[i] ^^^ (s.2[i] &&& mask), shl1 s.2)

/-- `poly_mul_wide`: a row for each of the first `m` bits of `a`. -/
def polyMulWide (m : Nat) (h : m ≤ 64 * n) (a b : Elem n) : Vector UInt64 (2 * n) :=
  (Fin.foldl m (fun s bitIndex => bitStep a s bitIndex.val (by omega))
    (Vector.replicate (2 * n) 0, widen b)).1

/-- `spread32to64`: bit `i` to bit `2 * i`. -/
def spread32to64 (x : UInt32) : UInt64 :=
  let x := x.toUInt64
  let x := (x ||| (x <<< 16)) &&& 0x0000FFFF0000FFFF
  let x := (x ||| (x <<< 8)) &&& 0x00FF00FF00FF00FF
  let x := (x ||| (x <<< 4)) &&& 0x0F0F0F0F0F0F0F0F
  let x := (x ||| (x <<< 2)) &&& 0x3333333333333333
  (x ||| (x <<< 1)) &&& 0x5555555555555555

/-- `square_wide`: the halves of each limb spread to two limbs. -/
def squareWide (a : Elem n) : Vector UInt64 (2 * n) :=
  Fin.foldl n (fun out i =>
    let lo := a[i].toUInt32
    let hi := (a[i] >>> 32).toUInt32
    (out.set (2 * i.val) (spread32to64 lo)).set (2 * i.val + 1) (spread32to64 hi))
    (Vector.replicate (2 * n) 0)

/-- Word `3 + i` of a product, brought down modulo `x^163 + x^7 + x^6 + x^3 + 1`. -/
def foldWord163 (wide : Vector UInt64 6) (i : Fin 3) : Vector UInt64 6 :=
  let zz := wide[3 + i.val]
  let wide := wide.set (3 + i.val) 0
  let wide := wide.set (i.val + 1)
    (wide[i.val + 1] ^^^ ((zz >>> 28) ^^^ (zz >>> 29) ^^^ (zz >>> 32) ^^^ (zz >>> 35)))
  wide.set i.val (wide[i.val] ^^^ ((zz <<< 36) ^^^ (zz <<< 35) ^^^ (zz <<< 32) ^^^ (zz <<< 29)))

/-- The bits of word 2 from 163 on, brought down. -/
def cleanup163 (wide : Vector UInt64 6) : Vector UInt64 6 :=
  let overflow := wide[2] >>> 35
  let wide := wide.set 2 ((wide[2] <<< 29) >>> 29)
  wide.set 0
    (wide[0] ^^^ (overflow ^^^ (overflow <<< 3) ^^^ (overflow <<< 6) ^^^ (overflow <<< 7)))

/-- `gf2m163::reduce`: words 5, 4 and 3, then the rest of word 2, twice. -/
def reduce163 (wide : Vector UInt64 6) : Elem 3 :=
  let wide := Fin.foldr 3 (fun i wide => foldWord163 wide i) wide
  let wide := cleanup163 (cleanup163 wide)
  #v[wide[0], wide[1], wide[2]]

/-- `h1` of `gf2m257::reduce`: what lies from bit 257 on. -/
def excess257 (wide : Vector UInt64 10) : Vector UInt64 5 :=
  Vector.ofFn fun i => (wide[i.val + 4] >>> 1) ||| (wide[i.val + 5] <<< 63)

/-- `h1_shifted`: twelve places up. -/
def shifted257 (h1 : Vector UInt64 5) : Vector UInt64 5 :=
  Vector.ofFn fun i =>
    if h : i.val = 0 then h1[0] <<< 12 else (h1[i] <<< 12) ||| (h1[i.val - 1] >>> 52)

/-- The first pass: what lies from bit 257 on, brought down. -/
def pass257 (wide : Vector UInt64 10) : Vector UInt64 5 :=
  let h1 := excess257 wide
  let lo1 : Vector UInt64 5 := #v[wide[0], wide[1], wide[2], wide[3], wide[4] &&& 1]
  let h1Shifted := shifted257 h1
  Vector.ofFn fun i => lo1[i] ^^^ h1[i] ^^^ h1Shifted[i]

/-- `gf2m257::reduce`: a second pass for the bits the first one leaves. -/
def reduce257 (wide : Vector UInt64 10) : Elem 5 :=
  let pass1 := pass257 wide
  let h2 := pass1[4] >>> 1
  let h2Shifted := h2 <<< 12
  #v[pass1[0] ^^^ (h2 ^^^ h2Shifted), pass1[1], pass1[2], pass1[3], pass1[4] &&& 1]

/-! ## Multiplication -/

theorem shl1_eq (x : Vector UInt64 n) : shl1 x = shl 1 x := by
  have hloop := foldl_invariant (n := n) (f := fun (s : Vector UInt64 n × UInt64) limb =>
      (s.1.set limb ((s.1[limb] <<< 1) ||| s.2), s.1[limb] >>> 63)) (a := (x, (0 : UInt64)))
    (fun k s => (∀ i (hi : i < n), s.1[i] = if i < k then (shl 1 x)[i] else x[i])
      ∧ s.2 = if h : 0 < k ∧ k ≤ n then x[k - 1] >>> 63 else 0) (by simp) (by
      rintro i ⟨x', carry⟩ ⟨hx, hcarry⟩
      have hsame : x'[i.val] = x[i.val] := by rw [hx i.val i.isLt, if_neg (Nat.lt_irrefl _)]
      refine ⟨?_, ?_⟩
      · intro j hj
        dsimp only
        rw [Vector.getElem_set]
        by_cases hij : i.val = j
        · subst hij
          rw [if_pos rfl, if_pos (Nat.lt_succ_self _)]
          simp only [FinIndex.getElem_fin, hsame, shl, Vector.getElem_ofFn]
          dsimp only at hcarry
          rw [hcarry]
          by_cases h0 : i.val = 0
          · simp [h0]
          · rw [dif_neg h0, dif_pos ⟨Nat.pos_of_ne_zero h0, Nat.le_of_lt i.isLt⟩]
            rfl
        · rw [if_neg hij, hx j hj]
          have hiff : j < i.val ↔ j < i.val + 1 := by omega
          simp only [hiff]
      · have hle : 0 < i.val + 1 ∧ i.val + 1 ≤ n := ⟨Nat.succ_pos _, i.isLt⟩
        rw [dif_pos hle]
        simp only [FinIndex.getElem_fin, hsame, Nat.add_sub_cancel])
  apply Vector.ext
  intro i hi
  have hword := hloop.1 i hi
  rw [if_pos hi] at hword
  exact hword

/-- Coefficient `k` is bit `k % 64` of word `k / 64`. -/
theorem coeff_poly (a : Elem n) {k : Nat} (h : k / 64 < n) :
    (poly a).coeff k = bitCoeff ((a[k / 64].toNat).testBit (k % 64)) := by
  have hwords (w : Nat → UInt64) (t : Nat) (ht : k / 64 < t) :
      (words w t).coeff k = bitCoeff ((w (k / 64)).toNat.testBit (k % 64)) := by
    induction t, ht using Nat.le_induction with
    | base =>
      have hlow := below_words w (k / 64) k (by omega)
      rw [words_succ, coeff_add, hlow, zero_add, coeff_X_pow_mul', if_pos (by omega), ofWord,
        coeff_ofNat]
      congr 2
      omega
    | succ t ht ih =>
      have hle : k < 64 * t := by omega
      rw [words_succ, coeff_add, coeff_X_pow_mul', if_neg (by omega), add_zero, ih]
  rw [poly, hwords _ n h, Gf2mWide.limb_of_lt a h]

theorem words_and_mask (w : Nat → UInt64) (a : UInt64) {k : Nat} (hk : k < 64) (t : Nat) :
    words (fun i => w i &&& ((0 : UInt64) - ((a >>> UInt64.ofNat k) &&& 1))) t
      = C (bitCoeff (a.toNat.testBit k)) * words w t := by
  rw [words, words, Finset.mul_sum]
  refine Finset.sum_congr rfl fun i _ => ?_
  rw [ofWord_and_mask _ a hk]
  ring

theorem poly_bitStep (a : Elem n) (s : Vector UInt64 (2 * n) × Vector UInt64 (2 * n)) {k : Nat}
    (h : k < 64 * n) :
    poly (bitStep a s k h).1 = poly s.1 + C ((poly a).coeff k) * poly s.2 := by
  have hk : k / 64 < n := by omega
  rw [coeff_poly a hk, bitStep]
  dsimp only
  rw [poly_ofFn _ (fun i => Gf2mWide.limb s.1 i ^^^ (Gf2mWide.limb s.2 i
    &&& ((0 : UInt64) - ((a[k / 64] >>> UInt64.ofNat (k % 64)) &&& 1)))), words_xor,
    words_and_mask _ _ (Nat.mod_lt _ (by decide))]
  · rfl
  · intro i
    rw [Gf2mWide.limb_of_lt _ i.isLt, Gf2mWide.limb_of_lt _ i.isLt]
    rfl

/-- After `k` turns the row is `X ^ k * b` and the sum holds the rows of the bits below `k`. -/
theorem poly_polyMulWide {m : Nat} (h : m ≤ 64 * n) {a b : Elem n} (ha : Below m (poly a)) :
    poly (polyMulWide m h a b) = poly a * poly b := by
  have hloop := foldl_invariant (n := m)
    (f := fun s (bitIndex : Fin m) => bitStep a s bitIndex.val (by omega))
    (a := (Vector.replicate (2 * n) 0, widen b))
    (fun k s => k ≤ m → poly s.2 = X ^ k * poly b
      ∧ poly s.1 = (∑ i ∈ Finset.range k, C ((poly a).coeff i) * X ^ i) * poly b) (by
      intro _
      refine ⟨?_, ?_⟩
      · rw [poly_widen, pow_zero, one_mul]
      · rw [poly_replicate_zero, Finset.sum_range_zero, zero_mul]) (by
      intro i s hs hi
      obtain ⟨hrow, hsum⟩ := hs (Nat.le_of_lt i.isLt)
      refine ⟨?_, ?_⟩
      · have hbelow : Below (64 * n + i.val) (poly s.2) := by
          rw [hrow]
          exact (below_poly b).X_pow_mul i.val
        have hshift : (bitStep a s i.val (by omega)).2 = shl 1 s.2 := shl1_eq s.2
        rw [hshift, poly_shl_of_below (by decide) (by decide) hbelow (by omega), hrow]
        ring
      · rw [poly_bitStep, hsum, hrow, Finset.sum_range_succ]
        ring)
  have hbits : (∑ i ∈ Finset.range m, C ((poly a).coeff i) * X ^ i) = poly a := by
    ext d
    rw [finsetSum_coeff]
    simp only [coeff_C_mul_X_pow]
    rw [Finset.sum_ite_eq (Finset.range m) d]
    split
    · rfl
    · rename_i hd
      rw [ha d (by simpa using hd)]
  have hsum := (hloop (Nat.le_refl m)).2
  rwa [hbits] at hsum

/-! ## Squaring -/

/-- Where at most one of the two halves can have a bit, OR is XOR. -/
theorem or_shiftLeft_and {t mask mask' h : Nat} (ht : t &&& mask' = t)
    (hdisjoint : mask &&& (mask' &&& (mask' <<< h)) = 0) :
    (t ||| (t <<< h)) &&& mask = (t ^^^ (t <<< h)) &&& mask := by
  refine Nat.eq_of_testBit_eq fun i => ?_
  have hnone := congrArg (fun x => x.testBit i) hdisjoint
  have hin (j : Nat) : t.testBit j = (t.testBit j && mask'.testBit j) := by
    rw [← Nat.testBit_and, ht]
  have hi := hin i
  have hih := hin (i - h)
  simp only [Nat.testBit_and, Nat.testBit_or, Nat.testBit_xor, Nat.testBit_shiftLeft,
    Nat.zero_testBit] at hnone ⊢
  revert hnone hi hih
  generalize t.testBit i = a, t.testBit (i - h) = b, mask.testBit i = c,
    mask'.testBit i = d, mask'.testBit (i - h) = e, decide (h ≤ i) = f
  cases a <;> cases b <;> cases c <;> cases d <;> cases e <;> cases f <;> decide

/-- One step of the spreading, as a number. -/
theorem toNat_spreadStep (x mask mask' : UInt64) {h : Nat} (hh : h < 64)
    (hx : x.toNat &&& mask'.toNat = x.toNat)
    (hdisjoint : mask.toNat &&& (mask'.toNat &&& (mask'.toNat <<< h)) = 0) :
    ((x ||| (x <<< UInt64.ofNat h)) &&& mask).toNat
      = (x.toNat ^^^ (x.toNat <<< h)) &&& mask.toNat := by
  rw [← or_shiftLeft_and hx hdisjoint, UInt64.toNat_and, UInt64.toNat_or,
    toNat_shiftLeft_ofNat x hh]
  refine Nat.eq_of_testBit_eq fun i => ?_
  have hmask (hi : 64 ≤ i) : mask.toNat.testBit i = false :=
    Nat.testBit_lt_two_pow (Nat.lt_of_lt_of_le mask.toNat_lt (Nat.pow_le_pow_right (by decide) hi))
  simp only [Nat.testBit_and, Nat.testBit_or, Nat.testBit_mod_two_pow]
  by_cases hi : i < 64
  · rw [decide_eq_true hi, Bool.true_and]
  · rw [hmask (Nat.le_of_not_lt hi), Bool.and_false, Bool.and_false]

theorem toNat_spread32to64 (x : UInt32) :
    (spread32to64 x).toNat = spread 32 [16, 8, 4, 2, 1] x.toNat := by
  have hin (t mask : Nat) : (t &&& mask) &&& mask = t &&& mask := by
    rw [Nat.and_assoc, Nat.and_self]
  have hx : x.toUInt64.toNat &&& (0xFFFFFFFF : UInt64).toNat = x.toUInt64.toNat := by
    rw [UInt32.toNat_toUInt64]
    exact (Nat.and_two_pow_sub_one_eq_mod _ 32).trans (Nat.mod_eq_of_lt x.toNat_lt)
  have h₁ := toNat_spreadStep x.toUInt64 0x0000FFFF0000FFFF 0xFFFFFFFF (h := 16) (by decide) hx
    (by decide)
  have h₂ := toNat_spreadStep _ 0x00FF00FF00FF00FF 0x0000FFFF0000FFFF (h := 8) (by decide)
    (by rw [h₁, hin]) (by decide)
  have h₃ := toNat_spreadStep _ 0x0F0F0F0F0F0F0F0F 0x00FF00FF00FF00FF (h := 4) (by decide)
    (by rw [h₂, hin]) (by decide)
  have h₄ := toNat_spreadStep _ 0x3333333333333333 0x0F0F0F0F0F0F0F0F (h := 2) (by decide)
    (by rw [h₃, hin]) (by decide)
  have h₅ := toNat_spreadStep _ 0x5555555555555555 0x3333333333333333 (h := 1) (by decide)
    (by rw [h₄, hin]) (by decide)
  rw [h₄, h₃, h₂, h₁, UInt32.toNat_toUInt64] at h₅
  exact h₅

theorem ofWord_spread32to64 (x : UInt32) : ofWord (spread32to64 x) = ofNat x.toNat ^ 2 := by
  rw [ofWord, toNat_spread32to64, ofNat_spread (by decide) x.toNat_lt]

/-- A word squared: its halves, spread. -/
theorem ofWord_sq (w : UInt64) :
    ofWord w ^ 2 = ofWord (spread32to64 w.toUInt32)
      + X ^ 64 * ofWord (spread32to64 (w >>> 32).toUInt32) := by
  have hsplit := ofNat_eq_mod_add_shiftRight w.toNat 32
  have hlo : w.toUInt32.toNat = w.toNat % 2 ^ 32 := UInt64.toNat_toUInt32 w
  have hhi : (w >>> 32).toUInt32.toNat = w.toNat >>> 32 := by
    have hshift : (w >>> 32).toNat = w.toNat >>> 32 := toNat_shiftRight_ofNat w (by decide)
    have hlt := w.toNat_lt
    rw [UInt64.toNat_toUInt32, hshift, Nat.shiftRight_eq_div_pow]
    omega
  rw [ofWord_spread32to64, ofWord_spread32to64, hlo, hhi, ofWord, hsplit, CharTwo.add_sq]
  ring

theorem poly_squareWide (a : Elem n) : poly (squareWide a) = poly a ^ 2 := by
  have hloop := foldl_invariant (n := n) (f := fun (out : Vector UInt64 (2 * n)) i =>
      (out.set (2 * i.val) (spread32to64 a[i].toUInt32)).set (2 * i.val + 1)
        (spread32to64 (a[i] >>> 32).toUInt32)) (a := Vector.replicate (2 * n) 0)
    (fun k out => words (Gf2mWide.limb out) (2 * k) = words (Gf2mWide.limb a) k ^ 2) (by simp) (by
      intro i out hout
      have hlo : 2 * i.val < 2 * n := by omega
      have hhi : 2 * i.val + 1 < 2 * n := by omega
      rw [Nat.mul_succ, words_succ, words_succ, words_succ, CharTwo.add_sq, ← hout, mul_pow,
        Gf2mWide.limb_of_lt a i.isLt, Gf2mWide.limb_set _ hhi, Gf2mWide.limb_set _ hlo,
        Function.update_self, Function.update_of_ne (by omega), Function.update_self]
      have hkeep : words (Function.update (Function.update (Gf2mWide.limb out) (2 * i.val)
            (spread32to64 a[i].toUInt32)) (2 * i.val + 1) (spread32to64 (a[i] >>> 32).toUInt32))
            (2 * i.val) = words (Gf2mWide.limb out) (2 * i.val) := by
        refine words_congr fun j hj => ?_
        rw [Function.update_of_ne (by omega), Function.update_of_ne (by omega)]
      have hsq := ofWord_sq a[i]
      rw [FinIndex.getElem_fin] at hsq
      rw [hkeep, hsq]
      simp only [FinIndex.getElem_fin]
      ring)
  exact hloop

/-! ## Reduction modulo `x^163 + x^7 + x^6 + x^3 + 1` -/

/-- A shifted word and the bits it pushes out, the amounts as words. -/
theorem X_pow_mul_word (w : UInt64) {k : Nat} {left right : UInt64} (hl : UInt64.ofNat k = left)
    (hr : UInt64.ofNat (64 - k) = right) (hpos : 0 < k) (hk : k < 64) :
    X ^ k * ofWord w = ofWord (w <<< left) + X ^ 64 * ofWord (w >>> right) := by
  rw [← hl, ← hr]
  exact X_pow_mul_ofWord w hpos hk

theorem toNat_shiftRight_word (w : UInt64) {k : Nat} {right : UInt64} (hr : UInt64.ofNat k = right)
    (hk : k < 64) : (w >>> right).toNat = w.toNat >>> k := by
  rw [← hr]
  exact toNat_shiftRight_ofNat w hk

theorem ofWord_or_word (w v : UInt64) {k : Nat} {left right : UInt64} (hl : UInt64.ofNat k = left)
    (hr : UInt64.ofNat (64 - k) = right) (hpos : 0 < k) (hk : k < 64) :
    ofWord ((v >>> right) ||| (w <<< left)) = ofWord (v >>> right) + ofWord (w <<< left) := by
  rw [← hl, ← hr, UInt64.or_comm, ofWord_shiftLeft_or w v hpos hk, add_comm]

/-- The lower terms of the two reduction polynomials. -/
def terms163 : List Nat := [7, 6, 3, 0]

def terms257 : List Nat := [12, 0]

/-- A fold keeps the class of what stands below the word it takes. -/
theorem dvd_foldWord163 (wide : Vector UInt64 6) (i : Fin 3) :
    modulus 163 terms163 ∣ words (Gf2mWide.limb wide) (3 + i.val + 1)
      + words (Gf2mWide.limb (foldWord163 wide i)) (3 + i.val) := by
  have hhigh : 3 + i.val < 6 := by omega
  have hnext : i.val + 1 < 6 := by omega
  have hbase : i.val < 6 := by omega
  have hbelow : words (Gf2mWide.limb (wide.set (3 + i.val) 0)) (3 + i.val)
      = words (Gf2mWide.limb wide) (3 + i.val) := by
    refine words_congr fun j hj => ?_
    rw [Gf2mWide.limb_set _ hhigh, Function.update_of_ne (by omega)]
  generalize ht : wide[3 + i.val] = t
  have hsame : (wide.set (3 + i.val) 0)[i.val + 1] = wide[i.val + 1] := by
    rw [Vector.getElem_set_ne _ _ (by omega)]
  have h₇ : X ^ 36 * ofWord t = ofWord (t <<< 36) + X ^ 64 * ofWord (t >>> 28) :=
    X_pow_mul_word t rfl rfl (by decide) (by decide)
  have h₆ : X ^ 35 * ofWord t = ofWord (t <<< 35) + X ^ 64 * ofWord (t >>> 29) :=
    X_pow_mul_word t rfl rfl (by decide) (by decide)
  have h₃ : X ^ 32 * ofWord t = ofWord (t <<< 32) + X ^ 64 * ofWord (t >>> 32) :=
    X_pow_mul_word t rfl rfl (by decide) (by decide)
  have h₀ : X ^ 29 * ofWord t = ofWord (t <<< 29) + X ^ 64 * ofWord (t >>> 35) :=
    X_pow_mul_word t rfl rfl (by decide) (by decide)
  simp only [foldWord163, ht]
  rw [words_limb_set_xor _ hbase (by omega), words_limb_set_xor _ hnext (by omega), hbelow,
    words_succ, Gf2mWide.limb_of_lt wide hhigh, ht]
  simp only [ofWord_xor]
  refine Dvd.intro (X ^ (64 * i.val + 29) * ofWord t) ?_
  have hcancel := CharTwo.add_self_eq_zero (words (Gf2mWide.limb wide) (3 + i.val))
  have hpow : (X : (ZMod 2)[X]) ^ (64 * (3 + i.val)) = X ^ (64 * i.val) * X ^ 29 * X ^ 163 := by
    rw [← pow_add, ← pow_add]
    congr 1
    omega
  simp only [modulus, terms163, List.map_cons, List.map_nil, List.sum_cons, List.sum_nil, hpow]
  linear_combination X ^ (64 * i.val) * (h₇ + h₆ + h₃ + h₀) - hcancel

/-- A shift that pushes nothing out of a word. -/
theorem ofWord_shiftLeft (w : UInt64) {k : Nat} {left : UInt64} (hl : UInt64.ofNat k = left)
    (hk : k < 64) (h : w.toNat < 2 ^ (64 - k)) : ofWord (w <<< left) = X ^ k * ofWord w := by
  have hlt : w.toNat <<< k < 2 ^ 64 := by
    rw [Nat.shiftLeft_eq]
    calc w.toNat * 2 ^ k < 2 ^ (64 - k) * 2 ^ k := Nat.mul_lt_mul_of_pos_right h (Nat.two_pow_pos k)
      _ = 2 ^ 64 := by rw [← Nat.pow_add, Nat.sub_add_cancel (Nat.le_of_lt hk)]
  rw [← hl, ofWord, toNat_shiftLeft_ofNat w hk, Nat.mod_eq_of_lt hlt, ofNat_shiftLeft]
  rfl

/-- The low `64 - k` bits of a word, shifted out at the top and back. -/
theorem toNat_shiftLeft_shiftRight (w : UInt64) {k : Nat} {amount : UInt64}
    (ha : UInt64.ofNat k = amount) (hk : k < 64) :
    ((w <<< amount) >>> amount).toNat = w.toNat % 2 ^ (64 - k) := by
  have hpow : 2 ^ 64 = 2 ^ k * 2 ^ (64 - k) := by rw [← Nat.pow_add, Nat.add_sub_cancel' hk.le]
  rw [← ha, toNat_shiftRight_ofNat _ hk, toNat_shiftLeft_ofNat w hk, Nat.shiftLeft_eq,
    Nat.shiftRight_eq_div_pow, hpow, Nat.mul_comm w.toNat, Nat.mul_mod_mul_left,
    Nat.mul_div_cancel_left _ (Nat.two_pow_pos k)]

/-- The cleanup keeps the class of the low three words. -/
theorem dvd_cleanup163 (wide : Vector UInt64 6) :
    modulus 163 terms163 ∣ words (Gf2mWide.limb wide) 3
      + words (Gf2mWide.limb (cleanup163 wide)) 3 := by
  generalize ht : wide[2] = t
  have hover : (t >>> 35).toNat < 2 ^ 29 := by
    have hlt := t.toNat_lt
    have hshift : (t >>> 35).toNat = t.toNat >>> 35 := toNat_shiftRight_word t rfl (by decide)
    rw [hshift, Nat.shiftRight_eq_div_pow]
    omega
  have hlt (k : Nat) (hk : k ≤ 7) : (t >>> 35).toNat < 2 ^ (64 - k) :=
    Nat.lt_of_lt_of_le hover (Nat.pow_le_pow_right (by decide) (by omega))
  have h₃ : ofWord ((t >>> 35) <<< 3) = X ^ 3 * ofWord (t >>> 35) :=
    ofWord_shiftLeft _ rfl (by decide) (hlt 3 (by decide))
  have h₆ : ofWord ((t >>> 35) <<< 6) = X ^ 6 * ofWord (t >>> 35) :=
    ofWord_shiftLeft _ rfl (by decide) (hlt 6 (by decide))
  have h₇ : ofWord ((t >>> 35) <<< 7) = X ^ 7 * ofWord (t >>> 35) :=
    ofWord_shiftLeft _ rfl (by decide) (hlt 7 (by decide))
  have hsplit : ofWord t = ofWord ((t <<< 29) >>> 29) + X ^ 35 * ofWord (t >>> 35) := by
    have hlow : ((t <<< 29) >>> 29).toNat = t.toNat % 2 ^ 35 :=
      toNat_shiftLeft_shiftRight t (k := 29) rfl (by decide)
    have hhigh : (t >>> 35).toNat = t.toNat >>> 35 := toNat_shiftRight_word t rfl (by decide)
    rw [ofWord, ofWord, ofWord, hlow, hhigh]
    exact ofNat_eq_mod_add_shiftRight t.toNat 35
  have hkeep : words (Gf2mWide.limb (wide.set 2 ((t <<< 29) >>> 29))) 3
      = words (Gf2mWide.limb wide) 2 + X ^ 128 * ofWord ((t <<< 29) >>> 29) := by
    have hlow : words (Function.update (Gf2mWide.limb wide) 2 ((t <<< 29) >>> 29)) 2
        = words (Gf2mWide.limb wide) 2 :=
      words_congr fun j hj => Function.update_of_ne (by omega) _ _
    rw [words_succ, Gf2mWide.limb_set _ (by decide), Function.update_self, hlow]
  have hwide : words (Gf2mWide.limb wide) 3 = words (Gf2mWide.limb wide) 2 + X ^ 128 * ofWord t := by
    rw [words_succ, Gf2mWide.limb_of_lt wide (by decide), ht]
  simp only [cleanup163, ht]
  rw [words_limb_set_xor _ (by decide) (by decide), hkeep, hwide]
  simp only [ofWord_xor, h₃, h₆, h₇]
  refine Dvd.intro (ofWord (t >>> 35)) ?_
  have hcancel := CharTwo.add_self_eq_zero (words (Gf2mWide.limb wide) 2)
  have hcancel' := CharTwo.add_self_eq_zero (ofWord ((t <<< 29) >>> 29))
  simp only [modulus, terms163, List.map_cons, List.map_nil, List.sum_cons, List.sum_nil]
  linear_combination -hcancel - X ^ 128 * hsplit - X ^ 128 * hcancel'

/-- After it nothing is left from bit 163 on. -/
theorem below_cleanup163 (wide : Vector UInt64 6) :
    Below 163 (words (Gf2mWide.limb (cleanup163 wide)) 3) := by
  have hlow : ((wide[2] <<< 29) >>> 29).toNat < 2 ^ 35 := by
    have hmod : ((wide[2] <<< 29) >>> 29).toNat = wide[2].toNat % 2 ^ 35 :=
      toNat_shiftLeft_shiftRight wide[2] (k := 29) rfl (by decide)
    rw [hmod]
    exact Nat.mod_lt _ (by decide)
  have htop : Gf2mWide.limb (cleanup163 wide) 2 = (wide[2] <<< 29) >>> 29 := by
    simp [cleanup163, Gf2mWide.limb_set]
  have hrest : Below 163 (words (Gf2mWide.limb (cleanup163 wide)) 2) :=
    (below_words _ 2).mono (by decide)
  have hbits : Below 35 (ofWord ((wide[2] <<< 29) >>> 29)) := below_ofNat hlow
  have hword := hbits.X_pow_mul (64 * 2)
  rw [words_succ, htop]
  exact hrest.add hword

/-- What is low enough and congruent is the remainder. -/
theorem eq_modByMonic {m : Nat} {terms : List Nat} (hterms : ∀ e ∈ terms, e < m)
    {p q : (ZMod 2)[X]} (hp : Below m p) (h : modulus m terms ∣ q + p) :
    p = q %ₘ modulus m terms := by
  obtain ⟨r, hr⟩ := h
  have hq : p + modulus m terms * r = q := by
    rw [← hr, add_left_comm, CharTwo.add_self_eq_zero, add_zero]
  have hmonic : (modulus m terms).Monic := monic_X_pow_add (below_iff.mp (below_tail hterms))
  refine ((div_modByMonic_unique r p hmonic ⟨hq, ?_⟩).2).symm
  rw [degree_modulus hterms]
  exact below_iff.mp hp

/-- Two steps that keep the class, one after the other. -/
theorem dvd_add_trans {f p q r : (ZMod 2)[X]} (hpq : f ∣ p + q) (hqr : f ∣ q + r) :
    f ∣ p + r := by
  have hsum := dvd_add hpq hqr
  rwa [add_assoc, ← add_assoc q, CharTwo.add_self_eq_zero, zero_add] at hsum

theorem dvd_foldWords163 (wide : Vector UInt64 6) :
    modulus 163 terms163 ∣ words (Gf2mWide.limb wide) 6
      + words (Gf2mWide.limb (Fin.foldr 3 (fun i wide => foldWord163 wide i) wide)) 3 := by
  have hloop := foldr_invariant (f := fun i wide => foldWord163 wide i) (a := wide)
    (fun k s => modulus 163 terms163 ∣ words (Gf2mWide.limb wide) 6
      + words (Gf2mWide.limb s) (3 + k)) (by
      rw [CharTwo.add_self_eq_zero]
      exact dvd_zero _) (by
      intro i s hs
      have hstep := dvd_foldWord163 s i
      rw [Nat.add_assoc] at hstep
      exact dvd_add_trans hs hstep)
  rw [Nat.add_zero] at hloop
  exact hloop

/-- The low three words of a product. -/
theorem poly_low (wide : Vector UInt64 6) :
    poly #v[wide[0], wide[1], wide[2]] = words (Gf2mWide.limb wide) 3 := by
  refine words_congr fun i hi => ?_
  rw [Gf2mWide.limb_of_lt _ hi, Gf2mWide.limb_of_lt _ (by omega)]
  interval_cases i <;> rfl

/-- `gf2m163::reduce` is the remainder, for every product. -/
theorem poly_reduce163 (wide : Vector UInt64 6) :
    poly (reduce163 wide) = poly wide %ₘ modulus 163 terms163 := by
  have hfold := dvd_foldWords163 wide
  have hclean := dvd_add_trans (dvd_add_trans hfold (dvd_cleanup163 _)) (dvd_cleanup163 _)
  rw [reduce163, poly_low]
  exact eq_modByMonic (by decide) (below_cleanup163 _) hclean

/-! ## Reduction modulo `x^257 + x^12 + 1` -/

/-- An array cut at word `k`. -/
theorem words_add (w : Nat → UInt64) (k t : Nat) :
    words w (k + t) = words w k + X ^ (64 * k) * words (fun i => w (k + i)) t := by
  induction t with
  | zero => rw [words_zero, mul_zero, add_zero, add_zero]
  | succ t ih =>
    rw [← Nat.add_assoc, words_succ, words_succ, ih, Nat.mul_add, pow_add]
    ring

/-- The low bit of a word and the rest. -/
theorem ofWord_eq_low_bit (w : UInt64) : ofWord w = ofWord (w &&& 1) + X * ofWord (w >>> 1) := by
  have hlow : (w &&& 1).toNat = w.toNat % 2 ^ 1 := by
    rw [UInt64.toNat_and]
    exact Nat.and_one_is_mod _
  have hhigh : (w >>> 1).toNat = w.toNat >>> 1 := toNat_shiftRight_word w rfl (by decide)
  rw [ofWord, ofWord, ofWord, hlow, hhigh]
  simpa only [pow_one] using ofNat_eq_mod_add_shiftRight w.toNat 1

theorem Below.of_X_pow_mul {m k : Nat} {p : (ZMod 2)[X]} (h : Below (m + k) (X ^ k * p)) :
    Below m p := by
  intro i hi
  rw [← coeff_X_pow_mul p k i]
  exact h (i + k) (by omega)

theorem toNat_lt_of_below {w : UInt64} {m : Nat} (h : Below m (ofWord w)) : w.toNat < 2 ^ m := by
  refine Nat.lt_pow_two_of_testBit w.toNat fun i hi => ?_
  have hcoeff := h i hi
  rw [ofWord, coeff_ofNat] at hcoeff
  exact bitCoeff_injective hcoeff

/-- One place down, the bits of each word coming from the one above. -/
theorem words_shiftRight_one (w : Nat → UInt64) (k : Nat) :
    words w (k + 1) = ofWord (w 0 &&& 1)
      + X * words (fun i => (w i >>> 1) ||| (w (i + 1) <<< 63)) k
      + X ^ (64 * k + 1) * ofWord (w k >>> 1) := by
  induction k with
  | zero =>
    rw [words_succ, words_zero, words_zero, ofWord_eq_low_bit (w 0)]
    ring
  | succ k ih =>
    have hor : ofWord ((w k >>> 1) ||| (w (k + 1) <<< 63))
        = ofWord (w k >>> 1) + ofWord (w (k + 1) <<< 63) :=
      ofWord_or_word (w (k + 1)) (w k) rfl rfl (by decide) (by decide)
    have hshift : X ^ 63 * ofWord (w (k + 1))
        = ofWord (w (k + 1) <<< 63) + X ^ 64 * ofWord (w (k + 1) >>> 1) :=
      X_pow_mul_word (w (k + 1)) rfl rfl (by decide) (by decide)
    rw [words_succ, ih, words_succ _ k, hor]
    have hpow : (X : (ZMod 2)[X]) ^ (64 * (k + 1)) = X ^ (64 * k + 1) * X ^ 63 := by
      rw [← pow_add]
      congr 1
    have hpow' : (X : (ZMod 2)[X]) ^ (64 * (k + 1) + 1) = X ^ (64 * k + 1) * X ^ 64 := by
      rw [← pow_add]
      congr 1
    rw [hpow, hpow', mul_assoc, hshift]
    ring

/-- With a zero word on top. -/
theorem words_shiftRight_one_of_zero {w : Nat → UInt64} {k : Nat} (h : w k = 0) :
    words w (k + 1) = ofWord (w 0 &&& 1)
      + X * words (fun i => (w i >>> 1) ||| (w (i + 1) <<< 63)) k := by
  have hzero : ofWord ((0 : UInt64) >>> 1) = 0 := rfl
  rw [words_shiftRight_one, h, hzero, mul_zero, add_zero]

/-- The last of five words apart. -/
theorem poly_five (x : Vector UInt64 5) :
    poly x = words (Gf2mWide.limb x) 4 + X ^ 256 * ofWord x[4] := by
  rw [poly, words_succ, Gf2mWide.limb_of_lt x (by decide)]

/-- A product cut at bit 257. -/
theorem poly_eq_low_add_excess257 {wide : Vector UInt64 10} (h : Below 513 (poly wide)) :
    poly wide = poly #v[wide[0], wide[1], wide[2], wide[3], wide[4] &&& 1]
      + X ^ 257 * poly (excess257 wide) := by
  have hlow : words (Gf2mWide.limb #v[wide[0], wide[1], wide[2], wide[3], wide[4] &&& 1]) 4
      = words (Gf2mWide.limb wide) 4 := by
    refine words_congr fun i hi => ?_
    rw [Gf2mWide.limb_of_lt _ (by omega), Gf2mWide.limb_of_lt _ (by omega)]
    interval_cases i <;> rfl
  have htop : Gf2mWide.limb wide 9 = 0 := eq_zero_of_below h (by decide) (by decide)
  have hexcess : words (fun i => (Gf2mWide.limb wide (4 + i) >>> 1)
      ||| (Gf2mWide.limb wide (4 + (i + 1)) <<< 63)) 5 = poly (excess257 wide) := by
    refine words_congr fun i hi => ?_
    rw [Gf2mWide.limb_of_lt _ hi, Gf2mWide.limb_of_lt _ (by omega),
      Gf2mWide.limb_of_lt _ (by omega), excess257, Vector.getElem_ofFn]
    simp only [Nat.add_comm 4, Nat.add_assoc]
  have hshift := words_shiftRight_one_of_zero (w := fun i => Gf2mWide.limb wide (4 + i)) (k := 5) htop
  rw [hexcess] at hshift
  have hfour : Gf2mWide.limb wide (4 + 0) = wide[4] := Gf2mWide.limb_of_lt wide (by decide)
  have hlast : (#v[wide[0], wide[1], wide[2], wide[3], wide[4] &&& 1] : Vector UInt64 5)[4]
      = wide[4] &&& 1 := rfl
  have hcut := words_add (Gf2mWide.limb wide) 4 (5 + 1)
  have hpoly : poly wide = words (Gf2mWide.limb wide) (4 + (5 + 1)) := rfl
  rw [hshift, hfour] at hcut
  rw [hpoly, poly_five, hlow, hlast, hcut]
  ring

theorem poly_shifted257 {h1 : Vector UInt64 5} (h : Below 256 (poly h1)) :
    poly (shifted257 h1) = X ^ 12 * poly h1 := by
  have hwords : poly (shifted257 h1) = words (shiftedWord (Gf2mWide.limb h1) 12) 5 := by
    refine poly_ofFn _ _ fun i => ?_
    rw [shiftedWord, Gf2mWide.limb_of_lt h1 i.isLt]
    by_cases h0 : i.val = 0
    · rw [dif_pos h0, if_pos h0, UInt64.or_zero]
      simp only [h0]
      rfl
    · rw [dif_neg h0, if_neg h0, Gf2mWide.limb_of_lt h1 (by omega)]
      rfl
  rw [hwords, words_shiftedWord _ (by decide) (by decide) h (by decide)]
  rfl

theorem below_low_bit (w : UInt64) : Below 1 (ofWord (w &&& 1)) := by
  have hlt : (w &&& 1).toNat < 2 ^ 1 := by
    rw [UInt64.toNat_and]
    exact Nat.and_lt_two_pow _ (by decide)
  exact below_ofNat hlt

/-- The first pass leaves eleven bits above bit 257. -/
theorem pass257_spec {wide : Vector UInt64 10} (h : Below 513 (poly wide)) :
    modulus 257 terms257 ∣ poly wide + poly (pass257 wide)
      ∧ Below 268 (poly (pass257 wide)) := by
  have hcut := poly_eq_low_add_excess257 h
  obtain ⟨low, hlowdef⟩ :
      ∃ low : Vector UInt64 5, low = #v[wide[0], wide[1], wide[2], wide[3], wide[4] &&& 1] :=
    ⟨_, rfl⟩
  rw [← hlowdef] at hcut
  have hlow : Below 257 (poly low) := by
    have hword : Below 1 (ofWord low[4]) := by
      rw [hlowdef]
      exact below_low_bit wide[4]
    have htop : Below 257 (X ^ 256 * ofWord low[4]) := hword.X_pow_mul 256
    have hrest : Below 257 (words (Gf2mWide.limb low) 4) := (below_words _ 4).mono (by decide)
    rw [poly_five]
    exact hrest.add htop
  have hexcess : Below 256 (poly (excess257 wide)) := by
    refine Below.of_X_pow_mul (k := 257) ?_
    have hsum := h.add (hlow.mono (by decide : 257 ≤ 513))
    have hhigh : poly wide + poly low = X ^ 257 * poly (excess257 wide) := by
      rw [hcut]
      linear_combination CharTwo.add_self_eq_zero (poly low)
    rwa [hhigh] at hsum
  have hpass : poly (pass257 wide)
      = poly low + poly (excess257 wide) + X ^ 12 * poly (excess257 wide) := by
    rw [← poly_shifted257 hexcess, ← Gf2mWide.poly_add, ← Gf2mWide.poly_add]
    congr 1
    apply Vector.ext
    intro i hi
    simp only [pass257, hlowdef, Gf2mWide.add, Vector.getElem_ofFn, Vector.getElem_zipWith,
      FinIndex.getElem_fin]
  refine ⟨?_, ?_⟩
  · rw [hcut, hpass]
    refine Dvd.intro (poly (excess257 wide)) ?_
    have hcancel := CharTwo.add_self_eq_zero (poly low)
    simp only [modulus, terms257, List.map_cons, List.map_nil, List.sum_cons, List.sum_nil]
    linear_combination -hcancel
  · rw [hpass]
    refine ((hlow.mono (by decide)).add (hexcess.mono (by decide))).add ?_
    exact hexcess.X_pow_mul 12

theorem words_result257 (x : Vector UInt64 5) (t u : UInt64) :
    words (Gf2mWide.limb #v[x[0] ^^^ t, x[1], x[2], x[3], u]) 4
      = words (Gf2mWide.limb x) 4 + ofWord t := by
  have hset := words_limb_set_xor x (i := 0) (k := 4) (by decide) (by decide) t
  rw [Nat.mul_zero, pow_zero, one_mul] at hset
  rw [← hset]
  refine words_congr fun i hi => ?_
  rw [Gf2mWide.limb_of_lt _ (by omega), Gf2mWide.limb_of_lt _ (by omega)]
  interval_cases i <;> simp

/-- `gf2m257::reduce` is the remainder, for every product of two elements. -/
theorem poly_reduce257 {wide : Vector UInt64 10} (h : Below 513 (poly wide)) :
    poly (reduce257 wide) = poly wide %ₘ modulus 257 terms257 := by
  obtain ⟨hpass, hbelow⟩ := pass257_spec h
  generalize hp : pass257 wide = pass1 at hpass hbelow
  have hbit := ofWord_eq_low_bit pass1[4]
  have hcut := poly_five pass1
  have hwords : Below 256 (words (Gf2mWide.limb pass1) 4) := below_words _ 4
  have hlow : Below 257 (X ^ 256 * ofWord (pass1[4] &&& 1)) :=
    (below_low_bit pass1[4]).X_pow_mul 256
  have hparts : poly pass1 = words (Gf2mWide.limb pass1) 4 + X ^ 256 * ofWord (pass1[4] &&& 1)
      + X ^ 257 * ofWord (pass1[4] >>> 1) := by
    rw [hcut, hbit]
    ring
  -- eleven bits lie above, so that nothing is lost by the shift
  have hexcess : Below 11 (ofWord (pass1[4] >>> 1)) := by
    refine Below.of_X_pow_mul (k := 257) ?_
    have hsum := (hbelow.add (hwords.mono (by decide))).add (hlow.mono (by decide))
    have hhigh : poly pass1 + words (Gf2mWide.limb pass1) 4 + X ^ 256 * ofWord (pass1[4] &&& 1)
        = X ^ 257 * ofWord (pass1[4] >>> 1) := by
      rw [hparts]
      linear_combination CharTwo.add_self_eq_zero (words (Gf2mWide.limb pass1) 4)
        + CharTwo.add_self_eq_zero (X ^ 256 * ofWord (pass1[4] &&& 1))
    rwa [hhigh] at hsum
  have hshift : ofWord ((pass1[4] >>> 1) <<< 12) = X ^ 12 * ofWord (pass1[4] >>> 1) :=
    ofWord_shiftLeft _ rfl (by decide)
      (Nat.lt_of_lt_of_le (toNat_lt_of_below hexcess) (by decide))
  have hresult : poly (reduce257 wide)
      = words (Gf2mWide.limb pass1) 4 + X ^ 256 * ofWord (pass1[4] &&& 1)
        + (ofWord (pass1[4] >>> 1) + X ^ 12 * ofWord (pass1[4] >>> 1)) := by
    rw [reduce257, hp, poly_five, words_result257, ofWord_xor, hshift]
    have hlast (a b c d e : UInt64) : (#v[a, b, c, d, e] : Vector UInt64 5)[4] = e := rfl
    rw [hlast]
    ring
  rw [hresult]
  refine eq_modByMonic (by decide) ?_ ?_
  · refine Below.add ((hwords.mono (by decide)).add hlow) ?_
    exact Below.add (hexcess.mono (by decide)) ((hexcess.X_pow_mul 12).mono (by decide))
  · refine dvd_add_trans hpass ?_
    rw [hparts]
    refine Dvd.intro (ofWord (pass1[4] >>> 1)) ?_
    simp only [modulus, terms257, List.map_cons, List.map_nil, List.sum_cons, List.sum_nil]
    linear_combination -CharTwo.add_self_eq_zero (words (Gf2mWide.limb pass1) 4)
        - CharTwo.add_self_eq_zero (X ^ 256 * ofWord (pass1[4] &&& 1))

end UaCrypt.Hazmat.Gf2mCurve
