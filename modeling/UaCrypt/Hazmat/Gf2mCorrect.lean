import UaCrypt.Hazmat.Gf2mWide
import UaCrypt.Lib.BinaryPoly

/-!
# GF(2^m) arithmetic is arithmetic modulo the pentanomial

Limb arrays are read as polynomials over GF(2) (`poly`).

- `poly_polyMulWide`, `poly_polyMulWideHw`: both products are the polynomial product.
- `poly_reduce`: `reduce` is the remainder, for every double-width array.
- `poly_multiply`, `poly_double`: so `multiply` and `double` are the product, and the
  product with `X`, in the quotient ring.
-/

namespace UaCrypt.Hazmat.Gf2mWide

open Polynomial BinaryPoly ColumnState

variable {n limbs : Nat}

/-! ## Arrays as polynomials -/

/-- The limbs of an array, zero outside it. -/
def limb (x : Vector UInt64 n) (i : Nat) : UInt64 := if h : i < n then x[i] else 0

theorem limb_of_lt (x : Vector UInt64 n) {i : Nat} (h : i < n) : limb x i = x[i] := dif_pos h

/-- An array as a polynomial, the first limb least significant. -/
noncomputable def poly (x : Vector UInt64 n) : (ZMod 2)[X] := words (limb x) n

theorem below_poly (x : Vector UInt64 n) : Below (64 * n) (poly x) := below_words _ n

theorem poly_injective {x y : Vector UInt64 n} (h : poly x = poly y) : x = y := by
  refine Vector.ext fun i hi => ?_
  have hi' := words_injective h hi
  rwa [limb_of_lt x hi, limb_of_lt y hi] at hi'

/-- Through the limbs of an array made from a function. -/
theorem poly_ofFn (f : Fin n → UInt64) (w : Nat → UInt64) (h : ∀ i : Fin n, f i = w i) :
    poly (Vector.ofFn f) = words w n := by
  refine words_congr fun i hi => ?_
  rw [limb_of_lt _ hi, Vector.getElem_ofFn, h]

@[simp] theorem poly_replicate_zero : poly (Vector.replicate n 0) = 0 := by
  have hzero : words (limb (Vector.replicate n 0)) n = words (limb (Vector.replicate n 0)) 0 :=
    words_of_zero_above (Nat.zero_le n) fun i _ hi => by
      rw [limb_of_lt _ hi, Vector.getElem_replicate]
  exact hzero

theorem poly_zero : poly (zero n) = 0 := poly_replicate_zero

theorem poly_add (a b : Elem n) : poly (add a b) = poly a + poly b := by
  have hlimb : words (limb (add a b)) n = words (fun i => limb a i ^^^ limb b i) n := by
    refine words_congr fun i hi => ?_
    rw [limb_of_lt _ hi, limb_of_lt _ hi, limb_of_lt _ hi, add, Vector.getElem_zipWith]
  rw [poly, hlimb, words_xor]
  rfl

/-- Writing one limb. -/
theorem limb_set (x : Vector UInt64 n) {i : Nat} (hi : i < n) (w : UInt64) :
    limb (x.set i w) = Function.update (limb x) i w := by
  funext j
  unfold limb
  by_cases hj : j < n
  · rw [dif_pos hj, Vector.getElem_set]
    by_cases hij : i = j
    · subst hij
      rw [if_pos rfl, Function.update_self]
    · rw [if_neg hij, Function.update_of_ne (Ne.symm hij), dif_pos hj]
  · have hij : j ≠ i := by omega
    rw [dif_neg hj, Function.update_of_ne hij, dif_neg hj]

/-- XOR into one limb, seen through the first `k`. -/
theorem words_limb_set_xor (x : Vector UInt64 n) {i k : Nat} (hi : i < n) (hik : i < k)
    (t : UInt64) :
    words (limb (x.set i (x[i] ^^^ t))) k = words (limb x) k + X ^ (64 * i) * ofWord t := by
  rw [limb_set x hi, ← limb_of_lt x hi, words_update _ hik]

theorem poly_shl (x : Vector UInt64 n) (s : Nat) :
    poly (shl s x) = words (shiftedWord (limb x) s) n := by
  refine poly_ofFn _ _ fun i => ?_
  have hlimb : limb x i.val = x[i] := limb_of_lt x i.isLt
  rw [shiftedWord, hlimb]
  congr 1
  by_cases h : i.val = 0
  · rw [dif_pos h, if_pos h]
  · rw [dif_neg h, if_neg h, limb_of_lt]

/-- A shift that pushes nothing out. -/
theorem poly_shl_of_below {x : Vector UInt64 n} {s m : Nat} (hpos : 0 < s) (hs : s < 64)
    (h : Below m (poly x)) (hm : m + s ≤ 64 * n) : poly (shl s x) = X ^ s * poly x := by
  rw [poly_shl, words_shiftedWord (limb x) hpos hs h hm]
  rfl

theorem poly_widen (a : Elem limbs) : poly (widen a) = poly a := by
  have hlimb : ∀ i : Fin (2 * limbs), (if h : i.val < limbs then a[i.val] else 0) = limb a i :=
    fun i => rfl
  have habove : ∀ i, limbs ≤ i → i < 2 * limbs → limb a i = 0 :=
    fun i hi _ => dif_neg (Nat.not_lt_of_le hi)
  rw [widen, poly_ofFn _ _ hlimb, words_of_zero_above (by omega) habove]
  rfl

/-! ## The masked window -/

section Window

/-- Bit `k` of a word, as a word. -/
theorem shiftRight_and_one (w : UInt64) {k : Nat} (hk : k < 64) :
    (w >>> UInt64.ofNat k) &&& 1 = UInt64.ofNat (w.toNat.testBit k).toNat := by
  refine UInt64.toNat_inj.mp ?_
  rw [UInt64.toNat_and, toNat_shiftRight_ofNat w hk, Nat.toNat_testBit,
    ← Nat.shiftRight_eq_div_pow]
  have hlt : w.toNat >>> k % 2 < 2 ^ 64 := Nat.lt_trans (Nat.mod_lt _ (by decide)) (by decide)
  show (w.toNat >>> k) &&& 1 = _
  rw [Nat.and_one_is_mod, UInt64.toNat_ofNat', Nat.mod_eq_of_lt hlt]

/-- The mask of a bit is all ones or zero. -/
theorem ofWord_and_mask (r w : UInt64) {k : Nat} (hk : k < 64) :
    ofWord (r &&& ((0 : UInt64) - ((w >>> UInt64.ofNat k) &&& 1)))
      = C (bitCoeff (w.toNat.testBit k)) * ofWord r := by
  rw [shiftRight_and_one w hk]
  cases w.toNat.testBit k
  · simp [bitCoeff]
  · have hones : (0 : UInt64) - UInt64.ofNat true.toNat = -1 := rfl
    rw [hones, UInt64.and_neg_one, bitCoeff, if_pos rfl, C_1, one_mul]

/-- A row short enough for the truncated loop is added whole, or not at all. -/
theorem poly_addRow (acc : Vector UInt64 (2 * limbs)) {row : Vector UInt64 (2 * limbs)}
    (hrow : Below (64 * (limbs + 1)) (poly row)) (w : UInt64) {k : Nat}
    (hk : k < 64) :
    poly (addRow acc row ((0 : UInt64) - ((w >>> UInt64.ofNat k) &&& 1)))
      = poly acc + C (bitCoeff (w.toNat.testBit k)) * poly row := by
  generalize hmask : (0 : UInt64) - ((w >>> UInt64.ofNat k) &&& 1) = mask
  have hlimb : ∀ i : Fin (2 * limbs),
      (if i.val < limbs + 1 then acc[i] ^^^ (row[i] &&& mask) else acc[i])
        = limb acc i ^^^ (limb row i &&& mask) := by
    intro i
    have hacc : limb acc i = acc[i] := limb_of_lt acc i.isLt
    have hr : limb row i = row[i] := limb_of_lt row i.isLt
    split
    · rw [hacc, hr]
    · rename_i hi
      -- above the loop's end the row is zero
      have hzero : limb row i = 0 := eq_zero_of_below hrow (by omega) i.isLt
      rw [hzero, hacc, UInt64.zero_and, UInt64.xor_zero]
  have hmasked : words (fun i => limb row i &&& mask) (2 * limbs)
      = C (bitCoeff (w.toNat.testBit k)) * poly row := by
    rw [poly, words, words, Finset.mul_sum]
    refine Finset.sum_congr rfl fun i _ => ?_
    rw [← hmask, ofWord_and_mask _ w hk]
    ring
  rw [addRow, poly_ofFn _ (fun i => limb acc i ^^^ (limb row i &&& mask)) hlimb, words_xor,
    hmasked]
  rfl

/-- The top four bits of a word. -/
theorem ofWord_shiftRight_sixty (w : UInt64) :
    ofWord (w >>> UInt64.ofNat 60)
      = C (bitCoeff (w.toNat.testBit 60)) + C (bitCoeff (w.toNat.testBit 61)) * X
        + C (bitCoeff (w.toNat.testBit 62)) * X ^ 2
        + C (bitCoeff (w.toNat.testBit 63)) * X ^ 3 := by
  have hnone : w.toNat >>> 60 >>> 1 >>> 1 >>> 1 >>> 1 = 0 := by
    rw [← Nat.shiftRight_add, ← Nat.shiftRight_add, ← Nat.shiftRight_add, ← Nat.shiftRight_add,
      Nat.shiftRight_eq_div_pow]
    exact Nat.div_eq_of_lt w.toNat_lt
  rw [ofWord, toNat_shiftRight_ofNat w (by decide), ofNat_eq_low_bit, ofNat_eq_low_bit (_ >>> 1),
    ofNat_eq_low_bit (_ >>> 1), ofNat_eq_low_bit (_ >>> 1), hnone, ofNat_zero]
  simp only [Nat.testBit_shiftRight]
  ring

/-- The rows are `a` shifted by up to three bits. -/
theorem rows_eq (a : Elem limbs) (hlimbs : 0 < limbs) :
    ∃ r₀ r₁ r₂ r₃, rows a = [r₀, r₁, r₂, r₃] ∧ poly r₀ = poly a ∧ poly r₁ = X * poly a
      ∧ poly r₂ = X ^ 2 * poly a ∧ poly r₃ = X ^ 3 * poly a := by
  have h₀ := poly_widen a
  have hb₀ : Below (64 * limbs) (poly (widen a)) := by
    rw [h₀]
    exact below_poly a
  have h₁ : poly (shl1 (widen a)) = X ^ 1 * poly (widen a) :=
    poly_shl_of_below (by decide) (by decide) hb₀ (by omega)
  have hb₁ : Below (64 * limbs + 1) (poly (shl1 (widen a))) := by
    rw [h₁]
    exact hb₀.X_pow_mul 1
  have h₂ : poly (shl1 (shl1 (widen a))) = X ^ 1 * poly (shl1 (widen a)) :=
    poly_shl_of_below (by decide) (by decide) hb₁ (by omega)
  have hb₂ : Below (64 * limbs + 1 + 1) (poly (shl1 (shl1 (widen a)))) := by
    rw [h₂]
    exact hb₁.X_pow_mul 1
  have h₃ : poly (shl1 (shl1 (shl1 (widen a)))) = X ^ 1 * poly (shl1 (shl1 (widen a))) :=
    poly_shl_of_below (by decide) (by decide) hb₂ (by omega)
  refine ⟨_, _, _, _, rfl, h₀, ?_, ?_, ?_⟩
  · rw [h₁, h₀, pow_one]
  · rw [h₂, h₁, h₀]
    ring
  · rw [h₃, h₂, h₁, h₀]
    ring

/-- One nibble: the accumulator moves up by four bits and takes `a` times the nibble. -/
theorem poly_nibbleStep (a : Elem limbs) (hlimbs : 0 < limbs) {acc : Vector UInt64 (2 * limbs)}
    {m : Nat} (hacc : Below m (poly acc)) (hm : m + 4 ≤ 64 * (2 * limbs)) (w : UInt64) :
    poly (nibbleStep a acc w) = X ^ 4 * poly acc + poly a * ofWord (w >>> UInt64.ofNat 60) := by
  obtain ⟨r₀, r₁, r₂, r₃, hrows, h₀, h₁, h₂, h₃⟩ := rows_eq a hlimbs
  have hshift : poly (shl4 acc) = X ^ 4 * poly acc :=
    poly_shl_of_below (by decide) (by decide) hacc hm
  have hbelow (k : Nat) (hk : k ≤ 3) : Below (64 * (limbs + 1)) (X ^ k * poly a) :=
    ((below_poly a).X_pow_mul k).mono (by omega)
  have hb₀ : Below (64 * (limbs + 1)) (poly r₀) := by
    rw [h₀, ← one_mul (poly a), ← pow_zero X]
    exact hbelow 0 (by decide)
  have hb₁ : Below (64 * (limbs + 1)) (poly r₁) := by
    rw [h₁, ← pow_one X]
    exact hbelow 1 (by decide)
  have hb₂ : Below (64 * (limbs + 1)) (poly r₂) := h₂ ▸ hbelow 2 (by decide)
  have hb₃ : Below (64 * (limbs + 1)) (poly r₃) := h₃ ▸ hbelow 3 (by decide)
  have hfold : nibbleStep a acc w
      = addRow (addRow (addRow (addRow (shl4 acc)
          r₀ ((0 : UInt64) - ((w >>> UInt64.ofNat 60) &&& 1)))
          r₁ ((0 : UInt64) - ((w >>> UInt64.ofNat 61) &&& 1)))
          r₂ ((0 : UInt64) - ((w >>> UInt64.ofNat 62) &&& 1)))
          r₃ ((0 : UInt64) - ((w >>> UInt64.ofNat 63) &&& 1)) := by
    rw [nibbleStep, hrows]
    rfl
  rw [hfold, poly_addRow _ hb₃ w (by decide), poly_addRow _ hb₂ w (by decide),
    poly_addRow _ hb₁ w (by decide), poly_addRow _ hb₀ w (by decide), hshift, h₀, h₁,
    h₂, h₃, ofWord_shiftRight_sixty]
  ring

theorem below_nibbleStep (a : Elem limbs) (hlimbs : 0 < limbs) {acc : Vector UInt64 (2 * limbs)}
    {m : Nat} (hacc : Below m (poly acc)) (hlow : 64 * limbs ≤ m) (hm : m + 4 ≤ 64 * (2 * limbs))
    (w : UInt64) : Below (m + 4) (poly (nibbleStep a acc w)) := by
  have hbit (b : Bool) (k : Nat) (hk : k ≤ 3) :
      Below (m + 4) (X ^ k * (C (bitCoeff b) * poly a)) := by
    have hmul : Below (64 * limbs) (C (bitCoeff b) * poly a) := by
      intro i hi
      rw [coeff_C_mul, below_poly a i hi, mul_zero]
    exact (hmul.X_pow_mul k).mono (by omega)
  have hnibble : poly a * ofWord (w >>> UInt64.ofNat 60)
      = X ^ 0 * (C (bitCoeff (w.toNat.testBit 60)) * poly a)
        + X ^ 1 * (C (bitCoeff (w.toNat.testBit 61)) * poly a)
        + X ^ 2 * (C (bitCoeff (w.toNat.testBit 62)) * poly a)
        + X ^ 3 * (C (bitCoeff (w.toNat.testBit 63)) * poly a) := by
    rw [ofWord_shiftRight_sixty]
    ring
  rw [poly_nibbleStep a hlimbs hacc hm w, hnibble]
  refine (hacc.X_pow_mul 4).add ?_
  exact (((hbit _ 0 (by decide)).add (hbit _ 1 (by decide))).add (hbit _ 2 (by decide))).add
    (hbit _ 3 (by decide))

/-- The accumulator and the bits of the word still to come, as one polynomial. -/
noncomputable def pending (a : Elem limbs) (run : Vector UInt64 (2 * limbs) × UInt64) :
    (ZMod 2)[X] :=
  X ^ 64 * poly run.1 + poly a * ofWord run.2

/-- The loop over the nibbles of a word, after some of its turns: each multiplies what is
pending by `X ^ 4`. -/
theorem nibbles_run (a : Elem limbs) (hlimbs : 0 < limbs) (turns : List Nat)
    {acc : Vector UInt64 (2 * limbs)} {m : Nat} (hacc : Below m (poly acc))
    (hlow : 64 * limbs ≤ m) (hm : m + 4 * turns.length ≤ 64 * (2 * limbs)) (w : UInt64) :
    let run := turns.foldl (fun (accW : Vector UInt64 (2 * limbs) × UInt64) _ =>
      (nibbleStep a accW.1 accW.2, accW.2 <<< 4)) (acc, w)
    pending a run = X ^ (4 * turns.length) * pending a (acc, w)
      ∧ Below (m + 4 * turns.length) (poly run.1)
      ∧ run.2.toNat = w.toNat <<< (4 * turns.length) % 2 ^ 64 := by
  induction turns generalizing acc m w with
  | nil =>
    refine ⟨?_, hacc, (Nat.mod_eq_of_lt w.toNat_lt).symm⟩
    rw [List.foldl_nil, List.length_nil, Nat.mul_zero, pow_zero, one_mul]
  | cons t turns ih =>
    rw [List.length_cons] at hm
    have hstep := poly_nibbleStep a hlimbs hacc (by omega) w
    obtain ⟨hrun, hbelow, hword⟩ := ih (below_nibbleStep a hlimbs hacc hlow (by omega) w)
      (by omega) (by omega) (w <<< 4)
    have hsplit := X_pow_mul_ofWord w (k := 4) (by decide) (by decide)
    have hone : pending a (nibbleStep a acc w, w <<< 4) = X ^ 4 * pending a (acc, w) := by
      simp only [pending]
      rw [hstep]
      linear_combination (-(poly a)) * hsplit
    refine ⟨?_, ?_, ?_⟩
    · rw [List.foldl_cons, hrun, hone, List.length_cons]
      ring
    · rw [List.foldl_cons, List.length_cons]
      exact hbelow.mono (by omega)
    · have hshift : (w <<< 4).toNat = w.toNat <<< 4 % 2 ^ 64 :=
        toNat_shiftLeft_ofNat w (by decide)
      rw [List.foldl_cons, hword, List.length_cons, hshift, Nat.shiftLeft_eq, Nat.mod_mul_mod,
        ← Nat.shiftLeft_eq, ← Nat.shiftLeft_add, Nat.mul_succ, Nat.add_comm]

/-- A whole word: up by a word, plus `a` times the word. -/
theorem poly_wordStep (a : Elem limbs) (hlimbs : 0 < limbs) {acc : Vector UInt64 (2 * limbs)}
    {m : Nat} (hacc : Below m (poly acc)) (hlow : 64 * limbs ≤ m)
    (hm : m + 64 ≤ 64 * (2 * limbs)) (word : UInt64) :
    poly (wordStep a acc word) = X ^ 64 * poly acc + poly a * ofWord word
      ∧ Below (m + 64) (poly (wordStep a acc word)) := by
  obtain ⟨hrun, hbelow, hword⟩ := nibbles_run a hlimbs (List.range 16) hacc hlow hm word
  refine ⟨?_, hbelow⟩
  have hempty : ofWord ((List.range 16).foldl (fun (accW : Vector UInt64 (2 * limbs) × UInt64) _ =>
      (nibbleStep a accW.1 accW.2, accW.2 <<< 4)) (acc, word)).2 = 0 := by
    rw [ofWord, hword, List.length_range, Nat.shiftLeft_eq, Nat.mul_mod_left, ofNat_zero]
  rw [pending, hempty, mul_zero, add_zero, List.length_range] at hrun
  exact mul_left_cancel₀ (pow_ne_zero 64 X_ne_zero) hrun

/-- The words of a list, the first least significant. -/
noncomputable def ofList (ws : List UInt64) : (ZMod 2)[X] :=
  ws.foldr (fun w rest => ofWord w + X ^ 64 * rest) 0

theorem ofList_eq_words (ws : List UInt64) :
    ofList ws = words (fun i => ws.getD i 0) ws.length := by
  induction ws with
  | nil => rfl
  | cons w ws ih =>
    rw [List.length_cons, words_succ_first]
    show ofWord w + X ^ 64 * ofList ws = _
    rw [ih]
    rfl

theorem ofList_toList (b : Elem limbs) : ofList b.toList = poly b := by
  rw [ofList_eq_words, Vector.length_toList]
  refine words_congr fun i hi => ?_
  rw [limb_of_lt b hi, List.getD_eq_getElem _ _ (by simpa using hi), Vector.getElem_toList]

/-- The words of `b` from the top down, by induction on those already used. -/
theorem poly_foldr_wordStep (a : Elem limbs) (hlimbs : 0 < limbs) (ws : List UInt64)
    (hws : ws.length ≤ limbs) :
    poly (ws.foldr (fun word acc => wordStep a acc word) (Vector.replicate (2 * limbs) 0))
        = poly a * ofList ws
      ∧ Below (64 * limbs + 64 * ws.length)
          (poly (ws.foldr (fun word acc => wordStep a acc word)
            (Vector.replicate (2 * limbs) 0))) := by
  induction ws with
  | nil =>
    rw [List.foldr_nil, poly_replicate_zero]
    exact ⟨(mul_zero _).symm, below_zero _⟩
  | cons w ws ih =>
    rw [List.length_cons] at hws
    obtain ⟨hpoly, hbelow⟩ := ih (Nat.le_of_succ_le hws)
    obtain ⟨hstep, hbelow'⟩ := poly_wordStep a hlimbs hbelow (by omega) (by omega) w
    refine ⟨?_, hbelow'.mono (by rw [List.length_cons]; omega)⟩
    rw [List.foldr_cons, hstep, hpoly]
    show _ = poly a * (ofWord w + X ^ 64 * ofList ws)
    ring

/-- The window multiplies polynomials. -/
theorem poly_polyMulWide (a b : Elem limbs) (hlimbs : 0 < limbs) :
    poly (polyMulWide a b) = poly a * poly b := by
  rw [polyMulWide, List.foldl_reverse, ← ofList_toList b]
  exact (poly_foldr_wordStep a hlimbs b.toList (Nat.le_of_eq b.length_toList)).1

end Window

/-! ## The word products -/

section Hardware

/-- The word product, by its two halves. -/
theorem ofNat_clmul (a b : UInt64) :
    ofWord (UInt64.ofNat (clmul a b)) + X ^ 64 * ofWord (UInt64.ofNat (clmul a b >>> 64))
      = ofWord a * ofWord b := by
  have hpoly : ofNat (clmul a b) = ofWord a * ofWord b := ofNat_mulLoop b.toNat_lt
  have hlt : clmul a b < 2 ^ (64 + 64) := mulLoop_lt a.toNat_lt
  have hhi : clmul a b >>> 64 < 2 ^ 64 := by
    rw [Nat.shiftRight_eq_div_pow]
    exact Nat.div_lt_of_lt_mul hlt
  rw [ofWord, ofWord, UInt64.toNat_ofNat', UInt64.toNat_ofNat', Nat.mod_eq_of_lt hhi,
    ← ofNat_eq_mod_add_shiftRight, hpoly]

theorem poly_addProduct (a b : Elem limbs) (out : Vector UInt64 (2 * limbs)) (i j : Fin limbs) :
    poly (addProduct a b out i j)
      = poly out
        + X ^ (64 * i.val) * ofWord (limb a i) * (X ^ (64 * j.val) * ofWord (limb b j)) := by
  have hlo : i.val + j.val < 2 * limbs := by omega
  have hhi : i.val + j.val + 1 < 2 * limbs := by omega
  have hprod := ofNat_clmul a[i] b[j]
  rw [limb_of_lt a i.isLt, limb_of_lt b j.isLt]
  unfold addProduct poly
  rw [words_limb_set_xor _ hhi hhi, words_limb_set_xor _ hlo hlo]
  linear_combination (X ^ (64 * i.val) * X ^ (64 * j.val)) * hprod

theorem poly_eq_sum (a : Elem limbs) :
    poly a = ((List.finRange limbs).map fun i : Fin limbs =>
      X ^ (64 * i.val) * ofWord (limb a i)).sum := by
  rw [← Fin.sum_univ_def, poly, words, Finset.sum_range]

/-- A loop that adds one term a turn adds their sum. -/
theorem poly_foldl_add {ι : Type} (step : Vector UInt64 n → ι → Vector UInt64 n)
    (term : ι → (ZMod 2)[X]) (h : ∀ x i, poly (step x i) = poly x + term i) (is : List ι)
    (x : Vector UInt64 n) : poly (is.foldl step x) = poly x + (is.map term).sum := by
  induction is generalizing x with
  | nil => rw [List.foldl_nil, List.map_nil, List.sum_nil, add_zero]
  | cons i is ih => rw [List.foldl_cons, ih, h, List.map_cons, List.sum_cons, add_assoc]

/-- The schoolbook sum multiplies polynomials. -/
theorem poly_polyMulWideHw (a b : Elem limbs) :
    poly (polyMulWideHw a b) = poly a * poly b := by
  have hinner (i : Fin limbs) (out : Vector UInt64 (2 * limbs)) :
      poly ((List.finRange limbs).foldl (fun out j => addProduct a b out i j) out)
        = poly out + X ^ (64 * i.val) * ofWord (limb a i) * poly b := by
    rw [poly_foldl_add _ _ (fun out j => poly_addProduct a b out i j), List.sum_map_mul_left,
      ← poly_eq_sum b]
  rw [polyMulWideHw, poly_foldl_add _ _ (fun out i => hinner i out), poly_replicate_zero, zero_add,
    List.sum_map_mul_right, ← poly_eq_sum a]

end Hardware

/-! ## Reduction -/

section Reduction

/-- The pentanomial without its leading term. -/
noncomputable def Pentanomial.tail (f : Pentanomial) : (ZMod 2)[X] :=
  X ^ f.f1 + X ^ f.f2 + X ^ f.f3 + 1

/-- `x^m + x^f1 + x^f2 + x^f3 + 1`. -/
noncomputable def modulus (limbs : Nat) (f : Pentanomial) : (ZMod 2)[X] :=
  X ^ (64 * limbs) + f.tail

variable (f : Pentanomial)

theorem below_tail : Below 64 f.tail := by
  obtain ⟨⟨-, h₁⟩, ⟨-, h₂⟩, -, h₃⟩ := f.terms_lt
  have hterm (k : Nat) (hk : k < 64) : Below 64 (X ^ k : (ZMod 2)[X]) := by
    intro i hi
    rw [coeff_X_pow, if_neg (by omega)]
  rw [Pentanomial.tail, ← pow_zero X]
  exact (((hterm _ h₁).add (hterm _ h₂)).add (hterm _ h₃)).add (hterm 0 (by decide))

theorem degree_tail_lt (hlimbs : 0 < limbs) : f.tail.degree < ((64 * limbs : Nat) : WithBot Nat) :=
  below_iff.mp ((below_tail f).mono (by omega))

theorem monic_modulus (hlimbs : 0 < limbs) : (modulus limbs f).Monic :=
  monic_X_pow_add (degree_tail_lt f hlimbs)

theorem degree_modulus (hlimbs : 0 < limbs) :
    (modulus limbs f).degree = ((64 * limbs : Nat) : WithBot Nat) := by
  rw [modulus, degree_add_eq_left_of_degree_lt]
  · exact degree_X_pow _
  · rw [degree_X_pow]
    exact degree_tail_lt f hlimbs

/-- What is low enough and congruent is the remainder. -/
theorem eq_modByMonic (hlimbs : 0 < limbs) {p q : (ZMod 2)[X]} (hp : Below (64 * limbs) p)
    (h : modulus limbs f ∣ q + p) : p = q %ₘ modulus limbs f := by
  obtain ⟨c, hc⟩ := h
  have hq : p + modulus limbs f * c = q := by
    rw [← hc, add_left_comm, CharTwo.add_self_eq_zero, add_zero]
  refine ((div_modByMonic_unique c p (monic_modulus f hlimbs) ⟨hq, ?_⟩).2).symm
  rw [degree_modulus f hlimbs]
  exact below_iff.mp hp

/-- One shifted term of a fold. -/
theorem words_foldTerm (wide : Vector UInt64 (2 * limbs)) {base k : Nat} (hbase : base < 2 * limbs)
    (hnext : base + 1 < 2 * limbs) (hk : base + 1 < k) (t : UInt64) {s : Nat} (hpos : 0 < s)
    (hs : s < 64) :
    words (limb
        ((wide.set base (wide[base] ^^^ (t <<< UInt64.ofNat s))).set (base + 1)
          ((wide.set base (wide[base] ^^^ (t <<< UInt64.ofNat s)))[base + 1]
            ^^^ (t >>> UInt64.ofNat (64 - s))))) k
      = words (limb wide) k + X ^ (64 * base) * (X ^ s * ofWord t) := by
  rw [words_limb_set_xor _ hnext hk, words_limb_set_xor _ hbase (Nat.lt_of_succ_lt hk),
    X_pow_mul_ofWord t hpos hs]
  ring

/-- A fold adds the word times the tail, as long as both words it writes are counted. -/
theorem words_foldWord (wide : Vector UInt64 (2 * limbs)) (base : Fin limbs) {k : Nat}
    (hk : base.val + 1 < k) :
    words (limb (foldWord f wide base)) k
      = words (limb wide) k
        + X ^ (64 * base.val) * (f.tail * ofWord (limb wide (limbs + base.val))) := by
  obtain ⟨⟨hp₁, h₁⟩, ⟨hp₂, h₂⟩, hp₃, h₃⟩ := f.terms_lt
  have hword : limbs + base.val < 2 * limbs := by omega
  have hbase : base.val < 2 * limbs := by omega
  have hnext : base.val + 1 < 2 * limbs := by omega
  rw [limb_of_lt wide hword]
  simp only [foldWord, Pentanomial.terms, List.foldl_cons, List.foldl_nil]
  rw [words_foldTerm _ hbase hnext hk _ hp₃ h₃, words_foldTerm _ hbase hnext hk _ hp₂ h₂,
    words_foldTerm _ hbase hnext hk _ hp₁ h₁,
    words_limb_set_xor _ hbase (Nat.lt_of_succ_lt hk), Pentanomial.tail]
  ring

/-- One turn of `reduce`: without the word folded, what is left is congruent to what was. -/
theorem dvd_foldWord (hlimbs : 2 ≤ limbs) (wide : Vector UInt64 (2 * limbs)) (base : Fin limbs) :
    modulus limbs f ∣ words (limb wide) (limbs + base.val + 1)
      + words (limb (foldWord f wide base)) (limbs + base.val) := by
  -- both words written lie below the one folded, so later turns still read them
  rw [words_foldWord f wide base (by omega), words_succ]
  refine ⟨X ^ (64 * base.val) * ofWord (limb wide (limbs + base.val)), ?_⟩
  have hcancel := CharTwo.add_self_eq_zero (words (limb wide) (limbs + base.val))
  rw [modulus]
  linear_combination hcancel

/-- The loop, from the top word down to `j`. -/
theorem dvd_foldWords (hlimbs : 2 ≤ limbs) (wide : Vector UInt64 (2 * limbs)) {j : Nat}
    (hj : j ≤ limbs) :
    modulus limbs f ∣ poly wide
      + words (limb (((List.finRange limbs).drop j).foldr (fun base wide => foldWord f wide base)
          wide)) (limbs + j) := by
  induction hj using Nat.decreasingInduction with
  | self =>
    rw [List.drop_of_length_le (by simp), List.foldr_nil, ← Nat.two_mul]
    have hcancel : poly wide + poly wide = 0 := CharTwo.add_self_eq_zero _
    exact ⟨0, by rw [mul_zero]; exact hcancel⟩
  | of_succ j hj ih =>
    have hdrop : (List.finRange limbs).drop j = ⟨j, hj⟩ :: (List.finRange limbs).drop (j + 1) := by
      rw [List.drop_eq_getElem_cons (by simpa using hj), List.getElem_finRange]
      rfl
    rw [hdrop, List.foldr_cons]
    generalize ((List.finRange limbs).drop (j + 1)).foldr (fun base wide => foldWord f wide base)
      wide = rest at ih ⊢
    have hstep := dvd_foldWord f hlimbs rest ⟨j, hj⟩
    have hsum := dvd_add ih hstep
    -- the state in between cancels
    rw [← Nat.add_assoc, add_assoc, ← add_assoc (words (limb rest) _),
      CharTwo.add_self_eq_zero, zero_add] at hsum
    exact hsum

/-- `reduce` is the remainder, whatever the double-width array. -/
theorem poly_reduce (hlimbs : 2 ≤ limbs) (wide : Vector UInt64 (2 * limbs)) :
    poly (reduce f wide) = poly wide %ₘ modulus limbs f := by
  have hpos : 0 < limbs := Nat.lt_of_lt_of_le (by decide) hlimbs
  have hloop := dvd_foldWords f hlimbs wide (Nat.zero_le limbs)
  rw [List.drop_zero, Nat.add_zero, ← List.foldl_reverse] at hloop
  have hlow : poly (reduce f wide)
      = words (limb ((List.finRange limbs).reverse.foldl (foldWord f) wide)) limbs := by
    refine poly_ofFn _ _ fun i => ?_
    rw [limb_of_lt _ (by omega)]
    simp only [Nat.zero_add]
  rw [← hlow] at hloop
  exact eq_modByMonic f hpos (below_poly _) hloop

/-- `multiply` is the product modulo the pentanomial, on either path. -/
theorem poly_multiply (hlimbs : 2 ≤ limbs) (clmul : Bool) (a b : Elem limbs) :
    poly (multiply clmul f a b) = poly a * poly b %ₘ modulus limbs f := by
  unfold multiply
  split
  · rw [poly_reduce f hlimbs, poly_polyMulWideHw]
  · rw [poly_reduce f hlimbs, poly_polyMulWide a b (by omega)]

/-! ## Doubling -/

theorem poly_xorAt (out : Elem limbs) {i : Nat} (hi : i < limbs) (w : UInt64) :
    poly (xorAt out i w) = poly out + X ^ (64 * i) * ofWord w := by
  rw [xorAt, dif_pos hi]
  exact words_limb_set_xor out hi hi w

/-- One term under the mask of the top bit. -/
theorem poly_xorAt_term (hlimbs : 0 < limbs) (out : Elem limbs) (w : UInt64) {term : Nat}
    (hterm : term < 64) :
    poly (xorAt out (term / 64) (((0 : UInt64) - ((w >>> 63) &&& 1))
        &&& ((1 : UInt64) <<< UInt64.ofNat (term % 64))))
      = poly out + C (bitCoeff (w.toNat.testBit 63)) * X ^ term := by
  have hbit : ofWord ((1 : UInt64) <<< UInt64.ofNat (term % 64)) = X ^ term := by
    have hlt : 1 <<< term < 2 ^ 64 := by
      rw [Nat.shiftLeft_eq, Nat.one_mul]
      exact Nat.pow_lt_pow_right (by decide) hterm
    rw [Nat.mod_eq_of_lt hterm, ofWord, toNat_shiftLeft_ofNat _ hterm]
    show ofNat (1 <<< term % 2 ^ 64) = _
    rw [Nat.mod_eq_of_lt hlt, ofNat_shiftLeft, ofNat_one, mul_one]
  have hmask := ofWord_and_mask ((1 : UInt64) <<< UInt64.ofNat (term % 64)) w
    (show 63 < 64 by decide)
  rw [hbit, UInt64.and_comm] at hmask
  have hindex : term / 64 = 0 := Nat.div_eq_of_lt hterm
  rw [hindex, poly_xorAt out hlimbs, Nat.mul_zero, pow_zero, one_mul]
  exact congrArg _ hmask

/-- `double` multiplies by `X`: the bit shifted out brings the pentanomial in. -/
theorem poly_double_eq (a : Elem limbs) (hlimbs : 0 < limbs) :
    poly (double f a hlimbs)
      = X * poly a + C (bitCoeff ((limb a (limbs - 1)).toNat.testBit 63)) * modulus limbs f := by
  obtain ⟨⟨-, h₁⟩, ⟨-, h₂⟩, -, h₃⟩ := f.terms_lt
  rw [limb_of_lt a (Nat.sub_lt hlimbs Nat.one_pos)]
  generalize htop : a[limbs - 1] = top
  have hout : ofWord (top >>> UInt64.ofNat (64 - 1)) = C (bitCoeff (top.toNat.testBit 63)) := by
    have hnone : top.toNat >>> 63 >>> 1 = 0 := by
      rw [← Nat.shiftRight_add, Nat.shiftRight_eq_div_pow]
      exact Nat.div_eq_of_lt top.toNat_lt
    rw [ofWord, toNat_shiftRight_ofNat top (by decide), ofNat_eq_low_bit, hnone, ofNat_zero,
      mul_zero, add_zero, Nat.testBit_shiftRight]
  have hshift : X * poly a
      = poly (shl 1 a) + X ^ (64 * limbs) * C (bitCoeff (top.toNat.testBit 63)) := by
    obtain ⟨k, rfl⟩ : ∃ k, limbs = k + 1 := ⟨limbs - 1, by omega⟩
    have hwords := X_pow_mul_words (limb a) (s := 1) (by decide) (by decide) k
    have hlast : limb a k = top := (limb_of_lt a (Nat.lt_succ_self k)).trans htop
    rw [hlast, hout, pow_one] at hwords
    rw [poly_shl]
    exact hwords
  have hfirst : (1 : UInt64) <<< UInt64.ofNat (0 % 64) = 1 := by decide
  have hone := poly_xorAt_term hlimbs (shl 1 a) top (show 0 < 64 by decide)
  rw [hfirst, Nat.zero_div] at hone
  simp only [double, htop, Pentanomial.terms, List.foldl_cons, List.foldl_nil]
  rw [poly_xorAt_term hlimbs _ top h₃, poly_xorAt_term hlimbs _ top h₂,
    poly_xorAt_term hlimbs _ top h₁, hone, hshift, modulus, Pentanomial.tail]
  linear_combination -(CharTwo.add_self_eq_zero
    (X ^ (64 * limbs) * C (bitCoeff (top.toNat.testBit 63))))

theorem poly_double (a : Elem limbs) (hlimbs : 0 < limbs) :
    poly (double f a hlimbs) = X * poly a %ₘ modulus limbs f := by
  refine eq_modByMonic f hlimbs (below_poly _) ?_
  rw [poly_double_eq, ← add_assoc, CharTwo.add_self_eq_zero, zero_add]
  exact dvd_mul_left _ _

end Reduction

/-! ## The quotient ring -/

section Ring

variable (f : Pentanomial)

/-- The element with `c` as its low word. -/
def constant (limbs : Nat) (c : UInt64) : Elem limbs :=
  Vector.ofFn fun i => if i.val = 0 then c else 0

theorem poly_constant (hlimbs : 0 < limbs) (c : UInt64) : poly (constant limbs c) = ofWord c := by
  have habove : ∀ i, 1 ≤ i → i < limbs → (if i = 0 then c else 0) = 0 :=
    fun i hi _ => if_neg (Nat.ne_of_gt hi)
  rw [constant, poly_ofFn _ (fun i => if i = 0 then c else 0) fun i => rfl,
    words_of_zero_above hlimbs habove, words_succ, words_zero, zero_add, Nat.mul_zero, pow_zero,
    one_mul]
  rfl

/-- The class of an element. -/
noncomputable def toQuotient (a : Elem limbs) : AdjoinRoot (modulus limbs f) :=
  AdjoinRoot.mk (modulus limbs f) (poly a)

theorem toQuotient_add (a b : Elem limbs) :
    toQuotient f (add a b) = toQuotient f a + toQuotient f b := by
  rw [toQuotient, poly_add, map_add]
  rfl

theorem mk_modByMonic (p : (ZMod 2)[X]) :
    AdjoinRoot.mk (modulus limbs f) (p %ₘ modulus limbs f) = AdjoinRoot.mk (modulus limbs f) p := by
  rw [modByMonic_eq_sub_mul_div p, map_sub, map_mul, AdjoinRoot.mk_self, zero_mul, sub_zero]

theorem toQuotient_multiply (hlimbs : 2 ≤ limbs) (clmul : Bool) (a b : Elem limbs) :
    toQuotient f (multiply clmul f a b) = toQuotient f a * toQuotient f b := by
  rw [toQuotient, poly_multiply f hlimbs, mk_modByMonic, map_mul]
  rfl

theorem toQuotient_double (a : Elem limbs) (hlimbs : 0 < limbs) :
    toQuotient f (double f a hlimbs) = AdjoinRoot.root (modulus limbs f) * toQuotient f a := by
  rw [toQuotient, poly_double, mk_modByMonic, map_mul, AdjoinRoot.mk_X]
  rfl

theorem toQuotient_zero : toQuotient f (zero limbs) = 0 := by
  rw [toQuotient, poly_zero, map_zero]

theorem toQuotient_one (hlimbs : 0 < limbs) : toQuotient f (constant limbs 1) = 1 := by
  rw [toQuotient, poly_constant hlimbs]
  exact (congrArg _ ofNat_one).trans (map_one _)

theorem toQuotient_two (hlimbs : 0 < limbs) :
    toQuotient f (constant limbs 2) = AdjoinRoot.root (modulus limbs f) := by
  rw [toQuotient, poly_constant hlimbs, ← AdjoinRoot.mk_X]
  exact congrArg _ ((ofNat_two_pow 1).trans (pow_one X))

/-- Each class has one element. -/
theorem toQuotient_injective (hlimbs : 0 < limbs) {a b : Elem limbs}
    (h : toQuotient f a = toQuotient f b) : a = b := by
  have hdvd := AdjoinRoot.mk_eq_mk.mp h
  have hlow : (poly a - poly b).degree < (modulus limbs f).degree := by
    rw [degree_modulus f hlimbs, sub_eq_add_neg, CharTwo.neg_eq]
    exact below_iff.mp ((below_poly a).add (below_poly b))
  exact poly_injective (sub_eq_zero.mp (eq_zero_of_dvd_of_degree_lt hdvd hlow))

theorem toQuotient_add_self (a : Elem limbs) : toQuotient f a + toQuotient f a = 0 := by
  rw [toQuotient, ← map_add, CharTwo.add_self_eq_zero, map_zero]

/-- The ring the two operations make of the elements. -/
theorem ringLaws (hlimbs : 2 ≤ limbs) (clmul : Bool) :
    RingLaws add (multiply clmul f) (zero limbs) (constant limbs 1) :=
  have hpos : 0 < limbs := Nat.lt_of_lt_of_le (by decide) hlimbs
  ringLaws_of_injective (toQuotient f) (toQuotient_injective f hpos) (toQuotient_add f)
    (toQuotient_multiply f hlimbs clmul) (toQuotient_zero f) (toQuotient_one f hpos)
    (toQuotient_add_self f)

theorem double_eq_multiply (hlimbs : 2 ≤ limbs) (clmul : Bool) (a : Elem limbs)
    (hpos : 0 < limbs) : double f a hpos = multiply clmul f a (constant limbs 2) := by
  refine toQuotient_injective f hpos ?_
  rw [toQuotient_double, toQuotient_multiply f hlimbs, toQuotient_two f hpos, mul_comm]

end Ring

theorem Field.two_le_limbs (field : Field) : 2 ≤ field.limbs := by
  cases field <;> decide

/-- The arithmetic of the three fields is that of the polynomials over GF(2) modulo
`x^m + x^f1 + x^f2 + x^f3 + 1`: both products are the polynomial product, `reduce` is the
remainder of every double-width array, `multiply` and `double` are the remainders of `a * b`
and `x * a`. So `add` and `multiply` make a commutative ring, the two paths agree and
`double` is `multiply` by `x`. -/
theorem gf2m_quotient_arithmetic (field : Field) :
    let f := field.pentanomial
    let modulus : (ZMod 2)[X] :=
      X ^ (64 * field.limbs) + X ^ f.f1 + X ^ f.f2 + X ^ f.f3 + 1
    (∀ a b : Elem field.limbs, poly a = poly b → a = b)
    ∧ (∀ a b : Elem field.limbs, poly (add a b) = poly a + poly b)
    ∧ (∀ a b : Elem field.limbs, poly (polyMulWide a b) = poly a * poly b
        ∧ poly (polyMulWideHw a b) = poly a * poly b)
    ∧ (∀ wide : Vector UInt64 (2 * field.limbs), poly (reduce f wide) = poly wide %ₘ modulus)
    ∧ (∀ clmul (a b : Elem field.limbs), poly (multiply clmul f a b) = poly a * poly b %ₘ modulus)
    ∧ (∀ (a : Elem field.limbs) hpos, poly (double f a hpos) = X * poly a %ₘ modulus)
    ∧ (∀ clmul, RingLaws add (multiply clmul f) (zero field.limbs) (constant field.limbs 1))
    ∧ (∀ a b : Elem field.limbs, multiply true f a b = multiply false f a b)
    ∧ ∀ clmul (a : Elem field.limbs) hpos,
        double f a hpos = multiply clmul f a (constant field.limbs 2) := by
  intro f m
  have hlimbs := field.two_le_limbs
  have hpos : 0 < field.limbs := Nat.lt_of_lt_of_le (by decide) hlimbs
  have hm : m = modulus field.limbs f := by
    rw [modulus, Pentanomial.tail]
    ring
  rw [hm]
  refine ⟨fun a b => poly_injective, poly_add, ?_, poly_reduce f hlimbs, poly_multiply f hlimbs,
    poly_double f, ringLaws f hlimbs, ?_, double_eq_multiply f hlimbs⟩
  · intro a b
    exact ⟨poly_polyMulWide a b hpos, poly_polyMulWideHw a b⟩
  · intro a b
    refine poly_injective ?_
    rw [poly_multiply f hlimbs, poly_multiply f hlimbs]

end UaCrypt.Hazmat.Gf2mWide
