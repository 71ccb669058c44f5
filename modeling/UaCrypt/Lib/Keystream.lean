import UaCrypt.Lib.FinIndex

/-!
# Block keystreams

A counter-like mode steps a state, takes one block of keystream from it and XORs
that block into the next piece of data, the last piece possibly short.

- `xorArray`: XOR of two blocks, with the algebra that chaining modes need.
- `xorBlocks next s data`: the loop.
- `length_xorBlocks`: it keeps the length; `xorBlocks_xorBlocks`: run twice from
  one state it gives the data back.
-/

namespace Keystream

/-- XOR of a byte string with the start of a longer one. -/
def xorBytes (data gamma : List UInt8) : List UInt8 := List.zipWith (· ^^^ ·) data gamma

theorem length_xorBytes {data gamma : List UInt8} (h : data.length ≤ gamma.length) :
    (xorBytes data gamma).length = data.length := by
  rw [xorBytes, List.length_zipWith, Nat.min_eq_left h]

theorem xorBytes_xorBytes {data gamma : List UInt8} (h : data.length ≤ gamma.length) :
    xorBytes (xorBytes data gamma) gamma = data := by
  induction data generalizing gamma with
  | nil => rfl
  | cons b data ih =>
    cases gamma with
    | nil => exact absurd h (by simp)
    | cons g gamma =>
      have ih := ih (Nat.le_of_succ_le_succ h)
      simp only [xorBytes, List.zipWith_cons_cons] at ih ⊢
      rw [ih, UInt8.xor_assoc, UInt8.xor_self, UInt8.xor_zero]

variable {σ : Type} {n : Nat}

/-- XOR of two blocks. -/
def xorArray (a b : Vector UInt8 n) : Vector UInt8 n := a.zipWith (· ^^^ ·) b

theorem getElem_xorArray (a b : Vector UInt8 n) {i : Nat} (hi : i < n) :
    (xorArray a b)[i] = a[i] ^^^ b[i] := Vector.getElem_zipWith ..

theorem xorArray_comm (a b : Vector UInt8 n) : xorArray a b = xorArray b a := by
  refine Vector.ext fun i hi => ?_
  rw [getElem_xorArray, getElem_xorArray, UInt8.xor_comm]

theorem xorArray_assoc (a b c : Vector UInt8 n) :
    xorArray (xorArray a b) c = xorArray a (xorArray b c) := by
  refine Vector.ext fun i hi => ?_
  simp only [getElem_xorArray, UInt8.xor_assoc]

theorem xorArray_zero (a : Vector UInt8 n) : xorArray a (Vector.replicate n 0) = a := by
  refine Vector.ext fun i hi => ?_
  rw [getElem_xorArray, Vector.getElem_replicate, UInt8.xor_zero]

theorem xorArray_xorArray (a b : Vector UInt8 n) : xorArray (xorArray a b) b = a := by
  refine Vector.ext fun i hi => ?_
  rw [getElem_xorArray, getElem_xorArray, UInt8.xor_assoc, UInt8.xor_self, UInt8.xor_zero]

/-- `while off < data.len()`: step the state, XOR the next `n` bytes with its
keystream block. -/
def xorBlocks (next : σ → σ × Vector UInt8 n) (hn : 0 < n) (s : σ) (data : List UInt8) :
    List UInt8 :=
  if data.length = 0 then []
  else
    let (s', gamma) := next s
    xorBytes (data.take n) gamma.toList ++ xorBlocks next hn s' (data.drop n)
termination_by data.length
decreasing_by
  rw [List.length_drop]
  omega

section

variable (next : σ → σ × Vector UInt8 n) (hn : 0 < n)

@[simp] theorem xorBlocks_nil (s : σ) : xorBlocks next hn s [] = [] := by
  rw [xorBlocks, if_pos List.length_nil]

theorem xorBlocks_of_ne_nil (s : σ) {data : List UInt8} (h : data.length ≠ 0) :
    xorBlocks next hn s data
      = xorBytes (data.take n) (next s).2.toList ++ xorBlocks next hn (next s).1 (data.drop n) := by
  rw [xorBlocks, if_neg h]

theorem length_xorBytes_take (s : σ) (data : List UInt8) :
    (xorBytes (data.take n) (next s).2.toList).length = min n data.length := by
  have hle : (data.take n).length ≤ (next s).2.toList.length := by
    rw [List.length_take, Vector.length_toList]
    omega
  rw [length_xorBytes hle, List.length_take]

@[simp] theorem length_xorBlocks (s : σ) (data : List UInt8) :
    (xorBlocks next hn s data).length = data.length := by
  induction hlen : data.length using Nat.strongRecOn generalizing s data with
  | ind m ih =>
    by_cases h : data.length = 0
    · rw [xorBlocks, if_pos h]
      simpa using h.symm.trans hlen
    · rw [xorBlocks_of_ne_nil next hn s h, List.length_append, length_xorBytes_take,
        ih (data.drop n).length (by rw [List.length_drop]; omega) _ _ rfl, List.length_drop]
      omega

/-- The keystream is its own inverse. -/
theorem xorBlocks_xorBlocks (s : σ) (data : List UInt8) :
    xorBlocks next hn s (xorBlocks next hn s data) = data := by
  induction hlen : data.length using Nat.strongRecOn generalizing s data with
  | ind m ih =>
    by_cases h : data.length = 0
    · obtain rfl : data = [] := List.eq_nil_of_length_eq_zero h
      rw [xorBlocks_nil, xorBlocks_nil]
    · have hne : (xorBlocks next hn s data).length ≠ 0 := by
        rw [length_xorBlocks]
        exact h
      have hpiece := length_xorBytes_take next s data
      rw [xorBlocks_of_ne_nil next hn s hne, xorBlocks_of_ne_nil next hn s h]
      by_cases hshort : data.length ≤ n
      · -- the only block, possibly short: nothing follows it
        have hnil : data.drop n = [] := List.drop_eq_nil_of_le hshort
        rw [Nat.min_eq_right hshort] at hpiece
        have htake := List.take_of_length_le (Nat.le_trans (Nat.le_of_eq hpiece) hshort)
        have hdrop := List.drop_eq_nil_of_le (Nat.le_trans (Nat.le_of_eq hpiece) hshort)
        rw [hnil, xorBlocks_nil, List.append_nil, htake, hdrop, xorBlocks_nil, List.append_nil,
          xorBytes_xorBytes (by rw [List.length_take, Vector.length_toList]; omega),
          List.take_of_length_le hshort]
      · rw [Nat.min_eq_left (by omega)] at hpiece
        rw [List.take_left' hpiece, List.drop_left' hpiece,
          ih (data.drop n).length (by rw [List.length_drop]; omega) _ _ rfl,
          xorBytes_xorBytes (by rw [List.length_take, Vector.length_toList]; omega),
          List.take_append_drop]

end

end Keystream
