import Mathlib

/-!
# Polynomial hashes

A hash that absorbs each block by `acc = (acc + block) * h` and adds a last value is a
polynomial in `h`: the blocks are the coefficients of `X ^ n … X ^ 1`, the last value the
constant term.

- `hashPoly blocks last`; `eval_hashPoly`: the loop evaluates it.
- `hashPoly_injective`: it determines the last value and, among lists of one length, the
  blocks. A leading zero block leaves no trace, so the length has to come from elsewhere.
- `exists_finset_of_ne`: two different polynomials agree at few points.
-/

namespace PolyHash

open Polynomial

section Ring

variable {K : Type*} [CommRing K]

/-- The blocks times `X ^ n … X ^ 1`. -/
noncomputable def blocksPoly (blocks : List K) : K[X] :=
  ∑ i ∈ Finset.range blocks.length, C (blocks.getD i 0) * X ^ (blocks.length - i)

/-- The blocks, and the last value as the constant term. -/
noncomputable def hashPoly (blocks : List K) (last : K) : K[X] := blocksPoly blocks + C last

/-- The loop: absorb one block. -/
def absorb (h acc block : K) : K := (acc + block) * h

@[simp] theorem blocksPoly_nil : blocksPoly ([] : List K) = 0 := rfl

/-- One more block moves the others up. -/
theorem blocksPoly_concat (blocks : List K) (block : K) :
    blocksPoly (blocks ++ [block]) = (blocksPoly blocks + C block) * X := by
  have hlast : (blocks ++ [block]).getD blocks.length 0 = block := by
    rw [List.getD_eq_getElem?_getD, List.getElem?_concat_length, Option.getD_some]
  have hbefore : ∑ i ∈ Finset.range blocks.length,
      C ((blocks ++ [block]).getD i 0) * X ^ (blocks.length + 1 - i) = blocksPoly blocks * X := by
    rw [blocksPoly, Finset.sum_mul]
    refine Finset.sum_congr rfl fun i hi => ?_
    have hlt := Finset.mem_range.mp hi
    have hget : (blocks ++ [block]).getD i 0 = blocks.getD i 0 := by
      rw [List.getD_eq_getElem?_getD, List.getElem?_append_left hlt, List.getD_eq_getElem?_getD]
    rw [hget, Nat.succ_sub (Nat.le_of_lt hlt), pow_succ, mul_assoc]
  rw [blocksPoly, List.length_append, List.length_singleton, Finset.sum_range_succ, hbefore, hlast,
    Nat.add_sub_cancel_left, pow_one, add_mul]

/-- The loop evaluates the polynomial. -/
theorem eval_blocksPoly (h : K) (blocks : List K) :
    eval h (blocksPoly blocks) = blocks.foldl (absorb h) 0 := by
  induction blocks using List.reverseRecOn with
  | nil => rw [blocksPoly_nil, eval_zero, List.foldl_nil]
  | append_singleton blocks block ih =>
    rw [blocksPoly_concat, List.foldl_append, List.foldl_cons, List.foldl_nil, eval_mul, eval_add,
      eval_C, eval_X, ih, absorb]

theorem eval_hashPoly (h : K) (blocks : List K) (last : K) :
    eval h (hashPoly blocks last) = blocks.foldl (absorb h) 0 + last := by
  rw [hashPoly, eval_add, eval_C, eval_blocksPoly]

theorem natDegree_blocksPoly_le (blocks : List K) :
    (blocksPoly blocks).natDegree ≤ blocks.length :=
  natDegree_sum_le_of_forall_le _ _ fun _ _ =>
    (natDegree_C_mul_X_pow_le _ _).trans (Nat.sub_le _ _)

theorem natDegree_hashPoly_le (blocks : List K) (last : K) :
    (hashPoly blocks last).natDegree ≤ blocks.length := by
  refine (natDegree_add_le _ _).trans (max_le (natDegree_blocksPoly_le blocks) ?_)
  rw [natDegree_C]
  exact Nat.zero_le _

theorem coeff_zero_blocksPoly (blocks : List K) : (blocksPoly blocks).coeff 0 = 0 := by
  induction blocks using List.reverseRecOn with
  | nil => rw [blocksPoly_nil, coeff_zero]
  | append_singleton blocks block _ => rw [blocksPoly_concat, coeff_mul_X_zero]

theorem coeff_zero_hashPoly (blocks : List K) (last : K) :
    (hashPoly blocks last).coeff 0 = last := by
  rw [hashPoly, coeff_add, coeff_zero_blocksPoly, coeff_C_zero, zero_add]

/-- Among lists of one length the polynomial determines the blocks. -/
theorem blocksPoly_injective {blocks blocks' : List K} (hlen : blocks.length = blocks'.length)
    (h : blocksPoly blocks = blocksPoly blocks') : blocks = blocks' := by
  induction blocks using List.reverseRecOn generalizing blocks' with
  | nil => exact (List.eq_nil_of_length_eq_zero hlen.symm).symm
  | append_singleton blocks block ih =>
    rw [List.length_append, List.length_singleton] at hlen
    obtain ⟨front, block', rfl⟩ : ∃ front block', blocks' = front ++ [block'] := by
      have hne : blocks' ≠ [] := List.ne_nil_of_length_pos (by omega)
      exact ⟨_, _, (List.dropLast_append_getLast hne).symm⟩
    rw [List.length_append, List.length_singleton] at hlen
    rw [blocksPoly_concat, blocksPoly_concat] at h
    have hinner : blocksPoly blocks + C block = blocksPoly front + C block' :=
      isRegular_X.right h
    -- the last block is the constant term of what `X` multiplies
    have hblock : block = block' := by
      have hcoeff := congrArg (fun p => coeff p 0) hinner
      simpa [coeff_zero_blocksPoly] using hcoeff
    subst hblock
    rw [ih (Nat.succ.inj hlen) (add_right_cancel hinner)]

/-- The polynomial determines the last value, and the blocks once their number is known. -/
theorem hashPoly_injective {blocks blocks' : List K} {last last' : K}
    (h : hashPoly blocks last = hashPoly blocks' last')
    (hlen : last = last' → blocks.length = blocks'.length) : blocks = blocks' ∧ last = last' := by
  have hlast : last = last' := by
    rw [← coeff_zero_hashPoly blocks last, h, coeff_zero_hashPoly]
  subst hlast
  exact ⟨blocksPoly_injective (hlen rfl) (add_right_cancel h), rfl⟩

end Ring

/-- Two different polynomials of degree at most `n` agree at no more than `n` points, also
through an injective map into the field. -/
theorem exists_finset_of_ne {K α : Type*} [Field K] {P Q : K[X]} {n : Nat} (h : P ≠ Q)
    (hP : P.natDegree ≤ n) (hQ : Q.natDegree ≤ n) {φ : α → K} (hφ : Function.Injective φ) :
    ∃ S : Finset α, S.card ≤ n ∧ ∀ a, a ∉ S → eval (φ a) P ≠ eval (φ a) Q := by
  classical
  have hdegree : (P - Q).natDegree ≤ n := (natDegree_sub_le P Q).trans (max_le hP hQ)
  refine ⟨(P - Q).roots.toFinset.preimage φ hφ.injOn, ?_, ?_⟩
  · have himage : ((P - Q).roots.toFinset.preimage φ hφ.injOn).card
        ≤ (P - Q).roots.toFinset.card := by
      refine Finset.card_le_card_of_injOn φ (fun a ha => ?_) hφ.injOn
      exact Finset.mem_preimage.mp ha
    exact himage.trans ((Multiset.toFinset_card_le _).trans ((card_roots' _).trans hdegree))
  · intro a ha heq
    refine ha (Finset.mem_preimage.mpr (Multiset.mem_toFinset.mpr ?_))
    rw [mem_roots (sub_ne_zero.mpr h), IsRoot.def, eval_sub, heq, sub_self]

end PolyHash
