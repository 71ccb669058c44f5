import Mathlib

/-!
# Round ciphers

The shape of an iterated block cipher: a keyless round `R`, a key mixed in after
each one.

- `rounds R add keys s`: the interior rounds, in key order.
- `rounds_unwind`: rounds of an inverse `D`, run over the keys in reverse, take
  the rounds back.
- `rounds_equivalent_inverse`: the equivalent inverse cipher. Where a layer `L`
  distributes over the key mixing, rounds `N ∘ L` with the original keys are
  rounds `L ∘ N` with keys passed through `L`.
- `foldl_reverse_cancel`: the same for steps that each carry their own inverse.
- `foldl_bijective`: rounds that are permutations make one.
- `foldl_unique_write`: what a scatter loop leaves in a cell that one iteration
  writes.
-/

namespace RoundCipher

variable {σ κ : Type*}

/-- `for key in keys { state = R(state); state = add(state, key) }`. -/
def rounds (R : σ → σ) (add : σ → κ → σ) (keys : List κ) (s : σ) : σ :=
  keys.foldl (fun s key => add (R s) key) s

@[simp] theorem rounds_cons (R : σ → σ) (add : σ → κ → σ) (key : κ) (keys : List κ) (s : σ) :
    rounds R add (key :: keys) s = rounds R add keys (add (R s) key) := rfl

@[simp] theorem rounds_append_singleton (R : σ → σ) (add : σ → κ → σ) (keys : List κ) (key : κ)
    (s : σ) : rounds R add (keys ++ [key]) s = add (R (rounds R add keys s)) key := by
  simp [rounds]

/-- The rounds are taken back by rounds of the inverse over the reversed keys, up
to the one keyless round on either side. -/
theorem rounds_unwind {R D : σ → σ} (add : σ → κ → σ) (hD : ∀ s, D (R s) = s)
    (hadd : ∀ s key, add (add s key) key = s) (keys : List κ) (s : σ) :
    rounds D add keys.reverse (R (rounds R add keys s)) = R s := by
  -- the last key in is the first key out
  induction keys using List.reverseRecOn with
  | nil => rfl
  | append_singleton keys key ih =>
    rw [rounds_append_singleton, List.reverse_concat, rounds_cons, hD, hadd, ih]

/-- Steps undone in the opposite order. -/
theorem foldl_reverse_cancel {f g : σ → κ → σ} (h : ∀ s key, g (f s key) key = s) (keys : List κ)
    (s : σ) : keys.reverse.foldl g (keys.foldl f s) = s := by
  induction keys using List.reverseRecOn with
  | nil => rfl
  | append_singleton keys key ih =>
    rw [List.foldl_append, List.reverse_concat, List.foldl_cons, List.foldl_cons, List.foldl_nil, h,
      ih]

/-- A loop of permutations is one. -/
theorem foldl_bijective {f : σ → κ → σ} (h : ∀ key, Function.Bijective fun s => f s key)
    (keys : List κ) : Function.Bijective fun s => keys.foldl f s := by
  induction keys with
  | nil => exact Function.bijective_id
  | cons key keys ih => exact ih.comp (h key)

/-- The equivalent inverse cipher: `L` moves from the front of every round to its
end, through the key. -/
theorem rounds_equivalent_inverse {L N : σ → σ} {L' : κ → κ} (add : σ → κ → σ)
    (hL : ∀ s key, L (add s key) = add (L s) (L' key)) (keys : List κ) (s : σ) :
    rounds (fun s => L (N s)) add (keys.map L') (L s)
      = L (rounds (fun s => N (L s)) add keys s) := by
  induction keys generalizing s with
  | nil => rfl
  | cons key keys ih =>
    rw [List.map_cons, rounds_cons, rounds_cons, ← hL, ih]

/-- A cell that iteration `i₀` sets to `v` and no other iteration touches holds
`v` when the loop is done. -/
theorem foldl_unique_write {ι β : Type*} {write : σ → ι → σ} (cell : σ → β) (i₀ : ι) {v : β}
    (hwrite : ∀ s, cell (write s i₀) = v)
    (hframe : ∀ s i, i ≠ i₀ → cell (write s i) = cell s)
    (is : List ι) (hmem : i₀ ∈ is) (init : σ) : cell (is.foldl write init) = v := by
  induction is using List.reverseRecOn with
  | nil => exact absurd hmem List.not_mem_nil
  | append_singleton is i ih =>
    rw [List.foldl_append, List.foldl_cons, List.foldl_nil]
    by_cases hi : i = i₀
    · rw [hi, hwrite]
    · rw [hframe _ i hi]
      refine ih ?_
      rcases List.mem_append.mp hmem with h | h
      · exact h
      · exact absurd (List.mem_singleton.mp h).symm hi

end RoundCipher
