import Mathlib

/-!
# Tables of slots

A fixed row of slots, each empty or holding a value. Several owners claim slots: each
knows which slots are its own and what is in them.

- `Tabled`: the table holds just what is claimed, every slot has one owner.
- `Tabled.register`, `Tabled.release`: a value put into an empty slot, and taken out.
-/

namespace SlotTable

variable {α ι : Type}

/-- The table `slots` holds exactly what the owners claim. -/
structure Tabled (slots : List (Option α)) (claims : ι → List (Nat × α)) : Prop where
  listed : ∀ {i slot a}, (slot, a) ∈ claims i → slots[slot]? = some (some a)
  claimed : ∀ {slot a}, slots[slot]? = some (some a) → ∃ i, (slot, a) ∈ claims i
  single : ∀ {i j slot a b}, (slot, a) ∈ claims i → (slot, b) ∈ claims j → i = j
  nodup : ∀ i, ((claims i).map Prod.fst).Nodup

theorem tabled_empty (n : Nat) : Tabled (List.replicate n (none : Option α)) fun _ : ι => [] := by
  refine ⟨?_, ?_, ?_, fun i => List.nodup_nil⟩
  · rintro i slot a ⟨⟩
  · intro slot a h
    rw [List.getElem?_replicate] at h
    split at h
    · cases h
    · cases h
  · rintro i j slot a b ⟨⟩

section

variable {slots : List (Option α)} {claims : ι → List (Nat × α)}

/-- What the table holds is claimed by someone. -/
theorem Tabled.mem_iff (h : Tabled slots claims) {a : α} :
    some a ∈ slots ↔ ∃ i slot, (slot, a) ∈ claims i := by
  constructor
  · intro hmem
    obtain ⟨slot, hslot⟩ := List.mem_iff_getElem?.mp hmem
    obtain ⟨i, hi⟩ := h.claimed hslot
    exact ⟨i, slot, hi⟩
  · rintro ⟨i, slot, hi⟩
    exact List.mem_iff_getElem?.mpr ⟨slot, h.listed hi⟩

variable [DecidableEq ι]

/-- A value is put into an empty slot. -/
theorem Tabled.register (h : Tabled slots claims) {slot : Nat} (hfree : slots[slot]? = some none)
    (i : ι) (a : α) :
    Tabled (slots.set slot (some a)) (Function.update claims i ((slot, a) :: claims i)) := by
  have hlt : slot < slots.length := (List.getElem?_eq_some_iff.mp hfree).1
  -- nobody claims an empty slot
  have hnew : ∀ {j b}, (slot, b) ∉ claims j := by
    intro j b hj
    rw [h.listed hj] at hfree
    cases hfree
  have hcases : ∀ {j x}, x ∈ Function.update claims i ((slot, a) :: claims i) j →
      (j = i ∧ x = (slot, a)) ∨ x ∈ claims j := by
    intro j x hx
    by_cases hj : j = i
    · subst hj
      rw [Function.update_self, List.mem_cons] at hx
      exact hx.imp (fun heq => ⟨rfl, heq⟩) id
    · rw [Function.update_of_ne hj] at hx
      exact Or.inr hx
  refine ⟨?_, ?_, ?_, ?_⟩
  · intro j slot' b hj
    rcases hcases hj with ⟨-, heq⟩ | hold
    · cases heq
      rw [List.getElem?_set_self hlt]
    · have hne : slot ≠ slot' := by
        rintro rfl
        exact hnew hold
      rw [List.getElem?_set_ne hne]
      exact h.listed hold
  · intro slot' b hslot
    by_cases heq : slot = slot'
    · subst heq
      rw [List.getElem?_set_self hlt] at hslot
      cases hslot
      exact ⟨i, by rw [Function.update_self]; exact List.mem_cons_self⟩
    · rw [List.getElem?_set_ne heq] at hslot
      obtain ⟨j, hj⟩ := h.claimed hslot
      refine ⟨j, ?_⟩
      by_cases hji : j = i
      · subst hji
        rw [Function.update_self]
        exact List.mem_cons_of_mem _ hj
      · rw [Function.update_of_ne hji]
        exact hj
  · intro j k slot' b b' hj hk
    rcases hcases hj with ⟨rfl, heq⟩ | hj'
    · cases heq
      rcases hcases hk with ⟨rfl, -⟩ | hk'
      · rfl
      · exact absurd hk' hnew
    · rcases hcases hk with ⟨rfl, heq⟩ | hk'
      · cases heq
        exact absurd hj' hnew
      · exact h.single hj' hk'
  · intro j
    by_cases hj : j = i
    · subst hj
      rw [Function.update_self, List.map_cons, List.nodup_cons]
      refine ⟨?_, h.nodup j⟩
      intro hmem
      obtain ⟨⟨slot', b⟩, hx, rfl⟩ := List.mem_map.mp hmem
      exact hnew hx
    · rw [Function.update_of_ne hj]
      exact h.nodup j

/-- A claimed value is taken out again. -/
theorem Tabled.release (h : Tabled slots claims) {i : ι} {slot : Nat} {a : α}
    {rest : List (Nat × α)} (hclaims : (claims i).Perm ((slot, a) :: rest)) :
    Tabled (slots.set slot none) (Function.update claims i rest) := by
  have hown : (slot, a) ∈ claims i := hclaims.mem_iff.mpr List.mem_cons_self
  have hnodup := ((hclaims.map Prod.fst).nodup_iff).mp (h.nodup i)
  rw [List.map_cons, List.nodup_cons] at hnodup
  have hold : ∀ {j x}, x ∈ Function.update claims i rest j → x ∈ claims j ∧ x.1 ≠ slot := by
    intro j x hx
    by_cases hj : j = i
    · subst hj
      rw [Function.update_self] at hx
      refine ⟨hclaims.mem_iff.mpr (List.mem_cons_of_mem _ hx), ?_⟩
      rintro rfl
      exact hnodup.1 (List.mem_map.mpr ⟨x, hx, rfl⟩)
    · rw [Function.update_of_ne hj] at hx
      refine ⟨hx, ?_⟩
      rintro rfl
      exact hj (h.single hx hown)
  refine ⟨?_, ?_, ?_, ?_⟩
  · intro j slot' b hj
    rw [List.getElem?_set_ne (Ne.symm (hold hj).2)]
    exact h.listed (hold hj).1
  · intro slot' b hslot
    have hne : slot ≠ slot' := by
      rintro rfl
      rw [List.getElem?_set] at hslot
      simp only [if_true] at hslot
      split at hslot
      · cases hslot
      · cases hslot
    rw [List.getElem?_set_ne hne] at hslot
    obtain ⟨j, hj⟩ := h.claimed hslot
    refine ⟨j, ?_⟩
    by_cases hji : j = i
    · subst hji
      rw [Function.update_self]
      rcases List.mem_cons.mp (hclaims.mem_iff.mp hj) with heq | hrest
      · cases heq
        exact absurd rfl hne
      · exact hrest
    · rw [Function.update_of_ne hji]
      exact hj
  · exact fun hj hk => h.single (hold hj).1 (hold hk).1
  · intro j
    by_cases hj : j = i
    · subst hj
      rw [Function.update_self]
      exact hnodup.2
    · rw [Function.update_of_ne hj]
      exact h.nodup j

end

end SlotTable
