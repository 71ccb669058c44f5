import Mathlib

/-!
# Vectors at an index of `Fin`

The index carries its own bound, so that a definition that indexes a vector holds no proof of it.
-/

namespace FinIndex

variable {α : Type*} {n : Nat}

instance instGetElemVectorFin : GetElem (Vector α n) (Fin n) α fun _ _ => True where
  getElem xs i _ := getElem xs i.val i.isLt

@[simp, grind =] theorem getElem_fin (xs : Vector α n) (i : Fin n) :
    xs[i] = getElem xs i.val i.isLt := rfl

instance neZero_eight : NeZero 8 := ⟨by decide⟩

instance neZero_sixteen : NeZero 16 := ⟨by decide⟩

end FinIndex
