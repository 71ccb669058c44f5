import UaCrypt.Lib.FinIndex

/-!
# Rejection sampling

Draws are made until one is accepted. A tape is what a run of draws comes to; over tapes of a
given length every result has as many as its share of the accepted draws, whatever is rejected
in between.

- `firstAccepted accept`: the loop, over draws that may fail.
- `card_yielding_succ`: the tapes with one result, by the first draw.
- `card_yielding_eq`: **results with equally many draws have equally many tapes of each
  length**; `card_undecided`: the tapes that leave the loop running.
- `maskFirst mask bytes`: a random byte string with some bits of its first byte cleared;
  `card_maskFirst`: how many strings come to the same.
-/

namespace RejectionSampling

variable {α β : Type}

/-- Draws until one is accepted or the source fails (`some none`); `none` while it goes on. -/
def firstAccepted (accept : α → Option β) : List (Option α) → Option (Option β)
  | [] => none
  | none :: _ => some none
  | some draw :: rest =>
    match accept draw with
    | some b => some (some b)
    | none => firstAccepted accept rest

theorem firstAccepted_cons_none (accept : α → Option β) {draw : α} (rest : List (Option α))
    (h : accept draw = none) : firstAccepted accept (some draw :: rest) = firstAccepted accept rest := by
  rw [firstAccepted]
  simp only [h]

theorem firstAccepted_cons_some (accept : α → Option β) {draw : α} {b : β} (rest : List (Option α))
    (h : accept draw = some b) : firstAccepted accept (some draw :: rest) = some (some b) := by
  rw [firstAccepted]
  simp only [h]

/-- What the loop ends with was accepted, and everything drawn before was rejected. -/
theorem firstAccepted_eq_some_iff {accept : α → Option β} {draws : List (Option α)} {b : β} :
    firstAccepted accept draws = some (some b)
      ↔ ∃ (rejected : List α) (draw : α) (rest : List (Option α)),
        draws = rejected.map some ++ some draw :: rest
          ∧ (∀ a ∈ rejected, accept a = none) ∧ accept draw = some b := by
  induction draws with
  | nil =>
    constructor
    · intro h
      cases h
    · rintro ⟨rejected, draw, rest, h, -⟩
      exact absurd h.symm (by simp)
  | cons first draws ih =>
    constructor
    · intro h
      cases first with
      | none => cases h
      | some a =>
        cases ha : accept a with
        | some b' =>
          rw [firstAccepted_cons_some accept draws ha] at h
          cases h
          exact ⟨[], a, draws, rfl, nofun, ha⟩
        | none =>
          rw [firstAccepted_cons_none accept draws ha] at h
          obtain ⟨rejected, draw, rest, rfl, hrejected, hdraw⟩ := ih.mp h
          exact ⟨a :: rejected, draw, rest, rfl, List.forall_mem_cons.mpr ⟨ha, hrejected⟩, hdraw⟩
    · rintro ⟨rejected, draw, rest, h, hrejected, hdraw⟩
      cases rejected with
      | nil =>
        cases h
        exact firstAccepted_cons_some accept _ hdraw
      | cons a rejected =>
        cases h
        rw [List.forall_mem_cons] at hrejected
        rw [firstAccepted_cons_none accept _ hrejected.1]
        exact ih.mpr ⟨rejected, draw, rest, rfl, hrejected.2, hdraw⟩

/-! ## Tapes -/

section

variable [Fintype α] [DecidableEq β] (accept : α → Option β)

/-- The draws that are accepted as `b`. -/
def accepted (b : β) : Finset α := Finset.univ.filter fun a => accept a = some b

/-- The draws that are not accepted. -/
def rejected : Finset α := Finset.univ.filter fun a => (accept a).isNone

/-- The loop over a tape of draws that all succeed. -/
def onTape {n : Nat} (tape : Fin n → α) : Option (Option β) :=
  firstAccepted accept ((List.ofFn tape).map some)

/-- The tapes of length `n` that the loop ends with `b` on. -/
def yielding (n : Nat) (b : β) : Finset (Fin n → α) :=
  Finset.univ.filter fun tape => onTape accept tape = some (some b)

/-- The tapes of length `n` that the loop does not end on. -/
def undecided (n : Nat) : Finset (Fin n → α) :=
  Finset.univ.filter fun tape => (onTape accept tape).isNone

omit [Fintype α] [DecidableEq β] in
theorem onTape_succ {n : Nat} (tape : Fin (n + 1) → α) :
    onTape accept tape = match accept (tape 0) with
      | some b => some (some b)
      | none => onTape accept (Fin.tail tape) := by
  rw [onTape, List.ofFn_succ, List.map_cons, firstAccepted]
  rfl

/-- A tape is its first draw and the rest. -/
def splitFirst (n : Nat) : (Fin (n + 1) → α) ≃ α × (Fin n → α) := (Fin.consEquiv fun _ => α).symm

/-- The first draw is accepted as `b`, or it is rejected and the rest yields `b`. -/
theorem card_yielding_succ (n : Nat) (b : β) :
    (yielding accept (n + 1) b).card
      = (accepted accept b).card * Fintype.card α ^ n
        + (rejected accept).card * (yielding accept n b).card := by
  have hdisjoint : Disjoint (accepted accept b ×ˢ (Finset.univ : Finset (Fin n → α)))
      (rejected accept ×ˢ yielding accept n b) := by
    rw [Finset.disjoint_left]
    rintro ⟨a, tape⟩ hleft hright
    rw [Finset.mem_product, accepted, Finset.mem_filter] at hleft
    rw [Finset.mem_product, rejected, Finset.mem_filter] at hright
    have hnone := hright.1.2
    rw [hleft.1.2] at hnone
    cases hnone
  have hsplit := Finset.card_equiv (s := yielding accept (n + 1) b)
    (t := (accepted accept b ×ˢ (Finset.univ : Finset (Fin n → α))).disjUnion
      (rejected accept ×ˢ yielding accept n b) hdisjoint) (splitFirst n) (by
    intro tape
    rw [Finset.mem_disjUnion, Finset.mem_product, Finset.mem_product, yielding, Finset.mem_filter,
      onTape_succ, accepted, Finset.mem_filter, rejected, Finset.mem_filter, yielding,
      Finset.mem_filter]
    have hfirst : (splitFirst n tape).1 = tape 0 := rfl
    have hrest : (splitFirst n tape).2 = Fin.tail tape := rfl
    rw [hfirst, hrest]
    cases accept (tape 0) <;> simp)
  rw [hsplit, Finset.card_disjUnion, Finset.card_product, Finset.card_product, Finset.card_univ,
    Fintype.card_fun, Fintype.card_fin]

/-- **Equally many draws, equally many tapes**, of every length. -/
theorem card_yielding_eq {b b' : β} (h : (accepted accept b).card = (accepted accept b').card)
    (n : Nat) : (yielding accept n b).card = (yielding accept n b').card := by
  induction n with
  | zero => rfl
  | succ n ih => rw [card_yielding_succ, card_yielding_succ, h, ih]

omit [DecidableEq β] in
/-- On these tapes every draw was rejected. -/
theorem card_undecided (n : Nat) :
    (undecided accept n).card = (rejected accept).card ^ n := by
  induction n with
  | zero => rfl
  | succ n ih =>
    have hsplit := Finset.card_equiv (s := undecided accept (n + 1))
      (t := rejected accept ×ˢ undecided accept n) (splitFirst n) (by
      intro tape
      rw [Finset.mem_product, undecided, Finset.mem_filter, onTape_succ, rejected,
        Finset.mem_filter, undecided, Finset.mem_filter]
      have hfirst : (splitFirst n tape).1 = tape 0 := rfl
      have hrest : (splitFirst n tape).2 = Fin.tail tape := rfl
      rw [hfirst, hrest]
      cases accept (tape 0) <;> simp)
    rw [hsplit, Finset.card_product, ih, Nat.pow_succ, Nat.mul_comm]

/-- The rejected draws are all but those of the results. -/
theorem card_rejected {results : Finset β} {share : Nat}
    (hshare : ∀ b ∈ results, (accepted accept b).card = share)
    (hresults : ∀ a b, accept a = some b → b ∈ results) :
    (rejected accept).card + results.card * share = Fintype.card α := by
  have htotal := Finset.card_filter_add_card_filter_not (s := (Finset.univ : Finset α))
    (fun a => (accept a).isNone)
  have hfibre : (Finset.univ.filter fun a => ¬(accept a).isNone).card
      = ∑ b ∈ results, (accepted accept b).card := by
    rw [Finset.card_eq_sum_card_fiberwise (f := accept) (t := results.map ⟨some, Option.some_injective β⟩)]
    · rw [Finset.sum_map]
      refine Finset.sum_congr rfl fun b hb => congrArg Finset.card ?_
      ext a
      rw [Finset.mem_filter, Finset.mem_filter, accepted, Finset.mem_filter]
      constructor
      · rintro ⟨⟨huniv, -⟩, h⟩
        exact ⟨huniv, h⟩
      · rintro ⟨huniv, h⟩
        refine ⟨⟨huniv, ?_⟩, h⟩
        rw [h]
        exact Bool.false_ne_true
    · intro a ha
      rw [Finset.coe_filter, Set.mem_ofPred_eq] at ha
      cases haccept : accept a with
      | none =>
        rw [haccept] at ha
        exact absurd rfl ha.2
      | some b => exact Finset.mem_map.mpr ⟨b, hresults a b haccept, rfl⟩
  rw [hfibre, Finset.sum_congr rfl hshare, Finset.sum_const, Finset.card_univ, smul_eq_mul] at htotal
  exact htotal

end

/-! ## Random bytes -/

/-- A byte is a number below 256. -/
def byteEquiv : Fin 256 ≃ UInt8 where
  toFun i := UInt8.ofFin i
  invFun b := b.toFin
  left_inv _ := rfl
  right_inv _ := rfl

instance instFintypeUInt8 : Fintype UInt8 := Fintype.ofEquiv (Fin 256) byteEquiv

theorem card_uint8 : Fintype.card UInt8 = 256 := by
  rw [Fintype.ofEquiv_card, Fintype.card_fin]

/-- An array is the function of its entries. -/
def vectorEquiv (α : Type) (n : Nat) : (Fin n → α) ≃ Vector α n where
  toFun f := Vector.ofFn f
  invFun v i := v.get i
  left_inv f := by
    funext i
    simp
  right_inv v := by
    apply Vector.ext
    intro i hi
    rw [Vector.getElem_ofFn]
    rfl

instance instFintypeVector (α : Type) [Fintype α] (n : Nat) : Fintype (Vector α n) :=
  Fintype.ofEquiv (Fin n → α) (vectorEquiv α n)

theorem card_bytes (n : Nat) : Fintype.card (Vector UInt8 n) = 256 ^ n := by
  rw [Fintype.ofEquiv_card, Fintype.card_fun, card_uint8, Fintype.card_fin]

variable {n : Nat}

/-- `bytes[0] &= mask`. -/
def maskFirst (hn : 0 < n) (mask : UInt8) (bytes : Vector UInt8 n) : Vector UInt8 n :=
  bytes.set 0 (getElem bytes 0 hn &&& mask) hn

/-- The bytes that a mask leaves `kept` of. -/
def masked (mask kept : UInt8) : Finset UInt8 := Finset.univ.filter fun byte => byte &&& mask = kept

theorem maskFirst_eq_iff (hn : 0 < n) (mask : UInt8) (bytes kept : Vector UInt8 n) :
    maskFirst hn mask bytes = kept
      ↔ ∃ byte, byte &&& mask = getElem kept 0 hn ∧ kept.set 0 byte hn = bytes := by
  constructor
  · rintro rfl
    refine ⟨getElem bytes 0 hn, ?_, ?_⟩
    · rw [maskFirst, Vector.getElem_set_self]
    · rw [maskFirst, Vector.set_set, Vector.set_getElem_self]
  · rintro ⟨byte, hbyte, rfl⟩
    rw [maskFirst, Vector.getElem_set_self, hbyte, Vector.set_set, Vector.set_getElem_self]

/-- As many as there are first bytes that come to the same. -/
theorem card_maskFirst (hn : 0 < n) (mask : UInt8) (kept : Vector UInt8 n) :
    (Finset.univ.filter fun bytes : Vector UInt8 n => maskFirst hn mask bytes = kept).card
      = (masked mask (getElem kept 0 hn)).card := by
  symm
  apply Finset.card_bij fun byte _ => kept.set 0 byte hn
  · intro byte hbyte
    rw [masked, Finset.mem_filter] at hbyte
    rw [Finset.mem_filter]
    exact ⟨Finset.mem_univ _, (maskFirst_eq_iff hn mask _ kept).mpr ⟨byte, hbyte.2, rfl⟩⟩
  · intro byte _ byte' _ h
    have hfirst := congrArg (fun v : Vector UInt8 n => getElem v 0 hn) h
    simpa only [Vector.getElem_set_self] using hfirst
  · intro bytes hbytes
    rw [Finset.mem_filter] at hbytes
    obtain ⟨byte, hbyte, hset⟩ := (maskFirst_eq_iff hn mask bytes kept).mp hbytes.2
    refine ⟨byte, ?_, hset⟩
    rw [masked, Finset.mem_filter]
    exact ⟨Finset.mem_univ _, hbyte⟩

end RejectionSampling
