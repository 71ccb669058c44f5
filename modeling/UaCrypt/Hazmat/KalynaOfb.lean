import UaCrypt.Hazmat.KalynaCorrect
import UaCrypt.Lib.ByteStream

/-!
# Kalyna-OFB (`hazmat/kalyna_ofb.rs`)

Output feedback: each keystream block is the encryption of the one before, the first that of the
iv. A call finishes the block it finds and then makes one block at a time. Where the source would
panic, a call returns `none`.

- `Ofb.new`, `Ofb.applyInPlace`.
- `after`: the state after `k` bytes, which the calls pass through.
- `applyInPlace_after`: a call, from any of them.
- `ofb_calls`: calls cut in any way.
-/

namespace UaCrypt.Hazmat.KalynaOfb

open Tables Kalyna Keystream ByteStream

/-- `Kalyna*Ofb`. -/
structure Ofb (v : Variant) where
  key : ExpandedKey v
  gamma : Vector UInt8 v.blockBytes
  usedGammaLen : Nat

variable (p : Profile) {v : Variant}

namespace Ofb

def new (v : Variant) (key : Vector UInt8 v.keyBytes) (iv : Vector UInt8 v.blockBytes) : Ofb v :=
  { key := ExpandedKey.new p v key, gamma := iv, usedGammaLen := 0 }

/-- `if self.used_gamma_len != 0`: finish the block. -/
def resume (ofb : Ofb v) (buf : List UInt8) : Option (Ofb v × List UInt8 × List UInt8) :=
  if ofb.usedGammaLen ≠ 0 then
    if ofb.usedGammaLen ≤ v.blockBytes then
      let avail := v.blockBytes - ofb.usedGammaLen
      let n := min avail buf.length
      let out := xorBytes (buf.take n) (ofb.gamma.toList.drop ofb.usedGammaLen)
      some ({ ofb with usedGammaLen := ofb.usedGammaLen + n }, out, buf.drop n)
    else none
  else some (ofb, [], buf)

/-- `while data_off < buf.len()`: a new block each time. -/
def blocks (ofb : Ofb v) (rest : List UInt8) : Ofb v × List UInt8 :=
  if rest.length = 0 then (ofb, [])
  else
    let gamma := ofb.key.encryptBlock p ofb.gamma
    let n := min v.blockBytes rest.length
    let out := xorBytes (rest.take n) gamma.toList
    let (ofb, written) := blocks { ofb with gamma := gamma, usedGammaLen := n } (rest.drop n)
    (ofb, out ++ written)
termination_by rest.length
decreasing_by
  have hpos := v.blockBytes_pos
  rw [List.length_drop]
  omega

/-- XORs the keystream into `buf`, from where the last call stopped. -/
def applyInPlace (ofb : Ofb v) (buf : List UInt8) : Option (Ofb v × List UInt8) :=
  match resume ofb buf with
  | none => none
  | some (ofb, out, rest) =>
    let (ofb, written) := blocks p ofb rest
    some (ofb, out ++ written)

end Ofb

/-! ## The keystream -/

/-- A keystream block, which is the state the next one is made from. -/
def nextGamma (key : ExpandedKey v) (gamma : Vector UInt8 v.blockBytes) :
    Vector UInt8 v.blockBytes × Vector UInt8 v.blockBytes :=
  (key.encryptBlock p gamma, key.encryptBlock p gamma)

def keystream (key : ExpandedKey v) (iv : Vector UInt8 v.blockBytes) : Nat → UInt8 :=
  generate (nextGamma p key) v.blockBytes_pos iv

/-- How many blocks `k` bytes take. -/
def blockCount (v : Variant) (k : Nat) : Nat := (k + v.blockBytes - 1) / v.blockBytes

/-- The state after `k` bytes: the last block made, and how much of it is used. -/
def after (key : ExpandedKey v) (iv : Vector UInt8 v.blockBytes) (k : Nat) : Ofb v where
  key := key
  gamma := (key.encryptBlock p)^[blockCount v k] iv
  usedGammaLen := k - (blockCount v k - 1) * v.blockBytes

section

variable (key : ExpandedKey v) (iv : Vector UInt8 v.blockBytes)

theorem after_zero : after p key iv 0 = { key := key, gamma := iv, usedGammaLen := 0 } := by
  have hpos := v.blockBytes_pos
  have hzero : blockCount v 0 = 0 := Nat.div_eq_of_lt (by omega)
  rw [after, hzero, Nat.zero_sub]
  rfl

/-- Inside the block `j + 1`, or at its end. -/
theorem after_block {j u : Nat} (hu : 0 < u) (hle : u ≤ v.blockBytes) :
    after p key iv (v.blockBytes * j + u)
      = { key := key, gamma := (key.encryptBlock p)^[j + 1] iv, usedGammaLen := u } := by
  have hcount : blockCount v (v.blockBytes * j + u) = j + 1 := by
    rw [blockCount, show v.blockBytes * j + u + v.blockBytes - 1
      = v.blockBytes * (j + 1) + (u - 1) by rw [Nat.mul_succ]; omega]
    rw [Nat.mul_add_div v.blockBytes_pos, Nat.div_eq_of_lt (by omega), Nat.add_zero]
  rw [after, hcount, Nat.add_sub_cancel, Nat.mul_comm j, Nat.add_sub_cancel_left]

/-- Any number of bytes above none ends in some block. -/
theorem exists_block {k : Nat} (hk : 0 < k) :
    ∃ j u, 0 < u ∧ u ≤ v.blockBytes ∧ k = v.blockBytes * j + u := by
  have hpos := v.blockBytes_pos
  have hdiv := Nat.div_add_mod (k - 1) v.blockBytes
  have hmod := Nat.mod_lt (k - 1) hpos
  exact ⟨(k - 1) / v.blockBytes, (k - 1) % v.blockBytes + 1, by omega, by omega, by omega⟩

theorem shift_keystream (j : Nat) :
    shift (keystream p key iv) (v.blockBytes * j)
      = generate (nextGamma p key) v.blockBytes_pos ((key.encryptBlock p)^[j] iv) := by
  induction j with
  | zero => rw [Nat.mul_zero, shift_zero]; rfl
  | succ j ih =>
    rw [Nat.mul_succ, ← shift_shift, ih, shift_generate, Function.iterate_succ_apply']
    rfl

/-- What is left of a block comes first. -/
theorem shift_keystream_block {j u : Nat} (hle : u ≤ v.blockBytes) :
    shift (keystream p key iv) (v.blockBytes * j + u)
      = prepend (((key.encryptBlock p)^[j + 1] iv).toList.drop u)
          (generate (nextGamma p key) v.blockBytes_pos ((key.encryptBlock p)^[j + 1] iv)) := by
  rw [← shift_shift, shift_keystream, generate_eq_prepend, shift_prepend _ (by
    rw [Vector.length_toList]; exact hle), Function.iterate_succ_apply']
  rfl

/-! ## The loops -/

/-- The block loop, from a boundary, whatever the length of the used block says. -/
theorem blocks_boundary (j used : Nat) {rest : List UInt8} (hrest : rest ≠ []) :
    Ofb.blocks p { key := key, gamma := (key.encryptBlock p)^[j] iv, usedGammaLen := used } rest
      = (after p key iv (v.blockBytes * j + rest.length),
          xorWith (shift (keystream p key iv) (v.blockBytes * j)) rest) := by
  induction hm : rest.length using Nat.strongRecOn generalizing j used rest with
  | ind m ih =>
    have hpos := v.blockBytes_pos
    have hne : rest.length ≠ 0 := fun hnil => hrest (List.eq_nil_of_length_eq_zero hnil)
    have hfront : (rest.take v.blockBytes).length
        ≤ ((key.encryptBlock p)^[j + 1] iv).toList.length := by
      rw [List.length_take, Vector.length_toList]
      exact Nat.min_le_left _ _
    have hpiece : xorBytes (rest.take v.blockBytes) ((key.encryptBlock p)^[j + 1] iv).toList
        = xorWith (shift (keystream p key iv) (v.blockBytes * j)) (rest.take v.blockBytes) := by
      rw [← Nat.add_zero (v.blockBytes * j), shift_keystream_block p key iv (Nat.zero_le _),
        List.drop_zero, xorWith_prepend _ hfront]
    have hsplit := xorWith_append (shift (keystream p key iv) (v.blockBytes * j))
      (rest.take v.blockBytes) (rest.drop v.blockBytes)
    rw [List.take_append_drop] at hsplit
    have hnext : key.encryptBlock p ((key.encryptBlock p)^[j] iv)
        = (key.encryptBlock p)^[j + 1] iv := (Function.iterate_succ_apply' _ _ _).symm
    rw [Ofb.blocks, if_neg hne]
    simp only [hnext]
    obtain hshort | hlong := le_or_gt rest.length v.blockBytes
    · -- the last block
      have hnil : rest.drop rest.length = [] := List.drop_length
      rw [Nat.min_eq_right hshort, hnil, Ofb.blocks, if_pos List.length_nil, List.append_nil,
        ← after_block p key iv (Nat.pos_of_ne_zero hne) hshort, ← hm]
      rw [List.take_of_length_le hshort] at hpiece
      rw [List.take_length, hpiece]
    · have hdrop : rest.drop v.blockBytes ≠ [] := by
        rw [ne_eq, List.drop_eq_nil_iff]
        omega
      have hlen : (rest.drop v.blockBytes).length = m - v.blockBytes := by
        rw [List.length_drop, hm]
      have htake : (rest.take v.blockBytes).length = v.blockBytes := by
        rw [List.length_take]
        omega
      rw [Nat.min_eq_left (Nat.le_of_lt hlong), ih _ (by omega) (j + 1) v.blockBytes hdrop hlen,
        hpiece, hsplit, htake, shift_shift, ← Nat.mul_succ]
      simp only [Prod.mk.injEq, and_true]
      congr 1
      rw [Nat.mul_succ]
      omega

/-- **A call goes on where the last one stopped.** -/
theorem applyInPlace_after (k : Nat) (buf : List UInt8) :
    (after p key iv k).applyInPlace p buf
      = some (after p key iv (k + buf.length), xorWith (shift (keystream p key iv) k) buf) := by
  have hnothing (ofb : Ofb v) : Ofb.blocks p ofb [] = (ofb, []) := by
    rw [Ofb.blocks, if_pos List.length_nil]
  obtain rfl | hk := Nat.eq_zero_or_pos k
  · rw [after_zero, Ofb.applyInPlace, Ofb.resume, if_neg (not_not.mpr rfl)]
    by_cases hbuf : buf = []
    · subst hbuf
      simp only [hnothing, xorWith_nil, List.length_nil, List.append_nil]
      rw [Nat.add_zero, after_zero]
    · have hloop := blocks_boundary p key iv 0 0 hbuf
      rw [Nat.mul_zero] at hloop
      simp only [Function.iterate_zero, id_eq] at hloop
      simp only [hloop, List.nil_append]
  · obtain ⟨j, u, hu, hle, rfl⟩ := exists_block (v := v) hk
    rw [after_block p key iv hu hle, Ofb.applyInPlace, Ofb.resume, if_pos (Nat.ne_of_gt hu),
      if_pos hle]
    have hstream := shift_keystream_block p key iv (j := j) hle
    have havail : (((key.encryptBlock p)^[j + 1] iv).toList.drop u).length = v.blockBytes - u := by
      rw [List.length_drop, Vector.length_toList]
    obtain hshort | hlong := le_or_gt buf.length (v.blockBytes - u)
    · have hbytes := xorWith_prepend (generate (nextGamma p key) v.blockBytes_pos
        ((key.encryptBlock p)^[j + 1] iv))
        (show buf.length ≤ _ by rw [havail]; exact hshort)
      simp only [Nat.min_eq_right hshort, List.drop_length, List.take_length, hnothing,
        List.append_nil]
      rw [hstream, hbytes, Nat.add_assoc, after_block p key iv (by omega) (by omega)]
    · -- the block is finished and the loop goes on
      have hdrop : buf.drop (v.blockBytes - u) ≠ [] := by
        rw [ne_eq, List.drop_eq_nil_iff]
        omega
      have htake : (buf.take (v.blockBytes - u)).length = v.blockBytes - u := by
        rw [List.length_take]
        omega
      have hbytes := xorWith_prepend (generate (nextGamma p key) v.blockBytes_pos
        ((key.encryptBlock p)^[j + 1] iv))
        (show (buf.take (v.blockBytes - u)).length ≤ _ from
          Nat.le_of_eq (htake.trans havail.symm))
      have hsplit := xorWith_append (shift (keystream p key iv) (v.blockBytes * j + u))
        (buf.take (v.blockBytes - u)) (buf.drop (v.blockBytes - u))
      have hboundary : v.blockBytes * j + u + (v.blockBytes - u) = v.blockBytes * (j + 1) := by
        rw [Nat.mul_succ]
        omega
      have hend : v.blockBytes * (j + 1) + (buf.drop (v.blockBytes - u)).length
          = v.blockBytes * j + u + buf.length := by
        rw [List.length_drop, Nat.mul_succ]
        omega
      rw [List.take_append_drop, htake, shift_shift, hboundary] at hsplit
      simp only [Nat.min_eq_left (Nat.le_of_lt hlong)]
      rw [blocks_boundary p key iv (j + 1) _ hdrop, hsplit, hstream, hbytes, hend]

end

/-- **OFB under any calls.** Cut in any way, the calls write what one call writes and end in its
state; and what they wrote, in calls cut in any other way from a fresh state, gives the message
back. -/
theorem ofb_calls (v : Variant) (key : Vector UInt8 v.keyBytes) (iv : Vector UInt8 v.blockBytes)
    (calls : List (List UInt8)) :
    ∃ s outs, runCalls (Ofb.applyInPlace p) (Ofb.new p v key iv) calls = some (s, outs)
      ∧ (Ofb.new p v key iv).applyInPlace p calls.flatten = some (s, outs.flatten)
      ∧ ∀ calls', calls'.flatten = outs.flatten →
          ∃ outs', runCalls (Ofb.applyInPlace p) (Ofb.new p v key iv) calls' = some (s, outs')
            ∧ outs'.flatten = calls.flatten := by
  have hnew : Ofb.new p v key iv = after p (ExpandedKey.new p v key) iv 0 := (after_zero ..).symm
  have hrun (calls : List (List UInt8)) (k : Nat) :
      ∃ outs, runCalls (Ofb.applyInPlace p) (after p (ExpandedKey.new p v key) iv k) calls
          = some (after p (ExpandedKey.new p v key) iv (k + calls.flatten.length), outs)
        ∧ outs.flatten
          = xorWith (shift (keystream p (ExpandedKey.new p v key) iv) k) calls.flatten := by
    induction calls generalizing k with
    | nil => exact ⟨[], rfl, rfl⟩
    | cons buf calls ih =>
      obtain ⟨outs, hcalls, hout⟩ := ih (k + buf.length)
      refine ⟨xorWith (shift (keystream p (ExpandedKey.new p v key) iv) k) buf :: outs, ?_, ?_⟩
      · rw [runCalls, applyInPlace_after]
        simp only [hcalls]
        rw [List.flatten_cons, List.length_append, Nat.add_assoc]
      · rw [List.flatten_cons, List.flatten_cons, hout, xorWith_append, shift_shift]
  obtain ⟨outs, hcalls, hout⟩ := hrun calls 0
  rw [hnew]
  refine ⟨_, outs, hcalls, ?_, ?_⟩
  · rw [applyInPlace_after, hout]
  · intro calls' hflat
    obtain ⟨outs', hcalls', hout'⟩ := hrun calls' 0
    refine ⟨outs', ?_, ?_⟩
    · rw [hcalls', hflat, hout, length_xorWith]
    · rw [hout', hflat, hout, xorWith_xorWith]

end UaCrypt.Hazmat.KalynaOfb
