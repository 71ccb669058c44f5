import UaCrypt.Hazmat.Kalyna
import UaCrypt.Lib.Chunks
import UaCrypt.Lib.Keystream

/-!
# Kalyna-CMAC (`hazmat/kalyna_cmac.rs`)

CBC-MAC over all blocks but the last, which is XORed with an encrypted flag before it goes through
the cipher: zero for a message of whole blocks, one for a padded one.

- `macWithCipher`, `verifyWithCipher`.
- `encode`: the blocks of the padded message and the flag; `encode_injective`.
- `macWithCipher_eq`: the tag as a function of the encoding.
- `macWithCipher_zero_block`: a block of zeros in front cancels the encrypted flag.
-/

namespace UaCrypt.Hazmat.KalynaCmac

open Tables Kalyna Keystream Chunks

inductive CmacError where
  | emptyMessage
  | tagMismatch
  deriving DecidableEq, Repr

variable {v : Variant}

/-- How much of a message goes through the chain. -/
def chainLen (v : Variant) (len : Nat) : Nat :=
  if len % v.blockBytes = 0 then len - v.blockBytes else len / v.blockBytes * v.blockBytes

theorem chainLen_spec (v : Variant) (len : Nat) :
    v.blockBytes ∣ chainLen v len ∧ chainLen v len ≤ len ∧ len - chainLen v len ≤ v.blockBytes
      ∧ (len - chainLen v len) % v.blockBytes = len % v.blockBytes := by
  have hpos := v.blockBytes_pos
  have hdiv := Nat.div_add_mod len v.blockBytes
  have hmod := Nat.mod_lt len hpos
  rw [chainLen]
  split
  · rename_i hzero
    have hdvd := Nat.dvd_of_mod_eq_zero hzero
    refine ⟨Nat.dvd_sub hdvd (Nat.dvd_refl _), Nat.sub_le _ _, by omega, ?_⟩
    rw [hzero]
    exact Nat.mod_eq_zero_of_dvd (Nat.dvd_sub hdvd (Nat.dvd_sub hdvd (Nat.dvd_refl _)))
  · have hrest : len - len / v.blockBytes * v.blockBytes = len % v.blockBytes := by
      rw [Nat.mul_comm]
      omega
    refine ⟨Nat.dvd_mul_left _ _, Nat.div_mul_le_self _ _, by omega, ?_⟩
    rw [hrest, Nat.mod_mod]

theorem sixteen_le_blockBytes (v : Variant) : 16 ≤ v.blockBytes := by
  cases v <;> decide

section

variable (p : Profile)

/-- The tail in a block, with the padding byte after it if it is short. -/
def lastBlock (tail : List UInt8) (hle : tail.length ≤ v.blockBytes) : Vector UInt8 v.blockBytes :=
  let block := overwrite (Vector.replicate v.blockBytes 0) tail
  if h : tail.length % v.blockBytes ≠ 0 then
    block.set tail.length 0x80 (Nat.lt_of_le_of_ne hle fun heq => h (by rw [heq, Nat.mod_self]))
  else block

/-- The block under the last key. -/
def flagBlock (v : Variant) (padded : Bool) : Vector UInt8 v.blockBytes :=
  (Vector.replicate v.blockBytes 0).set 0 (if padded then 1 else 0) v.blockBytes_pos

/-- `state = cipher.encrypt_block(state ^ block)` over the blocks. -/
def chain (cipher : ExpandedKey v) (blocks : List (Vector UInt8 v.blockBytes)) :
    Vector UInt8 v.blockBytes :=
  blocks.foldl (fun state block => cipher.encryptBlock p (xorArray state block))
    (Vector.replicate v.blockBytes 0)

/-- `tag_block[..16]`. -/
def truncate (tagBlock : Vector UInt8 v.blockBytes) : Vector UInt8 16 :=
  ColumnState.slice tagBlock 0 16 (by rw [Nat.zero_add]; exact sixteen_le_blockBytes v)

/-- `mac_with_cipher`. -/
def macWithCipher (cipher : ExpandedKey v) (message : List UInt8) :
    Except CmacError (Vector UInt8 16) :=
  if message.length = 0 then .error .emptyMessage
  else
    let chainLen := chainLen v message.length
    let tail := message.drop chainLen
    have htail : tail.length ≤ v.blockBytes := by
      rw [List.length_drop]
      exact (chainLen_spec v message.length).2.2.1
    let state := chain p cipher
      (chunksExact v.blockBytes v.blockBytes_pos (message.take chainLen))
    let lastBlock := lastBlock tail htail
    let rkey := cipher.encryptBlock p (flagBlock v (decide (tail.length % v.blockBytes ≠ 0)))
    let state := xorArray state (xorArray lastBlock rkey)
    let tagBlock := cipher.encryptBlock p state
    .ok (truncate tagBlock)

/-- `mac`. -/
def mac (v : Variant) (key : Vector UInt8 v.keyBytes) (message : List UInt8) :
    Except CmacError (Vector UInt8 16) :=
  macWithCipher p (ExpandedKey.new p v key) message

/-- `verify_with_cipher`. -/
def verifyWithCipher (cipher : ExpandedKey v) (message : List UInt8) (expected : Vector UInt8 16) :
    Except CmacError Unit :=
  match macWithCipher p cipher message with
  | .error e => .error e
  | .ok tag => if tag = expected then .ok () else .error .tagMismatch

end

theorem verifyWithCipher_eq_ok_iff (p : Profile) (cipher : ExpandedKey v) (message : List UInt8)
    (expected : Vector UInt8 16) :
    verifyWithCipher p cipher message expected = .ok ()
      ↔ macWithCipher p cipher message = .ok expected := by
  rw [verifyWithCipher]
  split
  · rename_i e hmac
    rw [hmac]
    exact iff_of_false (by simp) (by simp)
  · rename_i tag hmac
    rw [hmac, Except.ok.injEq]
    split
    · rename_i heq
      exact iff_of_true rfl heq
    · rename_i hne
      exact iff_of_false (by simp) hne

/-! ## The encoding of a message -/

/-- A message filled up to whole blocks. -/
def pad (v : Variant) (message : List UInt8) : List UInt8 :=
  if v.blockBytes ∣ message.length then message
  else message ++ 0x80 :: List.replicate (v.blockBytes - message.length % v.blockBytes - 1) 0

/-- The blocks of the padded message, and whether there is padding. -/
def encode (v : Variant) (message : List UInt8) : List (Vector UInt8 v.blockBytes) × Bool :=
  (chunksExact v.blockBytes v.blockBytes_pos (pad v message),
    decide (message.length % v.blockBytes ≠ 0))

theorem dvd_length_pad (v : Variant) (message : List UInt8) :
    v.blockBytes ∣ (pad v message).length := by
  rw [pad]
  split
  · assumption
  · rename_i hndvd
    have hmod := Nat.mod_lt message.length v.blockBytes_pos
    have hne := mt Nat.dvd_of_mod_eq_zero hndvd
    have hdiv := Nat.div_add_mod message.length v.blockBytes
    refine ⟨message.length / v.blockBytes + 1, ?_⟩
    rw [List.length_append, List.length_cons, List.length_replicate, Nat.mul_succ]
    omega

/-- The marker before zeros says where they start. -/
theorem eq_of_marker {k k' : Nat} {xs ys : List UInt8}
    (h : List.replicate k 0 ++ 0x80 :: xs = List.replicate k' 0 ++ 0x80 :: ys) : xs = ys := by
  induction k generalizing k' with
  | zero =>
    cases k' with
    | zero => exact (List.cons.inj h).2
    | succ k' => exact absurd (List.cons.inj h).1 (by decide)
  | succ k ih =>
    cases k' with
    | zero => exact absurd (List.cons.inj h).1 (by decide)
    | succ k' => exact ih (List.cons.inj h).2

/-- **The blocks and the flag determine the message.** Only the flag tells a padded message from
one that has the padding as its own bytes. -/
theorem encode_injective {message message' : List UInt8}
    (h : encode v message = encode v message') : message = message' := by
  obtain ⟨hblocks, hflag⟩ := Prod.mk.inj h
  have hpad : pad v message = pad v message' := by
    rw [← joinChunks_chunksExact v.blockBytes_pos (dvd_length_pad v message), hblocks,
      joinChunks_chunksExact v.blockBytes_pos (dvd_length_pad v message')]
  have hiff := decide_eq_decide.mp hflag
  by_cases hdvd : v.blockBytes ∣ message.length
  · have hdvd' : v.blockBytes ∣ message'.length := by
      by_contra hnot
      exact hiff.mpr (mt Nat.dvd_of_mod_eq_zero hnot) (Nat.mod_eq_zero_of_dvd hdvd)
    rwa [pad, pad, if_pos hdvd, if_pos hdvd'] at hpad
  · have hndvd' : ¬v.blockBytes ∣ message'.length := by
      intro hdvd'
      exact hiff.mp (mt Nat.dvd_of_mod_eq_zero hdvd) (Nat.mod_eq_zero_of_dvd hdvd')
    rw [pad, pad, if_neg hdvd, if_neg hndvd'] at hpad
    have hreverse := congrArg List.reverse hpad
    simp only [List.reverse_append, List.reverse_cons, List.reverse_replicate, List.append_assoc,
      List.singleton_append] at hreverse
    exact List.reverse_injective (eq_of_marker hreverse)

/-- The last block is the end of the padded message. -/
theorem toList_lastBlock {message : List UInt8} (hpos : 0 < message.length)
    (hle : (message.drop (chainLen v message.length)).length ≤ v.blockBytes) :
    (lastBlock (message.drop (chainLen v message.length)) hle).toList
      = (pad v message).drop (chainLen v message.length) := by
  obtain ⟨hchain, hfit, hroom, hmod⟩ := chainLen_spec v message.length
  have hlen : (message.drop (chainLen v message.length)).length
      = message.length - chainLen v message.length := List.length_drop
  rw [pad]
  by_cases hdvd : v.blockBytes ∣ message.length
  · have hzero := Nat.mod_eq_zero_of_dvd hdvd
    have hfull : message.length - chainLen v message.length = v.blockBytes := by
      rw [chainLen, if_pos hzero]
      have hge := Nat.le_of_dvd hpos hdvd
      omega
    rw [lastBlock, dif_neg (by rw [hlen, hmod, hzero, not_not]), if_pos hdvd,
      toList_overwrite_of_length _ (hlen.trans hfull)]
  · have hshort := mt Nat.dvd_of_mod_eq_zero hdvd
    have hlt : message.length - chainLen v message.length < v.blockBytes := by
      refine Nat.lt_of_le_of_ne hroom fun heq => ?_
      rw [heq, Nat.mod_self] at hmod
      exact hshort hmod.symm
    have hrest : message.length - chainLen v message.length = message.length % v.blockBytes := by
      rw [← hmod, Nat.mod_eq_of_lt hlt]
    rw [lastBlock, dif_pos (by rw [hlen, hmod]; exact hshort), if_neg hdvd,
      List.drop_append_of_le_length hfit, Vector.toList_set, toList_overwrite _ hle,
      Vector.toList_replicate, List.drop_replicate, hlen, hrest]
    have hzeros : v.blockBytes - message.length % v.blockBytes
        = v.blockBytes - message.length % v.blockBytes - 1 + 1 := by omega
    rw [hzeros, List.replicate_succ, List.set_append_right _ _ (by rw [hlen, hrest]), hlen, hrest,
      Nat.sub_self]
    rfl

/-- **The tag is a function of the encoding**: all blocks but the last go through the chain. -/
theorem macWithCipher_eq (p : Profile) (cipher : ExpandedKey v) {message : List UInt8}
    (h : message ≠ []) :
    ∃ chained last, (encode v message).1 = chained ++ [last]
      ∧ macWithCipher p cipher message
        = .ok (truncate (cipher.encryptBlock p (xorArray (xorArray (chain p cipher chained) last)
            (cipher.encryptBlock p (flagBlock v (encode v message).2))))) := by
  have hpos := List.length_pos_iff.mpr h
  obtain ⟨hchain, hfit, hroom, hmod⟩ := chainLen_spec v message.length
  have hle : (message.drop (chainLen v message.length)).length ≤ v.blockBytes := by
    rw [List.length_drop]
    exact hroom
  have hlast := toList_lastBlock hpos hle
  have hfront : (pad v message).take (chainLen v message.length)
      = message.take (chainLen v message.length) := by
    rw [pad]
    split
    · rfl
    · exact List.take_append_of_le_length hfit
  have hsplit := List.take_append_drop (chainLen v message.length) (pad v message)
  rw [hfront, ← hlast] at hsplit
  refine ⟨chunksExact v.blockBytes v.blockBytes_pos (message.take (chainLen v message.length)),
    lastBlock _ hle, ?_, ?_⟩
  · have hsingle := chunksExact_joinChunks v.blockBytes_pos [lastBlock _ hle]
    rw [joinChunks, List.flatMap_singleton] at hsingle
    rw [encode, ← hsplit, chunksExact_append_of_dvd v.blockBytes_pos _ (by
      rw [List.length_take, Nat.min_eq_left hfit]
      exact hchain), hsingle]
  · rw [macWithCipher, if_neg (Nat.ne_of_gt hpos)]
    simp only [List.length_drop, hmod, xorArray_assoc, encode]

/-! ## The block-encryption oracle -/

theorem flagBlock_false (v : Variant) : flagBlock v false = Vector.replicate v.blockBytes 0 := by
  rw [flagBlock, if_neg Bool.false_ne_true, Vector.set_replicate_self]

/-- **A block of zeros in front cancels the encrypted flag**: the tag is the front of the block's
encryption. -/
theorem macWithCipher_zero_block (p : Profile) (cipher : ExpandedKey v)
    (y : Vector UInt8 v.blockBytes) :
    macWithCipher p cipher (List.replicate v.blockBytes 0 ++ y.toList)
      = .ok (truncate (cipher.encryptBlock p y)) := by
  have hpos := v.blockBytes_pos
  have hlen : (List.replicate v.blockBytes (0 : UInt8) ++ y.toList).length
      = v.blockBytes + v.blockBytes := by
    rw [List.length_append, List.length_replicate, Vector.length_toList]
  have hdvd : v.blockBytes ∣ (List.replicate v.blockBytes (0 : UInt8) ++ y.toList).length := by
    rw [hlen]
    exact ⟨2, (Nat.mul_two _).symm⟩
  have hblocks : (encode v (List.replicate v.blockBytes 0 ++ y.toList)).1
      = [Vector.replicate v.blockBytes 0] ++ [y] := by
    have hjoin := chunksExact_joinChunks hpos ([Vector.replicate v.blockBytes 0] ++ [y])
    rw [joinChunks_append, joinChunks, joinChunks, List.flatMap_singleton, List.flatMap_singleton,
      Vector.toList_replicate] at hjoin
    rw [encode, pad, if_pos hdvd, hjoin]
  have hflag : (encode v (List.replicate v.blockBytes 0 ++ y.toList)).2 = false :=
    decide_eq_false (not_not.mpr (Nat.mod_eq_zero_of_dvd hdvd))
  obtain ⟨chained, last, henc, hmac⟩ := macWithCipher_eq p cipher
    (show List.replicate v.blockBytes 0 ++ y.toList ≠ [] from
      List.ne_nil_of_length_pos (by omega))
  rw [hblocks] at henc
  obtain ⟨rfl, hlast⟩ := List.append_inj' henc rfl
  obtain rfl := (List.cons.inj hlast).1
  have hchain : chain p cipher [Vector.replicate v.blockBytes 0]
      = cipher.encryptBlock p (Vector.replicate v.blockBytes 0) := by
    rw [chain, List.foldl_cons, List.foldl_nil, xorArray_zero]
  rw [hmac, hflag, flagBlock_false, hchain, xorArray_comm _ y, xorArray_xorArray]

/-- **The input of the tag.** It is the encoding, which determines the message; and a chosen block
after a block of zeros shows its encryption. -/
theorem cmac_encoding (p : Profile) (v : Variant) (key : Vector UInt8 v.keyBytes) :
    (∀ message, message ≠ [] →
        ∃ chained last, (encode v message).1 = chained ++ [last]
          ∧ mac p v key message
            = .ok (truncate ((ExpandedKey.new p v key).encryptBlock p
                (xorArray (xorArray (chain p (ExpandedKey.new p v key) chained) last)
                  ((ExpandedKey.new p v key).encryptBlock p
                    (flagBlock v (encode v message).2))))))
      ∧ (∀ message message', message ≠ [] → message' ≠ [] →
          encode v message = encode v message' → message = message')
      ∧ ∀ y : Vector UInt8 v.blockBytes,
          mac p v key (List.replicate v.blockBytes 0 ++ y.toList)
            = .ok (truncate ((ExpandedKey.new p v key).encryptBlock p y)) := by
  refine ⟨?_, ?_, ?_⟩
  · exact fun message h => macWithCipher_eq p (ExpandedKey.new p v key) h
  · exact fun message message' _ _ h => encode_injective h
  · exact macWithCipher_zero_block p (ExpandedKey.new p v key)

end UaCrypt.Hazmat.KalynaCmac
