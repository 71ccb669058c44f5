import UaCrypt.Hazmat.KalynaGcm

/-!
# Kalyna-GMAC (`hazmat/kalyna_gmac.rs`)

The MAC-only sibling of GCM. The loop walks the padded length by offsets and puts the
`0x80` marker in place as it passes the end of the message, where GCM cuts whole blocks
and pads what is left.

- `Gmac.mac`, `Gmac.verify`, and their `with_cipher` forms.
- `macLoop_eq`: from an aligned offset the loop is `absorb_padded` of what is ahead of it.
- `mac_eq_encrypt`: GMAC is GCM with no plaintext.
-/

namespace UaCrypt.Hazmat.KalynaGmac

open LittleEndian ColumnState Kalyna Chunks KalynaGcm

inductive GmacError where
  | emptyMessage
  | invalidLength
  | tagMismatch
  deriving DecidableEq, Repr

namespace Gmac

variable (b : Build) {v : Variant}

/-- The block at `off`: the message bytes there, and the marker if the message ends in
it. -/
def messageBlock (message : List UInt8) (off : Nat) : Vector UInt8 v.blockBytes :=
  let msgLen := message.length
  let fin := min (off + v.blockBytes) msgLen
  let block := Vector.replicate v.blockBytes 0
  let block := if off < fin then overwrite block ((message.drop off).take (fin - off)) else block
  if h : msgLen % v.blockBytes ≠ 0 ∧ off ≤ msgLen ∧ msgLen < off + v.blockBytes then
    block.set (msgLen - off) 0x80
  else block

/-- `while off < padded_len`. -/
def macLoop (hKey : Gf2mWide.Elem v.nb) (message : List UInt8) (paddedLen : Nat)
    (acc : Gf2mWide.Elem v.nb) (off : Nat) : Gf2mWide.Elem v.nb :=
  if off < paddedLen then
    let block := Gf2mWide.fromBytes (messageBlock (v := v) message off)
    let acc := Gf2mWide.multiply b.clmul (field v) (Gf2mWide.add acc block) hKey
    macLoop hKey message paddedLen acc (off + v.blockBytes)
  else acc
termination_by paddedLen - off
decreasing_by
  have hpos := blockBytes_pos v
  omega

/-- The message length rounded up to whole blocks. -/
def paddedLen (v : Variant) (msgLen : Nat) : Nat :=
  let rem := msgLen % v.blockBytes
  if rem = 0 then msgLen else msgLen + (v.blockBytes - rem)

def macWithBitLen (cipher : ExpandedKey v) (message : List UInt8) (bitLen : UInt64) :
    Vector UInt8 v.blockBytes :=
  let hKey : Gf2mWide.Elem v.nb :=
    Gf2mWide.fromBytes (cipher.encryptBlock b.profile (Vector.replicate v.blockBytes 0))
  let acc := macLoop b hKey message (paddedLen v message.length) (Gf2mWide.zero v.nb) 0
  let lengthBlock := overwrite (Vector.replicate v.blockBytes 0) (toLeBytes bitLen).toList
  let combined := lengthBlock.zipWith (· ^^^ ·) (Gf2mWide.toBytes acc)
  cipher.encryptBlock b.profile combined

def macWithCipher (cipher : ExpandedKey v) (message : List UInt8) :
    Except GmacError (Vector UInt8 v.blockBytes) :=
  if message.isEmpty then .error .emptyMessage
  else
    match checkedBitLen message.length with
    | none => .error .invalidLength
    | some bitLen => .ok (macWithBitLen b cipher message bitLen)

/-- The full-length tag, under a schedule expanded for this call. -/
def mac (v : Variant) (key : Vector UInt8 v.keyBytes) (message : List UInt8) :
    Except GmacError (Vector UInt8 v.blockBytes) :=
  macWithCipher b (ExpandedKey.new b.profile v key) message

def verifyWithCipher (cipher : ExpandedKey v) (message tag : List UInt8) :
    Except GmacError Unit :=
  if ¬(8 ≤ tag.length ∧ tag.length ≤ v.blockBytes) then .error .invalidLength
  else
    match macWithCipher b cipher message with
    | .error e => .error e
    | .ok expected =>
      if expected.toList.take tag.length = tag then .ok () else .error .tagMismatch

def verify (v : Variant) (key : Vector UInt8 v.keyBytes) (message tag : List UInt8) :
    Except GmacError Unit :=
  verifyWithCipher b (ExpandedKey.new b.profile v key) message tag

/-! ## The two loops -/

/-- The block in front of the end of the message is the bytes there. -/
theorem messageBlock_of_le {message : List UInt8} {off : Nat}
    (h : v.blockBytes ≤ (message.drop off).length) :
    messageBlock message off = headChunk v.blockBytes (message.drop off) h := by
  have hpos := blockBytes_pos v
  have hlen := h
  rw [List.length_drop] at hlen
  have hfin : min (off + v.blockBytes) message.length = off + v.blockBytes := by omega
  have hnot : ¬(message.length % v.blockBytes ≠ 0 ∧ off ≤ message.length
      ∧ message.length < off + v.blockBytes) := by omega
  unfold messageBlock
  simp only [hfin, dif_neg hnot, if_pos (Nat.lt_add_of_pos_right hpos), Nat.add_sub_cancel_left]
  refine Vector.toList_inj.mp ?_
  rw [toList_overwrite_of_length _ (by rw [List.length_take]; omega)]
  rfl

/-- The length of what is ahead of an aligned offset, modulo the block. -/
theorem length_drop_mod {message : List UInt8} {off : Nat} (hoff : off ≤ message.length)
    (hdvd : v.blockBytes ∣ off) :
    (message.drop off).length % v.blockBytes = message.length % v.blockBytes := by
  obtain ⟨k, rfl⟩ := hdvd
  rw [List.length_drop, Nat.sub_mul_mod hoff]

/-- A tail in a zero block with the marker after it. -/
theorem set_overwrite_eq_padTail {tail : List UInt8} (hlt : tail.length < v.blockBytes) :
    (overwrite (Vector.replicate v.blockBytes 0) tail).set tail.length 0x80 hlt
      = Gcm.padTail (v := v) tail := by
  refine Vector.ext fun i hi => ?_
  rw [Vector.getElem_set, getElem_overwrite, Vector.getElem_replicate]
  simp only [Gcm.padTail, Vector.getElem_ofFn]
  by_cases hmarker : tail.length = i
  · subst hmarker
    rw [if_pos rfl, List.getD_eq_getElem?_getD, List.getElem?_concat_length, Option.getD_some]
  · rw [if_neg hmarker]
    split
    · rename_i hin
      rw [List.getD_eq_getElem?_getD, List.getElem?_append_left hin, List.getElem?_eq_getElem hin,
        Option.getD_some]
    · rename_i hout
      have hlong : (tail ++ [0x80]).length ≤ i := by
        rw [List.length_append, List.length_singleton]
        omega
      rw [List.getD_eq_getElem?_getD, List.getElem?_eq_none hlong, Option.getD_none]

/-- The block the message ends in is its tail, padded. -/
theorem messageBlock_of_lt {message : List UInt8} {off : Nat} (hoff : off < message.length)
    (hlt : (message.drop off).length < v.blockBytes) (hdvd : v.blockBytes ∣ off) :
    messageBlock message off = Gcm.padTail (v := v) (message.drop off) := by
  have hrem := length_drop_mod (Nat.le_of_lt hoff) hdvd
  rw [Nat.mod_eq_of_lt hlt] at hrem
  have htail : (message.drop off).length = message.length - off := List.length_drop
  have hfin : min (off + v.blockBytes) message.length = message.length := by omega
  have hends : message.length % v.blockBytes ≠ 0 ∧ off ≤ message.length
      ∧ message.length < off + v.blockBytes := by omega
  unfold messageBlock
  simp only [hfin, dif_pos hends, if_pos hoff, ← htail, List.take_length]
  exact set_overwrite_eq_padTail hlt

/-- `absorb_padded` takes its whole blocks one at a time. -/
theorem absorbPadded_of_le (hKey acc : Gf2mWide.Elem v.nb) {data : List UInt8}
    (h : v.blockBytes ≤ data.length) :
    Gcm.absorbPadded b acc hKey data
      = Gcm.absorbPadded b (Gcm.absorbBlock b hKey acc (headChunk v.blockBytes data h)) hKey
          (data.drop v.blockBytes) := by
  have hrem : remainder v.blockBytes data = remainder v.blockBytes (data.drop v.blockBytes) := by
    have htake : (data.take v.blockBytes).length = v.blockBytes := by
      rw [List.length_take, Nat.min_eq_left h]
    have hsplit := remainder_append_of_dvd (blockBytes_pos v) (data.drop v.blockBytes)
      (show v.blockBytes ∣ (data.take v.blockBytes).length by rw [htake])
    rwa [List.take_append_drop] at hsplit
  rw [Gcm.absorbPadded, chunksExact, dif_pos h, List.foldl_cons, hrem]
  rfl

theorem absorbPadded_of_lt (hKey acc : Gf2mWide.Elem v.nb) {data : List UInt8}
    (h : data.length < v.blockBytes) :
    Gcm.absorbPadded b acc hKey data
      = if data.isEmpty then acc else Gcm.absorbBlock b hKey acc (Gcm.padTail data) := by
  rw [Gcm.absorbPadded, chunksExact_of_lt (blockBytes_pos v) h, List.foldl_nil, remainder_of_lt h]

theorem paddedLen_of_aligned {msgLen : Nat} (h : msgLen % v.blockBytes = 0) :
    paddedLen v msgLen = msgLen := if_pos h

theorem paddedLen_of_unaligned {msgLen : Nat} (h : msgLen % v.blockBytes ≠ 0) :
    paddedLen v msgLen = msgLen + (v.blockBytes - msgLen % v.blockBytes) := if_neg h

theorem le_paddedLen (msgLen : Nat) : msgLen ≤ paddedLen v msgLen := by
  by_cases h : msgLen % v.blockBytes = 0
  · rw [paddedLen_of_aligned h]
  · rw [paddedLen_of_unaligned h]
    exact Nat.le_add_right _ _

/-- From an aligned offset the loop absorbs what is ahead, as GCM does. The induction is
on the number of bytes ahead. -/
theorem macLoop_eq (hKey acc : Gf2mWide.Elem v.nb) (message : List UInt8) {off : Nat}
    (hoff : off ≤ message.length) (hdvd : v.blockBytes ∣ off) :
    macLoop b hKey message (paddedLen v message.length) acc off
      = Gcm.absorbPadded b acc hKey (message.drop off) := by
  have hpos := blockBytes_pos v
  induction hahead : message.length - off using Nat.strongRecOn generalizing acc off with
  | ind n ih =>
    have hlen : (message.drop off).length = message.length - off := List.length_drop
    have hmod := length_drop_mod hoff hdvd
    have hpadded : message.length ≤ paddedLen v message.length := le_paddedLen message.length
    by_cases hwhole : v.blockBytes ≤ (message.drop off).length
    · rw [macLoop, if_pos (by omega), messageBlock_of_le hwhole,
        absorbPadded_of_le b hKey acc hwhole,
        ih (message.length - (off + v.blockBytes)) (by omega) _ (by omega)
          (Nat.dvd_add hdvd (Nat.dvd_refl _)) rfl, List.drop_drop]
      rfl
    · have hlt := Nat.lt_of_not_le hwhole
      rw [Nat.mod_eq_of_lt hlt] at hmod
      rw [absorbPadded_of_lt b hKey acc hlt]
      by_cases hend : off = message.length
      · -- nothing ahead: the padded length is the length
        have hnil : message.drop off = [] := List.drop_eq_nil_of_le (Nat.le_of_eq hend.symm)
        have hstop : paddedLen v message.length = message.length :=
          paddedLen_of_aligned (by omega)
        rw [macLoop, if_neg (by omega), hnil]
        rfl
      · -- the last turn
        have hstop : paddedLen v message.length
            = message.length + (v.blockBytes - message.length % v.blockBytes) :=
          paddedLen_of_unaligned (by omega)
        have hne : (message.drop off).isEmpty = false := by
          rw [List.isEmpty_eq_false_iff, ← List.length_pos_iff]
          omega
        rw [macLoop, if_pos (by omega), messageBlock_of_lt (by omega) hlt hdvd, macLoop,
          if_neg (by omega), hne]
        rfl

/-- GCM's length block with no ciphertext holds the one length GMAC writes. -/
theorem lengthBlock_zero (bitLen : UInt64) :
    Gcm.lengthBlock v bitLen 0
      = overwrite (Vector.replicate v.blockBytes 0) (toLeBytes bitLen).toList := by
  have hzero : toLeBytes 0 = Vector.replicate 8 0 := by decide
  refine Vector.ext fun i hi => ?_
  rw [getElem_overwrite, Vector.getElem_replicate]
  simp only [Gcm.lengthBlock, Vector.getElem_ofFn, Vector.length_toList, hzero,
    Vector.getElem_replicate, Vector.getElem_toList, ite_self, dite_eq_ite]

/-- One tag, from either loop. -/
theorem macWithBitLen_eq_fullTag (cipher : ExpandedKey v) (message : List UInt8) :
    macWithBitLen b cipher message (UInt64.ofNat (message.length * 8))
      = Gcm.fullTag b ⟨cipher⟩ message [] := by
  have hloop (hKey : Gf2mWide.Elem v.nb) :
      macLoop b hKey message (paddedLen v message.length) (Gf2mWide.zero v.nb) 0
        = Gcm.absorbPadded b (Gf2mWide.zero v.nb) hKey message :=
    macLoop_eq b hKey (Gf2mWide.zero v.nb) message (Nat.zero_le _) (Nat.dvd_zero _)
  have hempty (hKey acc : Gf2mWide.Elem v.nb) : Gcm.absorbPadded b acc hKey [] = acc :=
    absorbPadded_of_lt b hKey acc (blockBytes_pos v)
  have hbits : UInt64.ofNat (([] : List UInt8).length * 8) = 0 := rfl
  unfold macWithBitLen Gcm.fullTag Gcm.computeTag
  simp only [hloop, hempty, hbits, lengthBlock_zero]

/-- GMAC is GCM with no plaintext: for every nonempty message, whatever the iv, both
return one tag, or both refuse a message whose bit length does not fit a `u64`. -/
theorem mac_eq_encrypt (v : Variant) (key : Vector UInt8 v.keyBytes)
    (iv : Vector UInt8 v.blockBytes) (message : List UInt8) (hne : message ≠ []) :
    (message.length * 8 < 2 ^ 64 →
        ∃ tag, mac b v key message = .ok tag
          ∧ (Gcm.new b v key).encrypt b iv message [] [] = (.ok tag, []))
      ∧ (¬message.length * 8 < 2 ^ 64 →
        mac b v key message = .error .invalidLength
          ∧ (Gcm.new b v key).encrypt b iv message [] [] = (.error .invalidLength, [])) := by
  have hisEmpty : message.isEmpty = false := List.isEmpty_eq_false_iff.mpr hne
  constructor
  · intro hfits
    refine ⟨Gcm.fullTag b (Gcm.new b v key) message [], ?_, ?_⟩
    · rw [mac, macWithCipher, hisEmpty, checkedBitLen_eq_some hfits]
      exact congrArg Except.ok (macWithBitLen_eq_fullTag b _ message)
    · have hadm : Admissible message [] := ⟨fun h => hne h.1, hfits, by decide⟩
      have hstream : Gcm.applyKeystream b (Gcm.new b v key) iv [] = [] :=
        Keystream.xorBlocks_nil _ _ _
      rw [Gcm.encrypt_of_admissible b _ iv rfl hadm, hstream]
  · intro hlong
    constructor
    · rw [mac, macWithCipher, hisEmpty, checkedBitLen_eq_none hlong]
      rfl
    · rw [Gcm.encrypt, hisEmpty, checkedBitLen_eq_none hlong]
      rfl

/-- A message of one byte and a partial block. -/
theorem mac_eq_encrypt_one_byte :
    ([0x01] : List UInt8) ≠ [] ∧ ∃ tag,
      mac ⟨.fused, false⟩ .kalyna128_128 (Vector.replicate 16 0) [0x01] = .ok tag
        ∧ (Gcm.new ⟨.fused, false⟩ .kalyna128_128 (Vector.replicate 16 0)).encrypt ⟨.fused, false⟩
            (Vector.replicate 16 7) [0x01] [] [] = (.ok tag, []) :=
  ⟨by decide, (mac_eq_encrypt ⟨.fused, false⟩ .kalyna128_128 (Vector.replicate 16 0)
    (Vector.replicate 16 7) [0x01] (by decide)).1 (by decide)⟩

end Gmac

end UaCrypt.Hazmat.KalynaGmac
