import UaCrypt.Hazmat.KalynaCtr

/-!
# Kalyna-CCM (`hazmat/kalyna_ccm.rs`)

A CBC-MAC over a header and the padded plaintext, then the counter mode over the plaintext
and the tag. The shared core works on `MAX_BLOCK`-byte buffers of which a variant uses the
first `block_len`; `none` is a slice out of range.

- `computeTag`, `Gamma`, `sealCore`, `openCore`, and `Ccm.sealInPlace`, `Ccm.openInPlace`.
- `computeTag_eq`: the buffers hold the header and the padded plaintext, whole.
- `gamma_stream`: the keystream is that of `KalynaCtr`.
- `counter_modes_agree`: the three counter modes of the crate side by side.
-/

namespace UaCrypt.Hazmat.KalynaCcm

open LittleEndian Tables Kalyna Chunks Keystream ByteStream BufferedStream

inductive CcmError where
  | emptyPlaintext
  | plaintextTooLong
  | aadTooLong
  | tagMismatch
  deriving DecidableEq, Repr

@[reducible] def maxBlock : Nat := 64

def maxPlaintextLen : Nat := 255

def maxAadLen : Nat := 255

def maxCcmNb : Nat := 8

def hBufLen : Nat := maxBlock + (maxCcmNb + maxBlock - 1) + maxAadLen

def pBufLen : Nat := maxPlaintextLen + maxBlock

/-- What the shared core is told about a variant. -/
structure Layout where
  blockLen : Nat
  ccmNb : Nat
  q : Nat
  blockLen_le : blockLen ≤ maxBlock
  ccmNb_le : ccmNb ≤ maxCcmNb
  ccmNb_pos : 0 < ccmNb
  ccmNb_lt : ccmNb < blockLen
  q_le : q ≤ blockLen

theorem Layout.blockLen_pos (layout : Layout) : 0 < layout.blockLen :=
  Nat.lt_of_le_of_lt (Nat.zero_le _) layout.ccmNb_lt

/-- `increment_counter`: over the first `block_len` bytes. -/
def incrementCounter (counter : Vector UInt8 maxBlock) (blockLen : Nat) : Vector UInt8 maxBlock :=
  overwrite counter (increment (counter.toList.take blockLen))

def tagLengthCode : Nat → UInt8
  | 8 => 2
  | 16 => 3
  | 32 => 4
  | 48 => 5
  | 64 => 6
  | _ => 0

section Core

variable (encryptBlock : Vector UInt8 maxBlock → Vector UInt8 maxBlock) (layout : Layout)

/-- One turn of the CBC-MAC loop: XOR the chunk into the front, encrypt. -/
def macStep (b : Vector UInt8 maxBlock) (chunk : Vector UInt8 layout.blockLen) :
    Vector UInt8 maxBlock :=
  encryptBlock (overwrite b (xorBytes chunk.toList b.toList))

/-- The flag byte of `G1`. -/
def flags (aad : List UInt8) : UInt8 :=
  let flags : UInt8 := if aad.isEmpty then 0 else 0x80
  let flags := flags ||| tagLengthCode layout.q <<< 4
  flags ||| UInt8.ofNat (layout.ccmNb - 1)

/-- The zeros after the length of the AAD. -/
def zeros (aad : List UInt8) : Nat :=
  (2 * layout.blockLen - aad.length % layout.blockLen - layout.ccmNb) % layout.blockLen

/-- The `N_B` low bytes of a length. -/
def lengthField (len : Nat) : List UInt8 :=
  (toLeBytes (UInt64.ofNat len)).toList.take layout.ccmNb

/-- The buffer `g1`: a part of the nonce, the length of the plaintext, the flags. -/
def g1Buffer (nonce : Vector UInt8 layout.blockLen) (aad plaintext : List UInt8) :
    Option (List UInt8) := do
  let prefixLen := layout.blockLen - layout.ccmNb - 1
  let g1 ← copyInto (List.replicate maxBlock 0) 0 (nonce.toList.take prefixLen)
  let g1 ← copyInto g1 prefixLen (lengthField layout plaintext.length)
  copyInto g1 (layout.blockLen - 1) [flags layout aad]

/-- `h_buf` and `h_len` once `G1`, and `G2 || O` if there is AAD, are in. -/
def headerBuffer (nonce : Vector UInt8 layout.blockLen) (aad plaintext : List UInt8) :
    Option (List UInt8 × Nat) := do
  let g1 ← g1Buffer layout nonce aad plaintext
  let hBuf ← copyInto (List.replicate hBufLen 0) 0 (g1.take layout.blockLen)
  let hLen := layout.blockLen
  if aad.isEmpty then some (hBuf, hLen)
  else
    let hBuf ← copyInto hBuf hLen (lengthField layout aad.length)
    let hLen := hLen + layout.ccmNb + zeros layout aad
    let hBuf ← copyInto hBuf hLen aad
    some (hBuf, hLen + aad.length)

/-- `p_buf` and `p_len`: the plaintext, padded when it does not fill its last block. -/
def plaintextBuffer (plaintext : List UInt8) : Option (List UInt8 × Nat) := do
  let pBuf ← copyInto (List.replicate pBufLen 0) 0 plaintext
  let pLen := plaintext.length
  if pLen % layout.blockLen ≠ 0 then
    let pBuf ← copyInto pBuf pLen [0x80]
    some (pBuf, pLen + (layout.blockLen - pLen % layout.blockLen))
  else some (pBuf, pLen)

/-- The first `len` bytes of a buffer, `none` if it is shorter. -/
def sliceTo (buf : List UInt8) (len : Nat) : Option (List UInt8) :=
  if len ≤ buf.length then some (buf.take len) else none

/-- The raw tag, in the first `q` bytes. -/
def computeTag (nonce : Vector UInt8 layout.blockLen) (aad plaintext : List UInt8) :
    Option (Vector UInt8 maxBlock) := do
  let (hBuf, hLen) ← headerBuffer layout nonce aad plaintext
  -- the debug assertion of the source
  if hLen % layout.blockLen ≠ 0 then none
  else
    let header ← sliceTo hBuf hLen
    let b := (chunksExact layout.blockLen layout.blockLen_pos header).foldl
      (macStep encryptBlock layout) (Vector.replicate maxBlock 0)
    let (pBuf, pLen) ← plaintextBuffer layout plaintext
    let padded ← sliceTo pBuf pLen
    some ((chunksExact layout.blockLen layout.blockLen_pos padded).foldl
      (macStep encryptBlock layout) b)

/-- The running keystream: the counter, the current block and how much of it is used. -/
abbrev Gamma : Type := Buffered (Vector UInt8 maxBlock) maxBlock

/-- The counter and the keystream block after it. -/
def nextGamma (counter : Vector UInt8 maxBlock) : Vector UInt8 maxBlock × Vector UInt8 maxBlock :=
  let counter := incrementCounter counter layout.blockLen
  (counter, encryptBlock counter)

def Gamma.new (nonceBlock : Vector UInt8 maxBlock) : Gamma :=
  let seed := encryptBlock nonceBlock
  { counter := seed, keystream := seed, used := layout.blockLen }

/-- `Gamma::apply`. -/
def Gamma.apply (gamma : Gamma) (buf : List UInt8) : Option (Gamma × List UInt8) :=
  BufferedStream.apply (nextGamma encryptBlock layout) layout.blockLen_le layout.blockLen_pos gamma
    buf

/-- The nonce in a buffer of the core. -/
def nonceBlock (nonce : Vector UInt8 layout.blockLen) : Vector UInt8 maxBlock :=
  overwrite (Vector.replicate maxBlock 0) nonce.toList

/-- The length checks both directions start with. -/
def checkLengths (aad buf : List UInt8) : Except CcmError Unit :=
  if buf.isEmpty then .error .emptyPlaintext
  else if buf.length > maxPlaintextLen then .error .plaintextTooLong
  else if aad.length > maxAadLen then .error .aadTooLong
  else .ok ()

/-- Encrypts `buf` and returns the masked tag in the first `q` bytes. -/
def sealCore (nonce : Vector UInt8 layout.blockLen) (aad buf : List UInt8) :
    Option (Except CcmError (Vector UInt8 maxBlock) × List UInt8) :=
  match checkLengths aad buf with
  | .error e => some (.error e, buf)
  | .ok () => do
    let rawTag ← computeTag encryptBlock layout nonce aad buf
    let gamma := Gamma.new encryptBlock layout (nonceBlock layout nonce)
    let (gamma, buf) ← gamma.apply encryptBlock layout buf
    let (_, masked) ← gamma.apply encryptBlock layout (rawTag.toList.take layout.q)
    some (.ok (overwrite (Vector.replicate maxBlock 0) masked), buf)

/-- Decrypts `buf`, and zeroes it again if the tag is wrong. -/
def openCore (nonce : Vector UInt8 layout.blockLen) (aad buf : List UInt8)
    (tag : Vector UInt8 layout.q) : Option (Except CcmError Unit × List UInt8) :=
  match checkLengths aad buf with
  | .error e => some (.error e, buf)
  | .ok () => do
    let gamma := Gamma.new encryptBlock layout (nonceBlock layout nonce)
    let (gamma, buf) ← gamma.apply encryptBlock layout buf
    let (_, recovered) ← gamma.apply encryptBlock layout tag.toList
    let expected ← computeTag encryptBlock layout nonce aad buf
    if recovered = expected.toList.take layout.q then some (.ok (), buf)
    else some (.error .tagMismatch, List.replicate buf.length 0)

end Core

/-! ## The variants -/

def ccmNb : Variant → Nat
  | .kalyna128_128 => 4
  | .kalyna128_256 => 4
  | .kalyna256_256 => 4
  | .kalyna256_512 => 6
  | .kalyna512_512 => 8

@[reducible] def tagBytes : Variant → Nat
  | .kalyna128_128 => 16
  | .kalyna128_256 => 16
  | .kalyna256_256 => 16
  | .kalyna256_512 => 32
  | .kalyna512_512 => 64

/-- `kalyna_ccm_variant!`. -/
@[reducible] def layout (v : Variant) : Layout where
  blockLen := v.blockBytes
  ccmNb := ccmNb v
  q := tagBytes v
  blockLen_le := by cases v <;> decide
  ccmNb_le := by cases v <;> decide
  ccmNb_pos := by cases v <;> decide
  ccmNb_lt := by cases v <;> decide
  q_le := by cases v <;> decide

/-- `Kalyna*Ccm`. -/
structure Ccm (v : Variant) where
  key : ExpandedKey v

namespace Ccm

variable (p : Profile) {v : Variant}

def new (v : Variant) (key : Vector UInt8 v.keyBytes) : Ccm v := ⟨ExpandedKey.new p v key⟩

variable (ccm : Ccm v)

def encryptBlockPadded (block : Vector UInt8 maxBlock) : Vector UInt8 maxBlock :=
  let input : Vector UInt8 v.blockBytes := front (layout v).blockLen_le block
  overwrite (Vector.replicate maxBlock 0) (ccm.key.encryptBlock p input).toList

/-- Encrypts `buf` in place and returns the masked tag. -/
def sealInPlace (nonce : Vector UInt8 v.blockBytes) (aad buf : List UInt8) :
    Option (Except CcmError (Vector UInt8 (tagBytes v)) × List UInt8) :=
  match sealCore (encryptBlockPadded p ccm) (layout v) nonce aad buf with
  | none => none
  | some (.error e, buf) => some (.error e, buf)
  | some (.ok tag, buf) =>
    some (.ok (front (Nat.le_trans (layout v).q_le (layout v).blockLen_le) tag), buf)

/-- Decrypts `buf` in place if `tag` verifies. -/
def openInPlace (nonce : Vector UInt8 v.blockBytes) (aad buf : List UInt8)
    (tag : Vector UInt8 (tagBytes v)) : Option (Except CcmError Unit × List UInt8) :=
  openCore (encryptBlockPadded p ccm) (layout v) nonce aad buf tag

end Ccm

/-! ## What the tag is computed over -/

section Tag

variable (encryptBlock : Vector UInt8 maxBlock → Vector UInt8 maxBlock) (layout : Layout)

/-- `G1`. -/
def g1 (nonce : Vector UInt8 layout.blockLen) (aad plaintext : List UInt8) : List UInt8 :=
  nonce.toList.take (layout.blockLen - layout.ccmNb - 1) ++ lengthField layout plaintext.length
    ++ [flags layout aad]

/-- `G2 || O`, nothing without AAD. -/
def g2 (aad : List UInt8) : List UInt8 :=
  if aad.isEmpty then []
  else lengthField layout aad.length ++ List.replicate (zeros layout aad) 0 ++ aad

/-- The plaintext with its last block filled by `0x80` and zeros. -/
def padded (plaintext : List UInt8) : List UInt8 :=
  if plaintext.length % layout.blockLen ≠ 0 then
    plaintext ++ [0x80]
      ++ List.replicate (layout.blockLen - plaintext.length % layout.blockLen - 1) 0
  else plaintext

@[simp] theorem length_lengthField (len : Nat) :
    (lengthField layout len).length = layout.ccmNb := by
  have hle : layout.ccmNb ≤ 8 := layout.ccmNb_le
  rw [lengthField, List.length_take, Vector.length_toList, Nat.min_eq_left hle]

theorem length_noncePart (nonce : Vector UInt8 layout.blockLen) :
    (nonce.toList.take (layout.blockLen - layout.ccmNb - 1)).length
      = layout.blockLen - layout.ccmNb - 1 := by
  rw [List.length_take, Vector.length_toList]
  omega

theorem length_g1 (nonce : Vector UInt8 layout.blockLen) (aad plaintext : List UInt8) :
    (g1 layout nonce aad plaintext).length = layout.blockLen := by
  have hlt := layout.ccmNb_lt
  rw [g1, List.length_append, List.length_append, length_noncePart, length_lengthField,
    List.length_singleton]
  omega

theorem dvd_length_g2 (aad : List UInt8) : layout.blockLen ∣ (g2 layout aad).length := by
  unfold g2
  split
  · exact Nat.dvd_zero _
  · have hpos := layout.ccmNb_pos
    have hlt := layout.ccmNb_lt
    have hmod := Nat.mod_lt aad.length layout.blockLen_pos
    have hdiv := Nat.div_add_mod aad.length layout.blockLen
    rw [List.length_append, List.length_append, length_lengthField, List.length_replicate, zeros]
    generalize aad.length / layout.blockLen = d at hdiv
    generalize aad.length % layout.blockLen = r at hmod hdiv ⊢
    -- the zeros fill the block the length field and the tail of the AAD leave open
    rcases Nat.lt_or_ge (2 * layout.blockLen - r - layout.ccmNb) layout.blockLen with h | h
    · rw [Nat.mod_eq_of_lt h]
      refine ⟨d + 2, ?_⟩
      rw [Nat.mul_add]
      omega
    · rw [Nat.mod_eq_sub_mod h, Nat.mod_eq_of_lt (by omega)]
      refine ⟨d + 1, ?_⟩
      rw [Nat.mul_add]
      omega

/-- `g1` holds its three parts, one after another. -/
theorem g1Buffer_eq (nonce : Vector UInt8 layout.blockLen) (aad plaintext : List UInt8) :
    ∃ room, g1Buffer layout nonce aad plaintext
      = some (g1 layout nonce aad plaintext ++ List.replicate room 0) := by
  have hlt := layout.ccmNb_lt
  have hle : layout.blockLen ≤ 64 := layout.blockLen_le
  have hnonce := length_noncePart layout nonce
  have hfield := length_lengthField layout plaintext.length
  unfold g1Buffer g1
  dsimp only
  generalize nonce.toList.take (layout.blockLen - layout.ccmNb - 1) = part at hnonce ⊢
  generalize lengthField layout plaintext.length = field at hfield ⊢
  have hfirst : copyInto (List.replicate maxBlock 0) 0 part
      = some (part ++ List.replicate (64 - part.length) 0) :=
    copyInto_end [] 0 rfl (show part.length ≤ 64 by omega)
  have hsecond := copyInto_end part (0 : UInt8) hnonce.symm
    (show field.length ≤ 64 - part.length by omega)
  have hthird := copyInto_end (part ++ field) (0 : UInt8)
    (show layout.blockLen - 1 = (part ++ field).length by rw [List.length_append]; omega)
    (show [flags layout aad].length ≤ 64 - part.length - field.length by
      rw [List.length_singleton]
      omega)
  refine ⟨64 - part.length - field.length - 1, ?_⟩
  simp only [hfirst, hsecond, hthird, Option.bind_eq_bind, Option.bind_some]
  rfl

/-- `h_buf` holds `G1 || G2 || O` and has room for it. -/
theorem headerBuffer_eq (nonce : Vector UInt8 layout.blockLen) {aad : List UInt8}
    (plaintext : List UInt8) (haad : aad.length ≤ maxAadLen) :
    ∃ room, headerBuffer layout nonce aad plaintext
      = some (g1 layout nonce aad plaintext ++ g2 layout aad ++ List.replicate room 0,
          (g1 layout nonce aad plaintext ++ g2 layout aad).length) := by
  have hle : layout.blockLen ≤ 64 := layout.blockLen_le
  have hnb : layout.ccmNb ≤ 8 := layout.ccmNb_le
  have hzeros : zeros layout aad < layout.blockLen := Nat.mod_lt _ layout.blockLen_pos
  have haad' : aad.length ≤ 255 := haad
  have hlen := length_g1 layout nonce aad plaintext
  have hfield := length_lengthField layout aad.length
  obtain ⟨room, hg1⟩ := g1Buffer_eq layout nonce aad plaintext
  unfold headerBuffer g2
  rw [hg1, Option.bind_eq_bind, Option.bind_some]
  generalize g1 layout nonce aad plaintext = block at hlen ⊢
  generalize lengthField layout aad.length = field at hfield ⊢
  have hfirst : copyInto (List.replicate hBufLen 0) 0
      ((block ++ List.replicate room 0).take layout.blockLen)
        = some (block ++ List.replicate (390 - block.length) 0) := by
    rw [List.take_left' hlen]
    exact copyInto_end [] 0 rfl (show block.length ≤ 390 by omega)
  simp only [hfirst, Option.bind_some]
  split
  · refine ⟨390 - block.length, ?_⟩
    rw [List.append_nil, hlen]
  · have hsecond := copyInto_end block (0 : UInt8) hlen.symm
      (show field.length ≤ 390 - block.length by omega)
    have hthird := copyInto_append_replicate (block ++ field) (0 : UInt8)
      (show zeros layout aad + aad.length ≤ 390 - block.length - field.length by omega)
    rw [hlen, hfield] at hsecond
    rw [List.length_append, hlen, hfield] at hthird
    refine ⟨390 - layout.blockLen - layout.ccmNb - zeros layout aad - aad.length, ?_⟩
    rw [hlen, hsecond, Option.bind_some, hthird, Option.bind_some]
    simp only [List.length_append, List.length_replicate, List.append_assoc, hlen, hfield,
      Nat.add_assoc]

/-- `p_buf` holds the padded plaintext and has room for it. -/
theorem plaintextBuffer_eq {plaintext : List UInt8} (h : plaintext.length ≤ maxPlaintextLen) :
    ∃ room, plaintextBuffer layout plaintext
      = some (padded layout plaintext ++ List.replicate room 0,
          (padded layout plaintext).length) := by
  have hle : layout.blockLen ≤ 64 := layout.blockLen_le
  have hlen : plaintext.length ≤ 255 := h
  have hmod := Nat.mod_lt plaintext.length layout.blockLen_pos
  unfold plaintextBuffer padded
  have hfirst : copyInto (List.replicate pBufLen 0) 0 plaintext
      = some (plaintext ++ List.replicate (319 - plaintext.length) 0) :=
    copyInto_end [] 0 rfl (show plaintext.length ≤ 319 by omega)
  simp only [hfirst, Option.bind_eq_bind, Option.bind_some]
  split
  · have hsecond := copyInto_end plaintext (0 : UInt8) (Eq.refl plaintext.length)
      (show [(0x80 : UInt8)].length ≤ 319 - plaintext.length by rw [List.length_singleton]; omega)
    -- the zeros of the padding are those the buffer was made of
    have hroom : 319 - plaintext.length - [(0x80 : UInt8)].length
        = (layout.blockLen - plaintext.length % layout.blockLen - 1)
          + (319 - plaintext.length - (layout.blockLen - plaintext.length % layout.blockLen)) := by
      rw [List.length_singleton]
      omega
    refine ⟨319 - plaintext.length - (layout.blockLen - plaintext.length % layout.blockLen), ?_⟩
    rw [hsecond, Option.bind_some, hroom, List.replicate_add]
    simp only [List.length_append, List.length_replicate, List.length_singleton, List.append_assoc]
    rw [show plaintext.length + (1 + (layout.blockLen - plaintext.length % layout.blockLen - 1))
      = plaintext.length + (layout.blockLen - plaintext.length % layout.blockLen) by omega]
  · exact ⟨319 - plaintext.length, rfl⟩

theorem sliceTo_left (front rest : List UInt8) :
    sliceTo (front ++ rest) front.length = some front := by
  rw [sliceTo, if_pos (by simp), List.take_left]

/-- The raw tag is the CBC-MAC over the header and the padded plaintext; within the limits
on the lengths nothing runs out of its buffer. -/
theorem computeTag_eq (nonce : Vector UInt8 layout.blockLen) {aad plaintext : List UInt8}
    (haad : aad.length ≤ maxAadLen) (hplain : plaintext.length ≤ maxPlaintextLen) :
    computeTag encryptBlock layout nonce aad plaintext
      = some ((chunksExact layout.blockLen layout.blockLen_pos
          (g1 layout nonce aad plaintext ++ g2 layout aad ++ padded layout plaintext)).foldl
            (macStep encryptBlock layout) (Vector.replicate maxBlock 0)) := by
  have hheader : layout.blockLen ∣ (g1 layout nonce aad plaintext ++ g2 layout aad).length := by
    rw [List.length_append, length_g1]
    exact Nat.dvd_add (Nat.dvd_refl _) (dvd_length_g2 layout aad)
  obtain ⟨room, hbuf⟩ := headerBuffer_eq layout nonce plaintext haad
  obtain ⟨room', hpbuf⟩ := plaintextBuffer_eq layout hplain
  unfold computeTag
  simp only [hbuf, hpbuf, Option.bind_eq_bind, Option.bind_some, sliceTo_left]
  rw [if_neg (not_not_intro (Nat.mod_eq_zero_of_dvd hheader)),
    chunksExact_append_of_dvd layout.blockLen_pos _ hheader, List.foldl_append]

end Tag

/-! ## The keystream -/

theorem front_overwrite {n len : Nat} (hlen : len ≤ n) (array : Vector UInt8 n)
    (data : Vector UInt8 len) : front hlen (overwrite array data.toList) = data := by
  refine Vector.toList_inj.mp ?_
  rw [toList_front, toList_overwrite array (by rw [Vector.length_toList]; exact hlen),
    List.take_left' data.length_toList]

theorem front_incrementCounter (layout : Layout) (counter : Vector UInt8 maxBlock) :
    front layout.blockLen_le (incrementCounter counter layout.blockLen)
      = KalynaCtr.incrementCounter (front layout.blockLen_le counter) := by
  have hle : layout.blockLen ≤ 64 := layout.blockLen_le
  have hlen : (increment (counter.toList.take layout.blockLen)).length = layout.blockLen := by
    rw [length_increment, List.length_take, Vector.length_toList, Nat.min_eq_left hle]
  have hctr : (KalynaCtr.incrementCounter (front layout.blockLen_le counter)).toList
      = increment (front layout.blockLen_le counter).toList := rfl
  refine Vector.toList_inj.mp ?_
  rw [toList_front, incrementCounter, toList_overwrite counter (by rw [hlen]; exact hle),
    List.take_left' hlen, hctr, toList_front]

namespace Ccm

variable (p : Profile) {v : Variant} (ccm : Ccm v)

theorem front_encryptBlockPadded (block : Vector UInt8 maxBlock) :
    front (layout v).blockLen_le (encryptBlockPadded p ccm block)
      = ccm.key.encryptBlock p (front (layout v).blockLen_le block) :=
  front_overwrite (layout v).blockLen_le _ _

/-- Cut to the block, the core's generator is that of the counter mode. -/
theorem nextGamma_corresponds (counter : Vector UInt8 maxBlock) :
    KalynaCtr.nextGamma p ccm.key (front (layout v).blockLen_le counter)
      = (front (layout v).blockLen_le
            (nextFront (nextGamma (encryptBlockPadded p ccm) (layout v)) (layout v).blockLen_le
              counter).1,
          (nextFront (nextGamma (encryptBlockPadded p ccm) (layout v)) (layout v).blockLen_le
            counter).2) := by
  have hcounter := front_incrementCounter (layout v) counter
  have hblock := front_encryptBlockPadded p ccm (incrementCounter counter v.blockBytes)
  exact Prod.ext hcounter.symm
    ((congrArg (ccm.key.encryptBlock p) hcounter.symm).trans hblock.symm)

/-- The keystream a nonce starts. -/
theorem gamma_stream (nonce : Vector UInt8 v.blockBytes) :
    BufferedStream.stream (nextGamma (encryptBlockPadded p ccm) (layout v))
        (layout v).blockLen_pos (layout v).blockLen_le
        (Gamma.new (encryptBlockPadded p ccm) (layout v) (nonceBlock (layout v) nonce))
      = KalynaCtr.Ctr.keystream p ccm.key nonce := by
  have hseed : front (layout v).blockLen_le
      (encryptBlockPadded p ccm (nonceBlock (layout v) nonce)) = ccm.key.encryptBlock p nonce := by
    rw [front_encryptBlockPadded, nonceBlock, front_overwrite]
  have hused := stream_of_used (nextGamma (encryptBlockPadded p ccm) (layout v))
    (layout v).blockLen_pos (layout v).blockLen_le
    (s := Gamma.new (encryptBlockPadded p ccm) (layout v) (nonceBlock (layout v) nonce)) rfl
  refine hused.trans ?_
  rw [KalynaCtr.Ctr.keystream, ← hseed]
  exact generate_of_corresponding _ (KalynaCtr.nextGamma p ccm.key) _
    (front (layout v).blockLen_le) (nextGamma_corresponds p ccm) _

end Ccm

/-! ## Sealing -/

/-- The lengths both directions take. -/
def LengthsOk (aad buf : List UInt8) : Prop :=
  buf ≠ [] ∧ buf.length ≤ maxPlaintextLen ∧ aad.length ≤ maxAadLen

theorem checkLengths_of_ok {aad buf : List UInt8} (h : LengthsOk aad buf) :
    checkLengths aad buf = .ok () := by
  obtain ⟨hne, hbuf, haad⟩ := h
  rw [checkLengths, if_neg (by simpa using hne), if_neg (Nat.not_lt_of_le hbuf),
    if_neg (Nat.not_lt_of_le haad)]

theorem checkLengths_of_not_ok {aad buf : List UInt8} (h : ¬LengthsOk aad buf) :
    ∃ e, checkLengths aad buf = .error e := by
  unfold checkLengths
  split
  · exact ⟨_, rfl⟩
  · rename_i hne
    split
    · exact ⟨_, rfl⟩
    · rename_i hbuf
      split
      · exact ⟨_, rfl⟩
      · rename_i haad
        exact absurd ⟨by simpa using hne, Nat.le_of_not_lt hbuf, Nat.le_of_not_lt haad⟩ h

section Seal

variable (encryptBlock : Vector UInt8 maxBlock → Vector UInt8 maxBlock) (layout : Layout)

/-- The keystream of the core. -/
def coreStream (nonce : Vector UInt8 layout.blockLen) : Nat → UInt8 :=
  BufferedStream.stream (nextGamma encryptBlock layout) layout.blockLen_pos layout.blockLen_le
    (Gamma.new encryptBlock layout (nonceBlock layout nonce))

/-- The plaintext takes the front of the keystream, the tag what follows. -/
theorem sealCore_of_ok (nonce : Vector UInt8 layout.blockLen) {aad buf : List UInt8}
    (h : LengthsOk aad buf) :
    ∃ rawTag, computeTag encryptBlock layout nonce aad buf = some rawTag
      ∧ sealCore encryptBlock layout nonce aad buf
          = some (.ok (overwrite (Vector.replicate maxBlock 0)
              (xorWith (shift (coreStream encryptBlock layout nonce) buf.length)
                (rawTag.toList.take layout.q))),
            xorWith (coreStream encryptBlock layout nonce) buf) := by
  have hstreams := apply_streams (nextGamma encryptBlock layout) layout.blockLen_pos
    layout.blockLen_le
  have hraw := computeTag_eq encryptBlock layout nonce h.2.2 h.2.1
  generalize (chunksExact layout.blockLen layout.blockLen_pos
    (g1 layout nonce aad buf ++ g2 layout aad ++ padded layout buf)).foldl
      (macStep encryptBlock layout) (Vector.replicate maxBlock 0) = rawTag at hraw
  obtain ⟨gamma, hbuf, hused, hrest⟩ := hstreams
    (Gamma.new encryptBlock layout (nonceBlock layout nonce)) buf (Nat.le_refl _)
  obtain ⟨gamma', htag, -, -⟩ := hstreams gamma (rawTag.toList.take layout.q) hused
  rw [hrest] at htag
  refine ⟨rawTag, hraw, ?_⟩
  rw [sealCore, checkLengths_of_ok h]
  simp only [hraw, Gamma.apply, hbuf, htag, Option.bind_eq_bind, Option.bind_some, coreStream]

end Seal

namespace Ccm

variable (p : Profile) {v : Variant} (ccm : Ccm v)

/-- A sealed message is the keystream XORed onto the plaintext and the raw tag. -/
theorem sealInPlace_of_ok (nonce : Vector UInt8 v.blockBytes) {aad buf : List UInt8}
    (h : LengthsOk aad buf) :
    ∃ rawTag tag ciphertext,
      computeTag (encryptBlockPadded p ccm) (layout v) nonce aad buf = some rawTag
        ∧ ccm.sealInPlace p nonce aad buf = some (.ok tag, ciphertext)
        ∧ ciphertext ++ tag.toList
            = xorWith (KalynaCtr.Ctr.keystream p ccm.key nonce)
                (buf ++ rawTag.toList.take (tagBytes v)) := by
  obtain ⟨rawTag, hraw, hseal⟩ := sealCore_of_ok (encryptBlockPadded p ccm) (layout v) nonce h
  have hq : tagBytes v ≤ maxBlock := Nat.le_trans (layout v).q_le (layout v).blockLen_le
  have hlen : (rawTag.toList.take (tagBytes v)).length = tagBytes v := by
    rw [List.length_take, Vector.length_toList, Nat.min_eq_left hq]
  rw [coreStream, gamma_stream] at hseal
  generalize KalynaCtr.Ctr.keystream p ccm.key nonce = ks at hseal ⊢
  have hmasked : (xorWith (shift ks buf.length) (rawTag.toList.take (tagBytes v))).length
      = tagBytes v := by
    rw [length_xorWith, hlen]
  have hsealed : ccm.sealInPlace p nonce aad buf
      = some (.ok (front hq (overwrite (Vector.replicate maxBlock 0)
          (xorWith (shift ks buf.length) (rawTag.toList.take (tagBytes v))))), xorWith ks buf) := by
    rw [sealInPlace, hseal]
  refine ⟨rawTag, _, _, hraw, hsealed, ?_⟩
  rw [toList_front, toList_overwrite _ (Nat.le_trans (Nat.le_of_eq hmasked) hq),
    List.take_left' hmasked, xorWith_append]

theorem sealInPlace_of_not_ok (nonce : Vector UInt8 v.blockBytes) {aad buf : List UInt8}
    (h : ¬LengthsOk aad buf) : ∃ e, ccm.sealInPlace p nonce aad buf = some (.error e, buf) := by
  obtain ⟨e, he⟩ := checkLengths_of_not_ok h
  refine ⟨e, ?_⟩
  rw [sealInPlace, sealCore, he]

theorem sealInPlace_eq_ok_iff (nonce : Vector UInt8 v.blockBytes) (aad buf : List UInt8) :
    (∃ tag ciphertext, ccm.sealInPlace p nonce aad buf = some (.ok tag, ciphertext))
      ↔ LengthsOk aad buf := by
  constructor
  · rintro ⟨tag, ciphertext, hseal⟩
    by_contra h
    obtain ⟨e, he⟩ := sealInPlace_of_not_ok p ccm nonce h
    rw [he] at hseal
    cases hseal
  · intro h
    obtain ⟨-, tag, ciphertext, -, hseal, -⟩ := sealInPlace_of_ok p ccm nonce h
    exact ⟨tag, ciphertext, hseal⟩

end Ccm

/-! ## The three counter modes -/

/-- For every variant, key and iv:

- calls of the counter mode write what one call over the whole writes, however the data is
  cut, and a second run from a fresh state, cut in any way, restores the data;
- the ciphertext of Kalyna-CCM and its masked tag are the counter mode on the plaintext and
  the raw tag;
- the ciphertext of Kalyna-GCM is that of the counter mode as long as the low 64 bits of
  the counter do not wrap. Its counter never carries past them, the other carries through the
  block, and within `2 ^ 64` blocks the two differ exactly from there on. -/
theorem counter_modes_agree (b : Build) (v : Variant) (key : Vector UInt8 v.keyBytes)
    (iv : Vector UInt8 v.blockBytes) :
    let p := b.profile
    let fresh := KalynaCtr.Ctr.new p v key iv
    let ccm := Ccm.new p v key
    let expanded := ExpandedKey.new p v key
    let seed := expanded.encryptBlock p iv
    (∀ calls, ∃ ctr outs, runCalls (KalynaCtr.Ctr.applyInPlace p) fresh calls = some (ctr, outs)
      ∧ (∃ ctr', fresh.applyInPlace p calls.flatten = some (ctr', outs.flatten))
      ∧ ∀ calls', calls'.flatten = outs.flatten →
          ∃ ctr' outs', runCalls (KalynaCtr.Ctr.applyInPlace p) fresh calls' = some (ctr', outs')
            ∧ outs'.flatten = calls.flatten)
    ∧ (∀ aad plaintext,
        ((∃ tag ciphertext, ccm.sealInPlace p iv aad plaintext = some (.ok tag, ciphertext))
          ↔ plaintext ≠ [] ∧ plaintext.length ≤ 255 ∧ aad.length ≤ 255)
        ∧ ∀ tag ciphertext, ccm.sealInPlace p iv aad plaintext = some (.ok tag, ciphertext) →
            ∃ rawTag, computeTag (ccm.encryptBlockPadded p) (layout v) iv aad plaintext
                = some rawTag
              ∧ ∃ ctr, fresh.applyInPlace p (plaintext ++ rawTag.toList.take (tagBytes v))
                  = some (ctr, ciphertext ++ tag.toList))
    ∧ (∀ aad plaintext out tag ciphertext,
        (KalynaGcm.Gcm.new b v key).encrypt b iv aad plaintext out = (.ok tag, ciphertext) →
        KalynaCtr.low64 seed + KalynaCtr.blockCount v plaintext.length ≤ 2 ^ 64 - 1 →
          ∃ ctr, fresh.applyInPlace p plaintext = some (ctr, ciphertext))
    ∧ (∀ aad plaintext out tag ciphertext,
        (KalynaGcm.Gcm.new b v key).encrypt b iv aad plaintext out = (.ok tag, ciphertext) →
          ciphertext = xorWith (blockStream (fun j => expanded.encryptBlock p
            (KalynaGcm.incrementLow^[j + 1] seed)) (KalynaGcm.blockBytes_pos v)) plaintext)
    ∧ (∀ data, ∃ ctr, fresh.applyInPlace p data
        = some (ctr, xorWith (blockStream (fun j => expanded.encryptBlock p
            (KalynaCtr.incrementCounter^[j + 1] seed)) (KalynaGcm.blockBytes_pos v)) data))
    ∧ ∀ j, KalynaCtr.low64 (KalynaGcm.incrementLow^[j] seed) = (KalynaCtr.low64 seed + j) % 2 ^ 64
        ∧ KalynaCtr.high (KalynaGcm.incrementLow^[j] seed) = KalynaCtr.high seed
        ∧ leNat (KalynaCtr.incrementCounter^[j] seed).toList
            = (leNat seed.toList + j) % 2 ^ (8 * v.blockBytes)
        ∧ (j ≤ 2 ^ 64 → (KalynaGcm.incrementLow^[j] seed = KalynaCtr.incrementCounter^[j] seed
            ↔ KalynaCtr.low64 seed + j ≤ 2 ^ 64 - 1)) := by
  intro p fresh ccm expanded seed
  have hstreams := KalynaCtr.Ctr.applyInPlace_streams p (v := v)
  have hfresh (data : List UInt8) :
      ∃ ctr, fresh.applyInPlace p data
        = some (ctr, xorWith (KalynaCtr.Ctr.keystream p expanded iv) data) :=
    KalynaCtr.Ctr.applyInPlace_new p key iv data
  refine ⟨?_, ?_, ?_, ?_, ?_, ?_⟩
  · intro calls
    obtain ⟨ctr, outs, hrun, hout, -, -⟩ := hstreams.runCalls (s := fresh) (Nat.le_refl _) calls
    refine ⟨ctr, outs, hrun, ?_, ?_⟩
    · obtain ⟨ctr', hone, -, -⟩ := hstreams fresh calls.flatten (Nat.le_refl _)
      rw [hout]
      exact ⟨ctr', hone⟩
    · intro calls' hcalls
      exact hstreams.runCalls_runCalls (s := fresh) (Nat.le_refl _) (hcalls.trans hout)
  · intro aad plaintext
    refine ⟨Ccm.sealInPlace_eq_ok_iff p ccm iv aad plaintext, ?_⟩
    intro tag ciphertext hseal
    have hok := (Ccm.sealInPlace_eq_ok_iff p ccm iv aad plaintext).mp ⟨tag, ciphertext, hseal⟩
    obtain ⟨rawTag, tag', ciphertext', hraw, hseal', hall⟩ := Ccm.sealInPlace_of_ok p ccm iv hok
    rw [hseal] at hseal'
    cases hseal'
    obtain ⟨ctr, hctr⟩ := hfresh (plaintext ++ rawTag.toList.take (tagBytes v))
    refine ⟨rawTag, hraw, ctr, ?_⟩
    rw [hall]
    exact hctr
  · intro aad plaintext out tag ciphertext hencrypt hlow
    obtain ⟨-, rfl, -⟩ := (KalynaGcm.Gcm.encrypt_eq_ok_iff b _ iv).mp hencrypt
    rw [KalynaCtr.gcm_applyKeystream_eq b (KalynaGcm.Gcm.new b v key) iv hlow]
    exact hfresh plaintext
  · intro aad plaintext out tag ciphertext hencrypt
    obtain ⟨-, rfl, -⟩ := (KalynaGcm.Gcm.encrypt_eq_ok_iff b _ iv).mp hencrypt
    exact KalynaCtr.gcm_applyKeystream_eq_blockStream b _ iv plaintext
  · intro data
    rw [← KalynaCtr.Ctr.keystream_eq_blockStream p expanded iv]
    exact hfresh data
  · intro j
    obtain ⟨hlow, hhigh⟩ := KalynaCtr.low64_incrementLow_iterate seed j
    refine ⟨hlow, hhigh, ?_, fun hj => KalynaCtr.incrementLow_iterate_eq_iff seed hj⟩
    rw [Nat.pow_mul]
    exact KalynaCtr.leNat_incrementCounter_iterate seed j

end UaCrypt.Hazmat.KalynaCcm
