import UaCrypt.Hazmat.KalynaCcm

/-!
# What CCM opens and what its tag authenticates

- `ccm_open_inverts_seal`: `open_in_place` accepts exactly what `seal_in_place` makes.
- `macBlocks`: the blocks the CBC-MAC runs over, read off the buffers of `compute_tag`;
  `computeTag_eq_macBlocks`: the raw tag is the CBC-MAC over them.
- `macBlocks_prefix_free`: no such list of blocks is the front of another one. `G1` fixes the
  length of the plaintext and whether there is AAD, the length field behind it the length of
  the AAD, so both lists are cut at the same places.
-/

namespace UaCrypt.Hazmat.KalynaCcm

open LittleEndian Tables Kalyna Chunks Keystream ByteStream BufferedStream

/-! ## Opening -/

section Open

variable (encryptBlock : Vector UInt8 maxBlock → Vector UInt8 maxBlock) (layout : Layout)

theorem LengthsOk.xorWith {aad buf : List UInt8} (h : LengthsOk aad buf) (ks : Nat → UInt8) :
    LengthsOk aad (xorWith ks buf) := by
  obtain ⟨hne, hbuf, haad⟩ := h
  refine ⟨?_, by rwa [length_xorWith], haad⟩
  rwa [← List.length_pos_iff, length_xorWith, List.length_pos_iff]

/-- The ciphertext takes the front of the keystream, the tag what follows, and the raw tag is
computed over what came out. -/
theorem openCore_of_ok (nonce : Vector UInt8 layout.blockLen) {aad buf : List UInt8}
    (tag : Vector UInt8 layout.q) (h : LengthsOk aad buf) :
    ∃ rawTag, computeTag encryptBlock layout nonce aad
          (xorWith (coreStream encryptBlock layout nonce) buf) = some rawTag
      ∧ openCore encryptBlock layout nonce aad buf tag
          = if xorWith (shift (coreStream encryptBlock layout nonce) buf.length) tag.toList
              = rawTag.toList.take layout.q
            then some (.ok (), xorWith (coreStream encryptBlock layout nonce) buf)
            else some (.error .tagMismatch, List.replicate buf.length 0) := by
  have hstreams := apply_streams (nextGamma encryptBlock layout) layout.blockLen_pos
    layout.blockLen_le
  have hopened := h.xorWith (coreStream encryptBlock layout nonce)
  have hraw := computeTag_eq encryptBlock layout nonce hopened.2.2 hopened.2.1
  obtain ⟨gamma, hbuf, hused, hrest⟩ := hstreams
    (Gamma.new encryptBlock layout (nonceBlock layout nonce)) buf (Nat.le_refl _)
  obtain ⟨gamma', htag, -, -⟩ := hstreams gamma tag.toList hused
  rw [hrest, ← coreStream] at htag
  rw [← coreStream] at hbuf
  refine ⟨_, hraw, ?_⟩
  rw [openCore, checkLengths_of_ok h]
  simp only [Gamma.apply, hbuf, htag, hraw, Option.bind_eq_bind, Option.bind_some, length_xorWith]

theorem openCore_of_not_ok (nonce : Vector UInt8 layout.blockLen) {aad buf : List UInt8}
    (tag : Vector UInt8 layout.q) (h : ¬LengthsOk aad buf) :
    ∃ e, checkLengths aad buf = .error e
      ∧ openCore encryptBlock layout nonce aad buf tag = some (.error e, buf) := by
  obtain ⟨e, he⟩ := checkLengths_of_not_ok h
  refine ⟨e, he, ?_⟩
  rw [openCore, he]

theorem checkLengths_ne_tagMismatch (aad buf : List UInt8) :
    checkLengths aad buf ≠ .error .tagMismatch := by
  unfold checkLengths
  split
  · simp
  · split
    · simp
    · split <;> simp

end Open

namespace Ccm

variable (p : Profile) {v : Variant} (ccm : Ccm v)

/-- The tag that masks `rawTag` at `ks`. -/
theorem front_masked_eq_iff {q : Nat} (hq : q ≤ maxBlock) (ks : Nat → UInt8)
    (rawTag : Vector UInt8 maxBlock) (tag : Vector UInt8 q) :
    front hq (overwrite (Vector.replicate maxBlock 0) (xorWith ks (rawTag.toList.take q))) = tag
      ↔ xorWith ks tag.toList = rawTag.toList.take q := by
  have hlen : (xorWith ks (rawTag.toList.take q)).length = q := by
    rw [length_xorWith, List.length_take, Vector.length_toList, Nat.min_eq_left hq]
  rw [← Vector.toList_inj, toList_front,
    toList_overwrite _ (Nat.le_trans (Nat.le_of_eq hlen) hq), List.take_left' hlen]
  constructor
  · intro h
    rw [← h, xorWith_xorWith]
  · intro h
    rw [← h, xorWith_xorWith]

/-- Accepting is sealing the other way round. -/
theorem openInPlace_eq_ok_iff (nonce : Vector UInt8 v.blockBytes) (aad buf : List UInt8)
    (tag : Vector UInt8 (tagBytes v)) (plaintext : List UInt8) :
    ccm.openInPlace p nonce aad buf tag = some (.ok (), plaintext)
      ↔ ccm.sealInPlace p nonce aad plaintext = some (.ok tag, buf) := by
  have hq : tagBytes v ≤ maxBlock := Nat.le_trans (layout v).q_le (layout v).blockLen_le
  constructor
  · intro hopen
    have hok : LengthsOk aad buf := by
      by_contra h
      obtain ⟨e, -, he⟩ := openCore_of_not_ok (encryptBlockPadded p ccm) (layout v) nonce tag h
      rw [openInPlace, he] at hopen
      cases hopen
    obtain ⟨rawTag, hraw, hcore⟩ :=
      openCore_of_ok (encryptBlockPadded p ccm) (layout v) nonce tag hok
    rw [openInPlace, hcore] at hopen
    split at hopen
    · rename_i hmatch
      cases hopen
      obtain ⟨rawTag', hraw', hseal⟩ :=
        sealCore_of_ok (encryptBlockPadded p ccm) (layout v) nonce (hok.xorWith _)
      rw [hraw] at hraw'
      cases hraw'
      rw [sealInPlace, hseal]
      simp only [xorWith_xorWith, length_xorWith]
      rw [(front_masked_eq_iff hq _ rawTag tag).mpr hmatch]
    · cases hopen
  · intro hseal
    have hok := (sealInPlace_eq_ok_iff p ccm nonce aad plaintext).mp ⟨tag, buf, hseal⟩
    obtain ⟨rawTag, hraw, hcore⟩ := sealCore_of_ok (encryptBlockPadded p ccm) (layout v) nonce hok
    rw [sealInPlace, hcore] at hseal
    cases hseal
    obtain ⟨rawTag', hraw', hopen⟩ := openCore_of_ok (encryptBlockPadded p ccm) (layout v) nonce
      (front hq (overwrite (Vector.replicate maxBlock 0)
        (xorWith (shift (coreStream (encryptBlockPadded p ccm) (layout v) nonce) plaintext.length)
          (rawTag.toList.take (tagBytes v))))) (hok.xorWith _)
    rw [xorWith_xorWith, hraw] at hraw'
    cases hraw'
    have hmatch := (front_masked_eq_iff hq
      (shift (coreStream (encryptBlockPadded p ccm) (layout v) nonce) plaintext.length) rawTag
      _).mp rfl
    rw [openInPlace, hopen, length_xorWith, if_pos hmatch, xorWith_xorWith]

/-- Whatever is opened, the call returns: the plaintext, an error on the lengths that leaves the
buffer alone, or a mismatch that zeroes it. -/
theorem openInPlace_cases (nonce : Vector UInt8 v.blockBytes) (aad buf : List UInt8)
    (tag : Vector UInt8 (tagBytes v)) :
    (∃ plaintext, ccm.openInPlace p nonce aad buf tag = some (.ok (), plaintext)
        ∧ plaintext.length = buf.length)
      ∨ (LengthsOk aad buf ∧ ccm.openInPlace p nonce aad buf tag
          = some (.error .tagMismatch, List.replicate buf.length 0))
      ∨ ∃ e, e ≠ .tagMismatch ∧ checkLengths aad buf = .error e
        ∧ ccm.openInPlace p nonce aad buf tag = some (.error e, buf) := by
  by_cases hok : LengthsOk aad buf
  · obtain ⟨rawTag, -, hcore⟩ :=
      openCore_of_ok (encryptBlockPadded p ccm) (layout v) nonce tag hok
    rw [openInPlace, hcore]
    split
    · exact Or.inl ⟨_, rfl, length_xorWith _ _⟩
    · exact Or.inr (Or.inl ⟨hok, rfl⟩)
  · obtain ⟨e, hcheck, hcore⟩ :=
      openCore_of_not_ok (encryptBlockPadded p ccm) (layout v) nonce tag hok
    refine Or.inr (Or.inr ⟨e, ?_, hcheck, hcore⟩)
    rintro rfl
    exact checkLengths_ne_tagMismatch aad buf hcheck

end Ccm

/-- For every variant, key and nonce: what is sealed within the limits opens again, what opens
was sealed so, and a call that does not open returns an error, with the buffer zeroed when the
tag is wrong and untouched when the lengths are. -/
theorem ccm_open_inverts_seal (p : Profile) (v : Variant) (key : Vector UInt8 v.keyBytes)
    (nonce : Vector UInt8 v.blockBytes) :
    let ccm := Ccm.new p v key
    (∀ aad plaintext, aad.length ≤ 255 → 1 ≤ plaintext.length → plaintext.length ≤ 255 →
        ∃ tag ciphertext, ccm.sealInPlace p nonce aad plaintext = some (.ok tag, ciphertext)
          ∧ ccm.openInPlace p nonce aad ciphertext tag = some (.ok (), plaintext))
    ∧ (∀ aad buf tag plaintext,
        ccm.openInPlace p nonce aad buf tag = some (.ok (), plaintext) →
          ccm.sealInPlace p nonce aad plaintext = some (.ok tag, buf))
    ∧ ∀ aad buf tag, ∃ result out, ccm.openInPlace p nonce aad buf tag = some (result, out)
        ∧ (result = .error .tagMismatch → out = List.replicate buf.length 0)
        ∧ (∀ e, result = .error e → e ≠ .tagMismatch → out = buf)
        ∧ ((∃ e, result = .error e ∧ e ≠ .tagMismatch)
            ↔ buf = [] ∨ 255 < buf.length ∨ 255 < aad.length) := by
  intro ccm
  refine ⟨?_, ?_, ?_⟩
  · intro aad plaintext haad hpos hplain
    have hok : LengthsOk aad plaintext := ⟨List.length_pos_iff.mp hpos, hplain, haad⟩
    obtain ⟨tag, ciphertext, hseal⟩ := (ccm.sealInPlace_eq_ok_iff p nonce aad plaintext).mpr hok
    exact ⟨tag, ciphertext, hseal, (ccm.openInPlace_eq_ok_iff p nonce _ _ _ _).mpr hseal⟩
  · intro aad buf tag plaintext
    exact (ccm.openInPlace_eq_ok_iff p nonce aad buf tag plaintext).mp
  · intro aad buf tag
    have hiff : ¬LengthsOk aad buf ↔ buf = [] ∨ 255 < buf.length ∨ 255 < aad.length := by
      simp only [LengthsOk, maxPlaintextLen, maxAadLen, not_and_or, not_not, Nat.not_le, ne_eq]
    rw [← hiff]
    rcases ccm.openInPlace_cases p nonce aad buf tag with
      ⟨plaintext, hopen, -⟩ | ⟨hok, hopen⟩ | ⟨e, hne, hcheck, hopen⟩
    · refine ⟨_, _, hopen, by simp, by simp, by simp, ?_⟩
      intro hbad
      obtain ⟨e, -, he⟩ := openCore_of_not_ok (Ccm.encryptBlockPadded p ccm) (layout v) nonce tag hbad
      rw [Ccm.openInPlace, he] at hopen
      cases hopen
    · refine ⟨_, _, hopen, fun _ => rfl, ?_, ?_, fun hbad => absurd hok hbad⟩
      · rintro e he hne
        cases he
        exact absurd rfl hne
      · rintro ⟨e, he, hne⟩
        cases he
        exact absurd rfl hne
    · refine ⟨_, _, hopen, ?_, fun _ _ _ => rfl, fun _ hok => ?_, fun _ => ⟨e, rfl, hne⟩⟩
      · intro he
        cases he
        exact absurd rfl hne
      · rw [checkLengths_of_ok hok] at hcheck
        cases hcheck

/-! ## The authenticated blocks -/

section Blocks

variable (encryptBlock : Vector UInt8 maxBlock → Vector UInt8 maxBlock) (layout : Layout)

/-- The chunks `compute_tag` XORs into the state, those of `h_buf` and then those of `p_buf`. -/
def macBlocks (nonce : Vector UInt8 layout.blockLen) (aad plaintext : List UInt8) :
    Option (List (Vector UInt8 layout.blockLen)) := do
  let (hBuf, hLen) ← headerBuffer layout nonce aad plaintext
  let header ← sliceTo hBuf hLen
  let (pBuf, pLen) ← plaintextBuffer layout plaintext
  let padded ← sliceTo pBuf pLen
  some (chunksExact layout.blockLen layout.blockLen_pos header
    ++ chunksExact layout.blockLen layout.blockLen_pos padded)

/-- The nonce's part in `G1`. -/
def noncePrefix (nonce : Vector UInt8 layout.blockLen) : List UInt8 :=
  nonce.toList.take (layout.blockLen - layout.ccmNb - 1)

theorem macBlocks_eq (nonce : Vector UInt8 layout.blockLen) {aad plaintext : List UInt8}
    (haad : aad.length ≤ maxAadLen) (hplain : plaintext.length ≤ maxPlaintextLen) :
    macBlocks layout nonce aad plaintext
      = some (chunksExact layout.blockLen layout.blockLen_pos
          (g1 layout nonce aad plaintext ++ g2 layout aad ++ padded layout plaintext)) := by
  have hheader : layout.blockLen ∣ (g1 layout nonce aad plaintext ++ g2 layout aad).length := by
    rw [List.length_append, length_g1]
    exact Nat.dvd_add (Nat.dvd_refl _) (dvd_length_g2 layout aad)
  obtain ⟨room, hbuf⟩ := headerBuffer_eq layout nonce plaintext haad
  obtain ⟨room', hpbuf⟩ := plaintextBuffer_eq layout hplain
  unfold macBlocks
  simp only [hbuf, hpbuf, Option.bind_eq_bind, Option.bind_some, sliceTo_left]
  rw [chunksExact_append_of_dvd layout.blockLen_pos _ hheader]

/-- The raw tag is the CBC-MAC over them. -/
theorem computeTag_eq_macBlocks (nonce : Vector UInt8 layout.blockLen) {aad plaintext : List UInt8}
    (haad : aad.length ≤ maxAadLen) (hplain : plaintext.length ≤ maxPlaintextLen) :
    computeTag encryptBlock layout nonce aad plaintext
      = (macBlocks layout nonce aad plaintext).map fun blocks =>
          blocks.foldl (macStep encryptBlock layout) (Vector.replicate maxBlock 0) := by
  rw [computeTag_eq encryptBlock layout nonce haad hplain, macBlocks_eq layout nonce haad hplain]
  rfl

theorem dvd_length_padded (plaintext : List UInt8) :
    layout.blockLen ∣ (padded layout plaintext).length := by
  have hdiv := Nat.div_add_mod plaintext.length layout.blockLen
  have hmod := Nat.mod_lt plaintext.length layout.blockLen_pos
  unfold padded
  split
  · refine ⟨plaintext.length / layout.blockLen + 1, ?_⟩
    rw [List.length_append, List.length_append, List.length_singleton, List.length_replicate,
      Nat.mul_succ]
    omega
  · rename_i h
    exact Nat.dvd_of_mod_eq_zero (not_not.mp h)

theorem copyInto_length {α : Type} {buf buf' data : List α} {off : Nat}
    (h : copyInto buf off data = some buf') : buf'.length = buf.length := by
  unfold copyInto at h
  split at h
  · rename_i hle
    cases h
    rw [writeAt, List.length_append, List.length_append, List.length_take, List.length_drop]
    omega
  · cases h

theorem length_headerBuffer {nonce : Vector UInt8 layout.blockLen} {aad plaintext hBuf : List UInt8}
    {hLen : Nat} (h : headerBuffer layout nonce aad plaintext = some (hBuf, hLen)) :
    hBuf.length = hBufLen := by
  simp only [headerBuffer, Option.bind_eq_bind, Option.bind_eq_some_iff] at h
  obtain ⟨block, -, first, hfirst, h⟩ := h
  have hlen := copyInto_length hfirst
  rw [List.length_replicate] at hlen
  split at h
  · cases h
    exact hlen
  · obtain ⟨second, hsecond, h⟩ := Option.bind_eq_some_iff.mp h
    obtain ⟨third, hthird, h⟩ := Option.bind_eq_some_iff.mp h
    cases h
    rw [copyInto_length hthird, copyInto_length hsecond, hlen]

theorem length_plaintextBuffer {plaintext pBuf : List UInt8} {pLen : Nat}
    (h : plaintextBuffer layout plaintext = some (pBuf, pLen)) : pBuf.length = pBufLen := by
  simp only [plaintextBuffer, Option.bind_eq_bind, Option.bind_eq_some_iff] at h
  obtain ⟨first, hfirst, h⟩ := h
  have hlen := copyInto_length hfirst
  rw [List.length_replicate] at hlen
  split at h
  · obtain ⟨second, hsecond, h⟩ := Option.bind_eq_some_iff.mp h
    cases h
    rw [copyInto_length hsecond, hlen]
  · cases h
    exact hlen

/-- What is read of `h_buf` and of `p_buf` is whole blocks, and inside them. -/
theorem buffers_eq (nonce : Vector UInt8 layout.blockLen) {aad plaintext : List UInt8}
    (haad : aad.length ≤ maxAadLen) (hplain : plaintext.length ≤ maxPlaintextLen) :
    ∃ hBuf hLen pBuf pLen,
      headerBuffer layout nonce aad plaintext = some (hBuf, hLen)
        ∧ hBuf.length = hBufLen ∧ hLen ≤ hBufLen ∧ layout.blockLen ∣ hLen
        ∧ plaintextBuffer layout plaintext = some (pBuf, pLen)
        ∧ pBuf.length = pBufLen ∧ pLen ≤ pBufLen ∧ layout.blockLen ∣ pLen := by
  obtain ⟨room, hbuf⟩ := headerBuffer_eq layout nonce plaintext haad
  obtain ⟨room', hpbuf⟩ := plaintextBuffer_eq layout hplain
  have hkept := length_headerBuffer layout hbuf
  have hpkept := length_plaintextBuffer layout hpbuf
  have hheader : layout.blockLen ∣ (g1 layout nonce aad plaintext ++ g2 layout aad).length := by
    rw [List.length_append, length_g1]
    exact Nat.dvd_add (Nat.dvd_refl _) (dvd_length_g2 layout aad)
  have hle : (g1 layout nonce aad plaintext ++ g2 layout aad).length ≤ hBufLen := by
    rw [← hkept, @List.length_append _ _ (List.replicate room 0)]
    exact Nat.le_add_right _ _
  have hple : (padded layout plaintext).length ≤ pBufLen := by
    rw [← hpkept, List.length_append]
    exact Nat.le_add_right _ _
  exact ⟨_, _, _, _, hbuf, hkept, hle, hheader, hpbuf, hpkept, hple,
    dvd_length_padded layout plaintext⟩

/-! ## No list of blocks starts another -/

/-- Within the limits a length fits the lowest byte of its field. -/
theorem lengthField_injective {m n : Nat} (hm : m ≤ 255) (hn : n ≤ 255)
    (h : lengthField layout m = lengthField layout n) : m = n := by
  have hpos := layout.ccmNb_pos
  have hfirst (k : Nat) (hk : k ≤ 255) : (lengthField layout k).head? = some (UInt8.ofNat k) := by
    have hword : (UInt64.ofNat k).toNat = k := by
      rw [UInt64.toNat_ofNat']
      omega
    rw [lengthField, List.head?_take, if_neg (Nat.ne_of_gt hpos), toLeBytes, hword,
      List.head?_eq_getElem?]
    simp [leBytes]
  have hbyte := hfirst m hm
  rw [h, hfirst n hn, Option.some.injEq] at hbyte
  have hnat := congrArg UInt8.toNat hbyte
  rw [UInt8.toNat_ofNat', UInt8.toNat_ofNat'] at hnat
  omega

/-- With AAD on both sides, the length field says where each ends. -/
theorem g2_injective {aad aad' rest rest' : List UInt8} (haad : aad.length ≤ maxAadLen)
    (haad' : aad'.length ≤ maxAadLen) (hempty : aad.isEmpty = aad'.isEmpty)
    (h : g2 layout aad ++ rest <+: g2 layout aad' ++ rest') : aad = aad' ∧ rest <+: rest' := by
  rw [g2, g2, ← hempty] at h
  split at h
  · rename_i hnil
    have hnil' := hempty ▸ hnil
    rw [List.isEmpty_iff] at hnil hnil'
    exact ⟨hnil.trans hnil'.symm, h⟩
  · obtain ⟨tail, htail⟩ := h
    simp only [List.append_assoc] at htail
    obtain ⟨hfield, hafter⟩ := List.append_inj htail (by simp)
    have hlen := lengthField_injective layout haad haad' hfield
    rw [zeros, hlen, ← zeros] at hafter
    obtain ⟨haads, hrest⟩ := List.append_inj (List.append_cancel_left hafter) hlen
    exact ⟨haads, tail, hrest⟩

theorem padded_injective {plaintext plaintext' : List UInt8}
    (hlen : plaintext.length = plaintext'.length)
    (h : padded layout plaintext <+: padded layout plaintext') : plaintext = plaintext' := by
  have htake (text : List UInt8) : (padded layout text).take text.length = text := by
    unfold padded
    split
    · rw [List.append_assoc, List.take_left]
    · exact List.take_length
  have hle : plaintext.length ≤ (padded layout plaintext).length := by
    rw [← htake plaintext, List.length_take, htake]
    exact Nat.min_le_right _ _
  obtain ⟨tail, htail⟩ := h
  rw [← htake plaintext, ← htake plaintext', ← hlen, ← htail,
    List.take_append_of_le_length hle]

end Blocks

/-- The top bit of the flags says whether there is AAD. -/
theorem isEmpty_of_flags {v : Variant} {aad aad' : List UInt8}
    (h : flags (layout v) aad = flags (layout v) aad') : aad.isEmpty = aad'.isEmpty := by
  have hbit (a a' : Bool) (h : ((if a then 0 else 0x80 : UInt8)
      ||| tagLengthCode (tagBytes v) <<< 4 ||| UInt8.ofNat (ccmNb v - 1))
        = ((if a' then 0 else 0x80 : UInt8) ||| tagLengthCode (tagBytes v) <<< 4
          ||| UInt8.ofNat (ccmNb v - 1))) : a = a' := by
    revert a a'
    cases v <;> decide
  exact hbit _ _ h

theorem g1_injective {v : Variant} {nonce nonce' : Vector UInt8 v.blockBytes}
    {aad aad' plaintext plaintext' : List UInt8} (hlen : plaintext.length ≤ maxPlaintextLen)
    (hlen' : plaintext'.length ≤ maxPlaintextLen)
    (h : g1 (layout v) nonce aad plaintext = g1 (layout v) nonce' aad' plaintext') :
    noncePrefix (layout v) nonce = noncePrefix (layout v) nonce'
      ∧ plaintext.length = plaintext'.length ∧ aad.isEmpty = aad'.isEmpty := by
  rw [g1, g1] at h
  obtain ⟨hfront, hflags⟩ := List.append_inj' h rfl
  obtain ⟨hnonce, hfield⟩ := List.append_inj hfront (by rw [length_noncePart, length_noncePart])
  exact ⟨hnonce, lengthField_injective (layout v) hlen hlen' hfield,
    isEmpty_of_flags (List.singleton_inj.mp hflags)⟩

/-- For every variant: the blocks under the tag are whole blocks of `h_buf` and of `p_buf`, and
where the blocks of one input are the front of those of another, the two inputs agree in the
nonce's part, the AAD and the plaintext. -/
theorem macBlocks_prefix_free (v : Variant) :
    (∀ nonce aad plaintext, aad.length ≤ maxAadLen → plaintext.length ≤ maxPlaintextLen →
        ∃ hBuf hLen pBuf pLen blocks,
          headerBuffer (layout v) nonce aad plaintext = some (hBuf, hLen)
          ∧ hBuf.length = hBufLen ∧ hLen ≤ hBufLen ∧ v.blockBytes ∣ hLen
          ∧ plaintextBuffer (layout v) plaintext = some (pBuf, pLen)
          ∧ pBuf.length = pBufLen ∧ pLen ≤ pBufLen ∧ v.blockBytes ∣ pLen
          ∧ macBlocks (layout v) nonce aad plaintext = some blocks
          ∧ joinChunks blocks = hBuf.take hLen ++ pBuf.take pLen
          ∧ ∀ encryptBlock, computeTag encryptBlock (layout v) nonce aad plaintext
              = some (blocks.foldl (macStep encryptBlock (layout v)) (Vector.replicate maxBlock 0)))
    ∧ ∀ nonce nonce' aad aad' plaintext plaintext' blocks blocks',
        aad.length ≤ maxAadLen → aad'.length ≤ maxAadLen →
        plaintext.length ≤ maxPlaintextLen → plaintext'.length ≤ maxPlaintextLen →
        macBlocks (layout v) nonce aad plaintext = some blocks →
        macBlocks (layout v) nonce' aad' plaintext' = some blocks' →
        blocks <+: blocks' →
          noncePrefix (layout v) nonce = noncePrefix (layout v) nonce' ∧ aad = aad'
            ∧ plaintext = plaintext' := by
  have hwhole (nonce : Vector UInt8 v.blockBytes) (aad plaintext : List UInt8) :
      (layout v).blockLen ∣ (g1 (layout v) nonce aad plaintext ++ g2 (layout v) aad
        ++ padded (layout v) plaintext).length := by
    rw [List.length_append, List.length_append, length_g1]
    exact Nat.dvd_add (Nat.dvd_add (Nat.dvd_refl _) (dvd_length_g2 _ aad))
      (dvd_length_padded _ plaintext)
  constructor
  · intro nonce aad plaintext haad hplain
    obtain ⟨hBuf, hLen, pBuf, pLen, hheader, hkept, hle, hdvd, hplaintext, hpkept, hple, hpdvd⟩ :=
      buffers_eq (layout v) nonce haad hplain
    have hblocks : macBlocks (layout v) nonce aad plaintext
        = some (chunksExact (layout v).blockLen (layout v).blockLen_pos (hBuf.take hLen)
          ++ chunksExact (layout v).blockLen (layout v).blockLen_pos (pBuf.take pLen)) := by
      unfold macBlocks
      simp only [hheader, hplaintext, Option.bind_eq_bind, Option.bind_some, sliceTo, hkept, hpkept,
        if_pos hle, if_pos hple]
    refine ⟨hBuf, hLen, pBuf, pLen, _, hheader, hkept, hle, hdvd, hplaintext, hpkept, hple, hpdvd,
      hblocks, ?_, ?_⟩
    · rw [joinChunks_append, joinChunks_chunksExact, joinChunks_chunksExact]
      · rwa [List.length_take, hpkept, Nat.min_eq_left hple]
      · rwa [List.length_take, hkept, Nat.min_eq_left hle]
    · intro encryptBlock
      rw [computeTag_eq_macBlocks encryptBlock _ nonce haad hplain, hblocks]
      rfl
  · intro nonce nonce' aad aad' plaintext plaintext' blocks blocks' haad haad' hplain hplain'
      hblocks hblocks' hprefix
    rw [macBlocks_eq _ nonce haad hplain, Option.some.injEq] at hblocks
    rw [macBlocks_eq _ nonce' haad' hplain', Option.some.injEq] at hblocks'
    -- from lists of blocks to lists of bytes
    have hbytes : joinChunks blocks <+: joinChunks blocks' := by
      obtain ⟨tail, rfl⟩ := hprefix
      rw [joinChunks_append]
      exact List.prefix_append _ _
    rw [← hblocks, ← hblocks', joinChunks_chunksExact _ (hwhole nonce aad plaintext),
      joinChunks_chunksExact _ (hwhole nonce' aad' plaintext')] at hbytes
    obtain ⟨tail, htail⟩ := hbytes
    simp only [List.append_assoc] at htail
    obtain ⟨hg1, hafter⟩ := List.append_inj htail (by rw [length_g1, length_g1])
    obtain ⟨hnonce, hlen, hempty⟩ := g1_injective hplain hplain' hg1
    have hrest : g2 (layout v) aad ++ padded (layout v) plaintext
        <+: g2 (layout v) aad' ++ padded (layout v) plaintext' :=
      ⟨tail, by rw [List.append_assoc, hafter]⟩
    obtain ⟨haads, hpadded⟩ := g2_injective (layout v) haad haad' hempty hrest
    exact ⟨hnonce, haads, padded_injective (layout v) hlen hpadded⟩

end UaCrypt.Hazmat.KalynaCcm
