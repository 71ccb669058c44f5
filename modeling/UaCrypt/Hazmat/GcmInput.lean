import UaCrypt.Hazmat.Gf2mField
import UaCrypt.Hazmat.KalynaGmac
import UaCrypt.Lib.PolyHash

/-!
# What a GCM or GMAC tag authenticates

The block encrypted at the end of `compute_tag` and of `mac_with_bit_len`, as a function
of the hash key: a polynomial over the variant's field, the padded blocks its
coefficients and the length block its constant term.

- `tagInput`, `inputPoly` and `gmacInput`, `gmacPoly`: the block and the polynomial;
  `element_tagInput`, `element_gmacInput`: the block is the polynomial at the hash key.
- `inputPoly_injective`: the polynomial determines the AAD and the ciphertext. A leading
  zero block leaves no coefficient and a padded tail looks like a whole block, so all of
  it rests on the length block.
- `tag_input_unambiguous`: two different inputs share a block for few hash keys only.
-/

namespace UaCrypt.Hazmat.KalynaGcm

open LittleEndian ColumnState Kalyna Chunks Polynomial

variable {v : Variant}

/-! ## The field of a variant -/

/-- `GF(2^m)`, for the block size of a variant. -/
abbrev TagField (v : Variant) : Type := AdjoinRoot (Gf2mWide.modulus v.nb (field v))

theorem two_le_nb (v : Variant) : 2 ≤ v.nb := by
  cases v <;> decide

instance irreducible_tagModulus (v : Variant) :
    Fact (Irreducible (Gf2mWide.modulus v.nb (field v))) where
  out := by
    cases v with
    | kalyna128_128 => exact Gf2mWide.irreducible_modulus .gf2m128
    | kalyna128_256 => exact Gf2mWide.irreducible_modulus .gf2m128
    | kalyna256_256 => exact Gf2mWide.irreducible_modulus .gf2m256
    | kalyna256_512 => exact Gf2mWide.irreducible_modulus .gf2m256
    | kalyna512_512 => exact Gf2mWide.irreducible_modulus .gf2m512

/-- The field element of a hash key. -/
noncomputable def ofKey (hKey : Gf2mWide.Elem v.nb) : TagField v :=
  Gf2mWide.toQuotient (field v) hKey

/-- The field element a block spells. -/
noncomputable def element (block : Vector UInt8 v.blockBytes) : TagField v :=
  ofKey (Gf2mWide.fromBytes block)

theorem ofKey_injective : Function.Injective (ofKey (v := v)) := fun _ _ h =>
  Gf2mWide.toQuotient_injective (field v) v.nb_pos h

theorem element_injective : Function.Injective (element (v := v)) := fun _ _ h =>
  Gf2mWide.fromBytes_injective (ofKey_injective h)

theorem element_toBytes (a : Gf2mWide.Elem v.nb) : element (Gf2mWide.toBytes a) = ofKey a := by
  rw [element, Gf2mWide.fromBytes_toBytes]

theorem element_xor (block block' : Vector UInt8 v.blockBytes) :
    element (block.zipWith (· ^^^ ·) block') = element block + element block' := by
  rw [element, Gf2mWide.fromBytes_xor]
  exact Gf2mWide.toQuotient_add (field v) _ _

/-! ## Padding -/

/-- The blocks `absorb_padded` accumulates. -/
def paddedBlocks (v : Variant) (data : List UInt8) : List (Vector UInt8 v.blockBytes) :=
  let tail := remainder v.blockBytes data
  chunksExact v.blockBytes (blockBytes_pos v) data
    ++ if tail.isEmpty then [] else [Gcm.padTail tail]

theorem length_paddedBlocks (data : List UInt8) :
    (paddedBlocks v data).length
      = data.length / v.blockBytes + if data.length % v.blockBytes = 0 then 0 else 1 := by
  have hempty : (remainder v.blockBytes data).isEmpty ↔ data.length % v.blockBytes = 0 := by
    rw [List.isEmpty_iff_length_eq_zero, length_remainder]
  rw [paddedBlocks, List.length_append, length_chunksExact]
  by_cases h : data.length % v.blockBytes = 0
  · rw [if_pos h, if_pos (hempty.mpr h)]
    rfl
  · rw [if_neg h, if_neg (mt hempty.mp h)]
    rfl

theorem take_padTail {tail : List UInt8} (h : tail.length < v.blockBytes) :
    (Gcm.padTail (v := v) tail).toList.take tail.length = tail := by
  apply List.ext_getElem
  · rw [List.length_take, Vector.length_toList, Nat.min_eq_left (Nat.le_of_lt h)]
  · intro i _ hi
    have hbyte : (tail ++ [0x80]).getD i 0 = tail[i] := by
      rw [List.getD_eq_getElem?_getD, List.getElem?_append_left hi, List.getElem?_eq_getElem hi,
        Option.getD_some]
    rw [List.getElem_take, Vector.getElem_toList]
    unfold Gcm.padTail
    rw [Vector.getElem_ofFn, hbyte]

/-- The data is in front of its padding. -/
theorem take_joinChunks_paddedBlocks (data : List UInt8) :
    (joinChunks (paddedBlocks v data)).take data.length = data := by
  have hpos := blockBytes_pos v
  have hwhole : joinChunks (chunksExact v.blockBytes hpos data) = whole v.blockBytes data := by
    rw [← chunksExact_whole, joinChunks_chunksExact hpos (dvd_length_whole _ data)]
  have hsplit := whole_append_remainder v.blockBytes data
  have hlen := congrArg List.length hsplit
  rw [List.length_append] at hlen
  rw [paddedBlocks, joinChunks_append, hwhole]
  by_cases hempty : (remainder v.blockBytes data).isEmpty
  · rw [if_pos hempty, show joinChunks ([] : List (Vector UInt8 v.blockBytes)) = [] from rfl,
      List.append_nil]
    rw [List.isEmpty_iff.mp hempty, List.append_nil] at hsplit
    rw [hsplit, List.take_length]
  · have hpad : joinChunks [Gcm.padTail (v := v) (remainder v.blockBytes data)]
        = (Gcm.padTail (v := v) (remainder v.blockBytes data)).toList := List.append_nil _
    rw [if_neg hempty, hpad, ← hlen, List.take_length_add_append,
      take_padTail (length_remainder_lt hpos data), hsplit]

/-- Data with its padding written out has the same blocks: they alone do not determine
the input. -/
theorem paddedBlocks_joinChunks (blocks : List (Vector UInt8 v.blockBytes)) :
    paddedBlocks v (joinChunks blocks) = blocks := by
  have hempty : remainder v.blockBytes (joinChunks blocks) = [] := by
    apply List.eq_nil_of_length_eq_zero
    rw [length_remainder, length_joinChunks, Nat.mul_mod_right]
  rw [paddedBlocks, chunksExact_joinChunks, hempty]
  exact List.append_nil _

/-- Among inputs of one length the blocks determine the input. -/
theorem paddedBlocks_injective {data data' : List UInt8} (hlen : data.length = data'.length)
    (h : paddedBlocks v data = paddedBlocks v data') : data = data' := by
  rw [← take_joinChunks_paddedBlocks (v := v) data, h, hlen, take_joinChunks_paddedBlocks]

variable (b : Build)

theorem absorbPadded_eq_foldl (acc hKey : Gf2mWide.Elem v.nb) (data : List UInt8) :
    Gcm.absorbPadded b acc hKey data
      = (paddedBlocks v data).foldl (Gcm.absorbBlock b hKey) acc := by
  rw [Gcm.absorbPadded, paddedBlocks, List.foldl_append]
  by_cases hempty : (remainder v.blockBytes data).isEmpty
  · rw [if_pos hempty, if_pos hempty]
    rfl
  · rw [if_neg hempty, if_neg hempty]
    rfl

/-- One block of the accumulation, in the field. -/
theorem ofKey_absorbBlock (hKey acc : Gf2mWide.Elem v.nb) (block : Vector UInt8 v.blockBytes) :
    ofKey (Gcm.absorbBlock b hKey acc block)
      = PolyHash.absorb (ofKey hKey) (ofKey acc) (element block) := by
  rw [Gcm.absorbBlock, ofKey, Gf2mWide.toQuotient_multiply (field v) (two_le_nb v),
    Gf2mWide.toQuotient_add]
  rfl

theorem ofKey_foldl_absorbBlock (hKey acc : Gf2mWide.Elem v.nb)
    (blocks : List (Vector UInt8 v.blockBytes)) :
    ofKey (blocks.foldl (Gcm.absorbBlock b hKey) acc)
      = (blocks.map element).foldl (PolyHash.absorb (ofKey hKey)) (ofKey acc) := by
  induction blocks generalizing acc with
  | nil => rfl
  | cons block blocks ih =>
    rw [List.foldl_cons, ih, ofKey_absorbBlock, List.map_cons, List.foldl_cons]

/-! ## The length block -/

theorem eight_le_half (v : Variant) :
    8 ≤ v.blockBytes / 2 ∧ v.blockBytes / 2 + 8 ≤ v.blockBytes := by
  cases v <;> decide

theorem getElem_lengthBlock_low (aadBits ctBits : UInt64) {i : Nat} (hi : i < 8) :
    (Gcm.lengthBlock v aadBits ctBits).toList[i]? = some (toLeBytes aadBits)[i] := by
  have hin : i < v.blockBytes := Nat.lt_of_lt_of_le hi (eight_le_blockBytes v)
  rw [Vector.getElem?_toList, Vector.getElem?_eq_getElem hin]
  unfold Gcm.lengthBlock
  rw [Vector.getElem_ofFn, dif_pos hi]

theorem getElem_lengthBlock_high (aadBits ctBits : UInt64) {i : Nat} (hi : i < 8) :
    (Gcm.lengthBlock v aadBits ctBits).toList[v.blockBytes / 2 + i]?
      = some (toLeBytes ctBits)[i] := by
  have hhalf := eight_le_half v
  have hin : v.blockBytes / 2 + i < v.blockBytes := by omega
  rw [Vector.getElem?_toList, Vector.getElem?_eq_getElem hin]
  unfold Gcm.lengthBlock
  rw [Vector.getElem_ofFn, dif_neg (by show ¬v.blockBytes / 2 + i < 8; omega),
    dif_pos ⟨Nat.le_add_right _ _, Nat.add_lt_add_left hi _⟩]
  simp only [Nat.add_sub_cancel_left]

/-- The two lengths are in places of their own. -/
theorem lengthBlock_injective {aadBits ctBits aadBits' ctBits' : UInt64}
    (h : Gcm.lengthBlock v aadBits ctBits = Gcm.lengthBlock v aadBits' ctBits') :
    aadBits = aadBits' ∧ ctBits = ctBits' := by
  constructor
  · refine toLeBytes_injective (Vector.ext fun i hi => Option.some.inj ?_)
    rw [← getElem_lengthBlock_low (v := v) aadBits ctBits hi, h, getElem_lengthBlock_low]
  · refine toLeBytes_injective (Vector.ext fun i hi => Option.some.inj ?_)
    rw [← getElem_lengthBlock_high (v := v) aadBits ctBits hi, h, getElem_lengthBlock_high]

/-- The bit length of `length` bytes, as the length block has it. -/
def bitLen (length : Nat) : UInt64 := UInt64.ofNat (length * 8)

theorem bitLen_injective {length length' : Nat} (h : length < 2 ^ 61) (h' : length' < 2 ^ 61)
    (heq : bitLen length = bitLen length') : length = length' := by
  have hbits := congrArg UInt64.toNat heq
  rw [bitLen, bitLen, UInt64.toNat_ofNat', UInt64.toNat_ofNat', Nat.mod_eq_of_lt (by omega),
    Nat.mod_eq_of_lt (by omega)] at hbits
  omega

theorem checkedBitLen_eq_some_iff {length : Nat} {bits : UInt64} :
    checkedBitLen length = some bits ↔ length < 2 ^ 61 ∧ bits = bitLen length := by
  unfold checkedBitLen
  split
  · rw [Option.some.injEq]
    constructor
    · rintro rfl
      exact ⟨by omega, rfl⟩
    · rintro ⟨-, rfl⟩
      rfl
  · constructor
    · intro h
      cases h
    · rintro ⟨hlt, -⟩
      omega

/-! ## The block and the polynomial -/

/-- The block `compute_tag` encrypts under hash key `hKey`. -/
def tagInput (hKey : Gf2mWide.Elem v.nb) (aad ct : List UInt8) : Vector UInt8 v.blockBytes :=
  let acc := Gcm.absorbPadded b (Gf2mWide.zero v.nb) hKey aad
  let acc := Gcm.absorbPadded b acc hKey ct
  (Gcm.lengthBlock v (bitLen aad.length) (bitLen ct.length)).zipWith (· ^^^ ·)
    (Gf2mWide.toBytes acc)

/-- The number of blocks of an AAD and a ciphertext. -/
def blockCount (v : Variant) (aad ct : List UInt8) : Nat :=
  (paddedBlocks v aad).length + (paddedBlocks v ct).length

/-- The padded AAD and ciphertext blocks times `X ^ n … X ^ 1`, and the length block. -/
noncomputable def inputPoly (v : Variant) (aad ct : List UInt8) : (TagField v)[X] :=
  PolyHash.hashPoly ((paddedBlocks v aad ++ paddedBlocks v ct).map element)
    (element (Gcm.lengthBlock v (bitLen aad.length) (bitLen ct.length)))

theorem natDegree_inputPoly_le (aad ct : List UInt8) :
    (inputPoly v aad ct).natDegree ≤ blockCount v aad ct := by
  have hdegree := PolyHash.natDegree_hashPoly_le
    ((paddedBlocks v aad ++ paddedBlocks v ct).map element)
    (element (Gcm.lengthBlock v (bitLen aad.length) (bitLen ct.length)))
  rwa [List.length_map, List.length_append] at hdegree

/-- The block is the polynomial at the hash key. -/
theorem element_tagInput (hKey : Gf2mWide.Elem v.nb) (aad ct : List UInt8) :
    element (tagInput b hKey aad ct) = eval (ofKey hKey) (inputPoly v aad ct) := by
  have hzero : ofKey (Gf2mWide.zero v.nb) = (0 : TagField v) := Gf2mWide.toQuotient_zero (field v)
  rw [tagInput, element_xor, element_toBytes, absorbPadded_eq_foldl, absorbPadded_eq_foldl,
    ← List.foldl_append, ofKey_foldl_absorbBlock, hzero, inputPoly, PolyHash.eval_hashPoly,
    add_comm]

/-- The polynomial determines the AAD and the ciphertext. -/
theorem inputPoly_injective {aad ct aad' ct' : List UInt8} (haad : aad.length < 2 ^ 61)
    (hct : ct.length < 2 ^ 61) (haad' : aad'.length < 2 ^ 61) (hct' : ct'.length < 2 ^ 61)
    (h : inputPoly v aad ct = inputPoly v aad' ct') : aad = aad' ∧ ct = ct' := by
  -- the constant term gives both lengths
  have hlens (hlast : element (Gcm.lengthBlock v (bitLen aad.length) (bitLen ct.length))
      = element (Gcm.lengthBlock v (bitLen aad'.length) (bitLen ct'.length))) :
      aad.length = aad'.length ∧ ct.length = ct'.length := by
    obtain ⟨haadBits, hctBits⟩ := lengthBlock_injective (element_injective hlast)
    exact ⟨bitLen_injective haad haad' haadBits, bitLen_injective hct hct' hctBits⟩
  obtain ⟨hblocks, hlast⟩ := PolyHash.hashPoly_injective h fun hlast => by
    obtain ⟨hlenAad, hlenCt⟩ := hlens hlast
    simp only [List.length_map, List.length_append, length_paddedBlocks, hlenAad, hlenCt]
  obtain ⟨hlenAad, hlenCt⟩ := hlens hlast
  -- the lengths say where the blocks of the AAD end, and where each padding starts
  have hsplit : (paddedBlocks v aad).length = (paddedBlocks v aad').length := by
    rw [length_paddedBlocks, length_paddedBlocks, hlenAad]
  obtain ⟨hA, hC⟩ :=
    List.append_inj (List.map_injective_iff.mpr element_injective hblocks) hsplit
  exact ⟨paddedBlocks_injective hlenAad hA, paddedBlocks_injective hlenCt hC⟩

/-- Two blocks that depend on the hash key are equal for at most `n` keys. -/
def EqualForAtMost (v : Variant) (n : Nat)
    (input input' : Gf2mWide.Elem v.nb → Vector UInt8 v.blockBytes) : Prop :=
  ∃ S : Finset (Gf2mWide.Elem v.nb), S.card ≤ n ∧ ∀ hKey, hKey ∉ S → input hKey ≠ input' hKey

theorem equalForAtMost_tagInput {aad ct aad' ct' : List UInt8}
    (hne : inputPoly v aad ct ≠ inputPoly v aad' ct') :
    EqualForAtMost v (max (blockCount v aad ct) (blockCount v aad' ct'))
      (fun hKey => tagInput b hKey aad ct) (fun hKey => tagInput b hKey aad' ct') := by
  obtain ⟨S, hcard, hS⟩ := PolyHash.exists_finset_of_ne hne
    ((natDegree_inputPoly_le aad ct).trans (Nat.le_max_left _ _))
    ((natDegree_inputPoly_le aad' ct').trans (Nat.le_max_right _ _)) ofKey_injective
  refine ⟨S, hcard, fun hKey hmem heq => hS hKey hmem ?_⟩
  rw [← element_tagInput b, ← element_tagInput b]
  exact congrArg element heq

/-- `H = E_K(0)`. -/
def hashKey (key : ExpandedKey v) : Gf2mWide.Elem v.nb :=
  Gf2mWide.fromBytes (key.encryptBlock b.profile (Vector.replicate v.blockBytes 0))

theorem computeTag_eq_encryptBlock (gcm : Gcm v) {aad ct : List UInt8} {aadBits ctBits : UInt64}
    (haad : checkedBitLen aad.length = some aadBits)
    (hct : checkedBitLen ct.length = some ctBits) :
    Gcm.computeTag b gcm aad ct aadBits ctBits
      = gcm.key.encryptBlock b.profile (tagInput b (hashKey b gcm.key) aad ct) := by
  obtain ⟨-, rfl⟩ := checkedBitLen_eq_some_iff.mp haad
  obtain ⟨-, rfl⟩ := checkedBitLen_eq_some_iff.mp hct
  unfold Gcm.computeTag tagInput hashKey
  rfl

/-! ## GMAC -/

/-- GMAC's length block: the one bit length in front. -/
def macLengthBlock (v : Variant) (message : List UInt8) : Vector UInt8 v.blockBytes :=
  overwrite (Vector.replicate v.blockBytes 0) (toLeBytes (bitLen message.length)).toList

/-- The block `mac_with_bit_len` encrypts under hash key `hKey`. -/
def macInput (hKey : Gf2mWide.Elem v.nb) (message : List UInt8) : Vector UInt8 v.blockBytes :=
  let acc := KalynaGmac.Gmac.macLoop b hKey message
    (KalynaGmac.Gmac.paddedLen v message.length) (Gf2mWide.zero v.nb) 0
  (macLengthBlock v message).zipWith (· ^^^ ·) (Gf2mWide.toBytes acc)

/-- The padded message blocks times `X ^ n … X ^ 1`, and the length block. -/
noncomputable def macPoly (v : Variant) (message : List UInt8) : (TagField v)[X] :=
  PolyHash.hashPoly ((paddedBlocks v message).map element) (element (macLengthBlock v message))

theorem macWithBitLen_eq_encryptBlock (cipher : ExpandedKey v) {message : List UInt8}
    {bits : UInt64} (h : checkedBitLen message.length = some bits) :
    KalynaGmac.Gmac.macWithBitLen b cipher message bits
      = cipher.encryptBlock b.profile (macInput b (hashKey b cipher) message) := by
  obtain ⟨-, rfl⟩ := checkedBitLen_eq_some_iff.mp h
  unfold KalynaGmac.Gmac.macWithBitLen macInput hashKey
  rfl

@[simp] theorem paddedBlocks_nil (v : Variant) : paddedBlocks v [] = [] := by
  apply List.eq_nil_of_length_eq_zero
  rw [length_paddedBlocks, List.length_nil, Nat.zero_div, Nat.zero_mod]
  rfl

theorem macLengthBlock_eq (message : List UInt8) :
    macLengthBlock v message
      = Gcm.lengthBlock v (bitLen message.length) (bitLen ([] : List UInt8).length) :=
  (KalynaGmac.Gmac.lengthBlock_zero (bitLen message.length)).symm

/-- A message is authenticated as AAD is, with no ciphertext after it. -/
theorem macPoly_eq_inputPoly (message : List UInt8) :
    macPoly v message = inputPoly v message [] := by
  rw [macPoly, inputPoly, paddedBlocks_nil, List.append_nil, macLengthBlock_eq]

theorem macInput_eq_tagInput (hKey : Gf2mWide.Elem v.nb) (message : List UInt8) :
    macInput b hKey message = tagInput b hKey message [] := by
  rw [macInput, tagInput, absorbPadded_eq_foldl b _ hKey [], paddedBlocks_nil, List.foldl_nil,
    KalynaGmac.Gmac.macLoop_eq b hKey _ message (Nat.zero_le _) (Nat.dvd_zero _), macLengthBlock_eq]
  rfl

/-- What a tag encrypts is unambiguous. GCM: the block is a polynomial at the hash key,
different AAD and ciphertext pairs have different polynomials, and so different blocks
for all but `max n n'` hash keys. GMAC: the same of messages. -/
theorem tag_input_unambiguous (b : Build) (v : Variant) :
    ((∀ (gcm : Gcm v) (aad ct : List UInt8) (aadBits ctBits : UInt64),
        checkedBitLen aad.length = some aadBits → checkedBitLen ct.length = some ctBits →
          Gcm.computeTag b gcm aad ct aadBits ctBits
            = gcm.key.encryptBlock b.profile (tagInput b (hashKey b gcm.key) aad ct))
      ∧ (∀ (hKey : Gf2mWide.Elem v.nb) (aad ct : List UInt8),
        element (tagInput b hKey aad ct) = eval (ofKey hKey) (inputPoly v aad ct))
      ∧ ∀ aad ct aad' ct' : List UInt8, aad.length < 2 ^ 61 → ct.length < 2 ^ 61 →
        aad'.length < 2 ^ 61 → ct'.length < 2 ^ 61 → (aad, ct) ≠ (aad', ct') →
          inputPoly v aad ct ≠ inputPoly v aad' ct'
            ∧ EqualForAtMost v (max (blockCount v aad ct) (blockCount v aad' ct'))
              (fun hKey => tagInput b hKey aad ct) (fun hKey => tagInput b hKey aad' ct'))
    ∧ (∀ (cipher : ExpandedKey v) (message : List UInt8) (bits : UInt64),
        checkedBitLen message.length = some bits →
          KalynaGmac.Gmac.macWithBitLen b cipher message bits
            = cipher.encryptBlock b.profile (macInput b (hashKey b cipher) message))
      ∧ (∀ (hKey : Gf2mWide.Elem v.nb) (message : List UInt8),
        element (macInput b hKey message) = eval (ofKey hKey) (macPoly v message))
      ∧ ∀ message message' : List UInt8, message ≠ [] → message' ≠ [] →
        message.length < 2 ^ 61 → message'.length < 2 ^ 61 → message ≠ message' →
          macPoly v message ≠ macPoly v message'
            ∧ EqualForAtMost v
              (max (paddedBlocks v message).length (paddedBlocks v message').length)
              (fun hKey => macInput b hKey message) (fun hKey => macInput b hKey message') := by
  refine ⟨⟨?_, element_tagInput b, ?_⟩, ?_, ?_, ?_⟩
  · intro gcm aad ct aadBits ctBits haad hct
    exact computeTag_eq_encryptBlock b gcm haad hct
  · intro aad ct aad' ct' haad hct haad' hct' hne
    have hpoly : inputPoly v aad ct ≠ inputPoly v aad' ct' := fun heq =>
      hne (Prod.ext_iff.mpr (inputPoly_injective haad hct haad' hct' heq))
    exact ⟨hpoly, equalForAtMost_tagInput b hpoly⟩
  · intro cipher message bits h
    exact macWithBitLen_eq_encryptBlock b cipher h
  · intro hKey message
    rw [macInput_eq_tagInput, macPoly_eq_inputPoly, element_tagInput]
  · intro message message' _ _ h h' hne
    have hpoly : macPoly v message ≠ macPoly v message' := by
      rw [macPoly_eq_inputPoly, macPoly_eq_inputPoly]
      exact fun heq => hne (inputPoly_injective h (by decide) h' (by decide) heq).1
    have hcount (message : List UInt8) :
        blockCount v message [] = (paddedBlocks v message).length := by
      rw [blockCount, paddedBlocks_nil, List.length_nil, Nat.add_zero]
    refine ⟨hpoly, ?_⟩
    rw [macPoly_eq_inputPoly, macPoly_eq_inputPoly] at hpoly
    simp only [macInput_eq_tagInput, ← hcount]
    exact equalForAtMost_tagInput b hpoly

/-- A ciphertext of one byte and the same one with its padding written out: one list of
blocks, two polynomials. -/
theorem tag_input_unambiguous_padding :
    paddedBlocks .kalyna128_128 [0x01]
        = paddedBlocks .kalyna128_128 (0x01 :: 0x80 :: List.replicate 14 0)
      ∧ inputPoly .kalyna128_128 [] [0x01]
        ≠ inputPoly .kalyna128_128 [] (0x01 :: 0x80 :: List.replicate 14 0) := by
  constructor
  · have hpadded : joinChunks (paddedBlocks .kalyna128_128 [0x01])
        = 0x01 :: 0x80 :: List.replicate 14 0 := by
      rw [paddedBlocks, chunksExact_of_lt _ (by decide), remainder_of_lt (by decide)]
      decide
    rw [← hpadded, paddedBlocks_joinChunks]
  · exact ((tag_input_unambiguous ⟨.fused, false⟩ .kalyna128_128).1.2.2 [] [0x01] []
      (0x01 :: 0x80 :: List.replicate 14 0) (by decide) (by decide) (by decide) (by decide)
      (by decide)).1

end UaCrypt.Hazmat.KalynaGcm
