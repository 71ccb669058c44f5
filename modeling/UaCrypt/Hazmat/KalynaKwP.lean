import UaCrypt.Hazmat.KalynaKw

/-!
# Kalyna key wrap with padding (`hazmat/kalyna_kw_p.rs`)

The message, its bit length in a half-block field, the byte `0x80` and zeros up to a
whole block, all wrapped by KW. Unwrapping finds the marker from the far end and checks
the whole layout without a branch on the recovered bytes: `unpad` runs over every byte
and collects one verdict. The source's `u64` arithmetic wraps, so the model's does.

- `wrappedLen`, `wrapWithCipher`, `unwrapWithCipher`, `wrap`, `unwrap`.
- `lastNonzero_marker`, `selectByte_eq`, `all_fieldByteOk_iff`: what the three scans of `unpad`
  find.
- `unpad_iff`: the verdict is true exactly on the layouts `layout v m` filled up with
  fewer zeros than a block.
-/

namespace UaCrypt.Hazmat.KalynaKwP

open LittleEndian Tables Kalyna Chunks KalynaKw

/-! ## The scans of `unpad` -/

/-- The index of the last nonzero byte, and whether there is one. -/
def lastNonzero (p : List UInt8) : UInt64 × Bool :=
  p.zipIdx.foldl (fun acc (b, i) =>
    let nonzero := b != 0
    (if nonzero then UInt64.ofNat i else acc.1, acc.2 || nonzero)) (0, false)

/-- Byte `idx` of `bytes`, picked by a scan over all of them; `0` past the end. -/
def selectByte (bytes : List UInt8) (idx : UInt64) : UInt8 :=
  bytes.zipIdx.foldl (fun acc (b, i) => if UInt64.ofNat i = idx then b else acc) 0

/-- The check of one byte against the length field: it passes outside
`len..marker_at`. -/
def fieldByteOk (len markerAt : UInt64) (byte : UInt8 × Nat) : Bool :=
  let i := UInt64.ofNat byte.2
  let inField := !decide (i < len) && decide (i < markerAt)
  let expected := selectByte (toLeBytes (len * 8)).toList (i - len)
  !inField || byte.1 == expected

/-- Checks the recovered blocks `p`; the verdict and the message length. -/
def unpad (p : List UInt8) (block half : Nat) : Bool × Nat :=
  let total := UInt64.ofNat p.length
  let block := UInt64.ofNat block
  let half := UInt64.ofNat half
  let (markerAt, found) := lastNonzero p
  let marker := selectByte p markerAt
  let len := markerAt - half
  let ok := found && marker == 0x80
  -- `L > l`
  let ok := ok && decide (markerAt > half + block)
  -- `L` is no multiple of `l`, a power of two
  let ok := ok && !((len &&& (block - 1)) == 0)
  -- the marker is in the last block
  let ok := ok && decide (markerAt > total - block - 1)
  let ok := p.zipIdx.foldl (fun ok byte => ok && fieldByteOk len markerAt byte) ok
  (ok, len.toNat)

/-! ## Wrapping and unwrapping -/

/-- `a.div_ceil(b)`. -/
def divCeil (a b : Nat) : Nat := (a + b - 1) / b

/-- The wrapped length of a message, if KW-p takes it. -/
def wrappedLen (v : Variant) (plaintextLen : Nat) : Option Nat :=
  if plaintextLen ≤ v.blockBytes ∨ plaintextLen % v.blockBytes = 0 then none
  else
    let padded := divCeil (plaintextLen + halfBytes v + 1) v.blockBytes * v.blockBytes
    if padded / v.blockBytes > maxR then none else some (padded + v.blockBytes)

section Modes

variable (p : Profile) {v : Variant} (cipher : ExpandedKey v)

def wrapWithCipher (plaintext out : List UInt8) : Except KwError Unit × List UInt8 :=
  if wrappedLen v plaintext.length ≠ some out.length then (.error .invalidLength, out)
  else
    let paddedLen := out.length - v.blockBytes
    let padded := List.replicate (maxR * v.blockBytes) 0
    let padded := writeAt padded 0 plaintext
    let bits := UInt64.ofNat plaintext.length * 8
    let padded := writeAt padded plaintext.length (toLeBytes bits).toList
    let padded := writeAt padded (plaintext.length + halfBytes v) [0x80]
    KalynaKw.wrapWithCipher p cipher (padded.take paddedLen) out

/-- The lengths `unwrap` refuses. -/
def UnwrapRefuses (v : Variant) (ciphertext out : List UInt8) : Prop :=
  ciphertext.length < 3 * v.blockBytes ∨ ciphertext.length % v.blockBytes ≠ 0
    ∨ ciphertext.length / v.blockBytes - 1 > maxR ∨ out.length ≠ ciphertext.length - v.blockBytes

instance (ciphertext out : List UInt8) : Decidable (UnwrapRefuses v ciphertext out) :=
  inferInstanceAs (Decidable (_ ∨ _ ∨ _ ∨ _))

/-- The message length on success; `out` holds the message and zeros, or zeros alone. -/
def unwrapWithCipher (ciphertext out : List UInt8) : Except KwError Nat × List UInt8 :=
  if UnwrapRefuses v ciphertext out then (.error .invalidLength, out)
  else
    let padded := List.replicate out.length 0
    match KalynaKw.unwrapWithCipher p cipher ciphertext padded with
    | (.error e, _) => (.error e, List.replicate out.length 0)
    | (.ok (), padded) =>
      let (ok, len) := unpad padded v.blockBytes (halfBytes v)
      let out := padded.mapIdx fun i b => if decide (i < len) && ok then b else 0
      if ok then (.ok len, out) else (.error .checksumMismatch, out)

def wrap (v : Variant) (key : Vector UInt8 v.keyBytes) (plaintext out : List UInt8) :
    Except KwError Unit × List UInt8 :=
  wrapWithCipher p (ExpandedKey.new p v key) plaintext out

def unwrap (v : Variant) (key : Vector UInt8 v.keyBytes) (ciphertext out : List UInt8) :
    Except KwError Nat × List UInt8 :=
  unwrapWithCipher p (ExpandedKey.new p v key) ciphertext out

end Modes

/-! ## What the scans find -/

/-- A scan sees a byte appended to the string last. -/
theorem foldl_zipIdx_concat {β : Type} (f : β → UInt8 × Nat → β) (init : β) (p : List UInt8)
    (b : UInt8) :
    (p ++ [b]).zipIdx.foldl f init = f (p.zipIdx.foldl f init) (b, p.length) := by
  rw [List.zipIdx_append, List.foldl_append, List.zipIdx_singleton, Nat.zero_add]
  rfl

theorem lastNonzero_concat (p : List UInt8) (b : UInt8) :
    lastNonzero (p ++ [b])
      = (if b != 0 then UInt64.ofNat p.length else (lastNonzero p).1,
          (lastNonzero p).2 || b != 0) :=
  foldl_zipIdx_concat _ _ p b

theorem lastNonzero_concat_zero (p : List UInt8) : lastNonzero (p ++ [0]) = lastNonzero p := by
  rw [lastNonzero_concat]
  simp

/-- A nonzero byte with only zeros after it. -/
theorem lastNonzero_marker (front : List UInt8) {b : UInt8} (hb : b ≠ 0) (z : Nat) :
    lastNonzero (front ++ b :: List.replicate z 0) = (UInt64.ofNat front.length, true) := by
  induction z with
  | zero =>
    rw [List.replicate_zero, lastNonzero_concat]
    simp [hb]
  | succ z ih =>
    rw [List.replicate_succ', ← List.cons_append, ← List.append_assoc, lastNonzero_concat_zero, ih]

/-- The scan for the marker: no nonzero byte, or the last one and zeros after it. -/
theorem lastNonzero_cases (p : List UInt8) :
    (lastNonzero p).2 = false
      ∨ ∃ front b z, b ≠ 0 ∧ p = front ++ b :: List.replicate z 0 := by
  induction p using List.reverseRecOn with
  | nil => exact .inl rfl
  | append_singleton p b ih =>
    by_cases hb : b = 0
    · subst hb
      rw [lastNonzero_concat_zero]
      rcases ih with hnone | ⟨front, b, z, hb, rfl⟩
      · exact .inl hnone
      · right
        refine ⟨front, b, z + 1, hb, ?_⟩
        rw [List.append_assoc, List.cons_append, List.replicate_succ']
    · exact .inr ⟨p, b, 0, hb, rfl⟩

theorem selectByte_eq {bytes : List UInt8} (hlen : bytes.length < 2 ^ 64) (idx : UInt64) :
    selectByte bytes idx = bytes.getD idx.toNat 0 := by
  induction bytes using List.reverseRecOn with
  | nil => rfl
  | append_singleton bytes b ih =>
    rw [List.length_append, List.length_singleton] at hlen
    have ih := ih (by omega)
    have hstep : selectByte (bytes ++ [b]) idx
        = if UInt64.ofNat bytes.length = idx then b else selectByte bytes idx :=
      foldl_zipIdx_concat _ _ bytes b
    rw [hstep, List.getD_eq_getElem?_getD]
    split
    · rename_i heq
      rw [← heq, UInt64.toNat_ofNat_of_lt' (Nat.lt_of_succ_lt hlen), List.getElem?_concat_length]
      rfl
    · rename_i hne
      have hne' : idx.toNat ≠ bytes.length := by
        intro h
        apply hne
        rw [← h, UInt64.ofNat_toNat]
      rw [ih, List.getD_eq_getElem?_getD, List.getElem?_append]
      split
      · rfl
      · rw [List.getElem?_eq_none (by omega), List.getElem?_eq_none (by simp; omega)]

theorem foldl_and_eq_all {β : Type} (f : β → Bool) (l : List β) (ok : Bool) :
    l.foldl (fun ok x => ok && f x) ok = (ok && l.all f) := by
  induction l generalizing ok with
  | nil => simp
  | cons x l ih => rw [List.foldl_cons, ih, List.all_cons, Bool.and_assoc]

/-- The length field of a message of `len` bytes. -/
def lengthField (v : Variant) (len : Nat) : List UInt8 :=
  (toLeBytes (UInt64.ofNat len * 8)).toList ++ List.replicate (halfBytes v - 8) 0

theorem eight_le_halfBytes (v : Variant) : 8 ≤ halfBytes v := by
  cases v <;> decide

theorem length_lengthField (v : Variant) (len : Nat) :
    (lengthField v len).length = halfBytes v := by
  have h := eight_le_halfBytes v
  rw [lengthField, List.length_append, Vector.length_toList, List.length_replicate]
  omega

/-- The bytes the scan expects, zero past the eighth. -/
theorem getElem_lengthField (v : Variant) (len : Nat) {k : Nat}
    (hk : k < (lengthField v len).length) :
    (lengthField v len)[k] = (toLeBytes (UInt64.ofNat len * 8)).toList.getD k 0 := by
  rw [List.getD_eq_getElem?_getD]
  by_cases h : k < 8
  · rw [List.getElem?_eq_getElem (by simpa using h)]
    simp only [lengthField, Option.getD_some]
    rw [List.getElem_append_left]
  · rw [List.getElem?_eq_none (by simpa using h)]
    simp only [lengthField, Option.getD_none]
    rw [List.getElem_append_right (by simpa using h), List.getElem_replicate]

variable {v : Variant}

/-- Comparisons of lengths are not affected by their being `u64`s. -/
theorem ofNat_lt_ofNat {a c : Nat} (ha : a < 2 ^ 32) (hc : c < 2 ^ 32) :
    UInt64.ofNat a < UInt64.ofNat c ↔ a < c := by
  rw [UInt64.lt_iff_toNat_lt, UInt64.toNat_ofNat', UInt64.toNat_ofNat', Nat.mod_eq_of_lt (by omega),
    Nat.mod_eq_of_lt (by omega)]

/-- One byte passes when it is outside the field or as expected. -/
theorem fieldByteOk_iff {len markerAt i : Nat} (hlen : len < 2 ^ 32) (hmarker : markerAt < 2 ^ 32)
    (hi : i < 2 ^ 32) (b : UInt8) :
    fieldByteOk (UInt64.ofNat len) (UInt64.ofNat markerAt) (b, i) = true
      ↔ (len ≤ i → i < markerAt →
          b = (toLeBytes (UInt64.ofNat len * 8)).toList.getD (i - len) 0) := by
  have hselect (hle : len ≤ i) :
      selectByte (toLeBytes (UInt64.ofNat len * 8)).toList (UInt64.ofNat i - UInt64.ofNat len)
        = (toLeBytes (UInt64.ofNat len * 8)).toList.getD (i - len) 0 := by
    rw [selectByte_eq (by simp), ← UInt64.ofNat_sub hle, UInt64.toNat_ofNat',
      Nat.mod_eq_of_lt (by omega)]
  simp only [fieldByteOk, Bool.or_eq_true, Bool.not_eq_true', Bool.and_eq_false_iff,
    decide_eq_false_iff_not, Bool.not_eq_false', decide_eq_true_eq,
    ofNat_lt_ofNat hi hlen, ofNat_lt_ofNat hi hmarker, beq_iff_eq]
  constructor
  · rintro ((h | h) | h) hle hlt
    · omega
    · exact absurd hlt h
    · rw [h, hselect hle]
  · intro h
    by_cases hle : len ≤ i
    · by_cases hm : i < markerAt
      · right
        rw [hselect hle]
        exact h hle hm
      · exact .inl (.inr hm)
    · exact .inl (.inl (by omega))

/-- The scan of the field compares the bytes before the marker with `lengthField`. -/
theorem all_fieldByteOk_iff {front : List UInt8} {rest : List UInt8} {len : Nat}
    (hfront : front.length = len + halfBytes v) (hlen : (front ++ rest).length < 2 ^ 32) :
    (front ++ rest).zipIdx.all
        (fieldByteOk (UInt64.ofNat len) (UInt64.ofNat front.length)) = true
      ↔ front.drop len = lengthField v len := by
  rw [List.length_append] at hlen
  have hbyte (i : Nat) (hi : i < front.length + rest.length) (b : UInt8) :
      fieldByteOk (UInt64.ofNat len) (UInt64.ofNat front.length) (b, i) = true
        ↔ (len ≤ i → i < front.length →
            b = (toLeBytes (UInt64.ofNat len * 8)).toList.getD (i - len) 0) :=
    fieldByteOk_iff (by omega) (by omega) (by omega) b
  rw [List.all_eq_true]
  constructor
  · intro h
    refine List.ext_getElem ?_ fun k h₁ h₂ => ?_
    · rw [List.length_drop, length_lengthField]
      omega
    · rw [List.length_drop] at h₁
      have hin : len + k < front.length := by omega
      have hmem : (front[len + k], len + k) ∈ (front ++ rest).zipIdx := by
        rw [List.mk_mem_zipIdx_iff_getElem?, List.getElem?_append_left hin,
          List.getElem?_eq_getElem hin]
      have hk := (hbyte (len + k) (by omega) _).mp (h _ hmem) (Nat.le_add_right _ _) hin
      rw [Nat.add_sub_cancel_left] at hk
      rw [List.getElem_drop, hk, getElem_lengthField]
  · rintro h ⟨b, i⟩ hmem
    rw [List.mk_mem_zipIdx_iff_getElem?] at hmem
    obtain ⟨hi, hget⟩ := List.getElem?_eq_some_iff.mp hmem
    rw [List.length_append] at hi
    refine (hbyte i hi b).mpr fun hle hlt => ?_
    rw [List.getElem_append_left hlt] at hget
    have hk : i - len < (front.drop len).length := by
      rw [List.length_drop]
      omega
    have hk' : i - len < (lengthField v len).length := by
      rw [length_lengthField]
      omega
    have hdrop : (front.drop len)[i - len] = b := by
      rw [List.getElem_drop]
      simpa only [Nat.add_sub_cancel' hle] using hget
    rw [← hdrop, ← getElem_lengthField v len hk']
    simp only [h]

theorem and_blockBytes_sub_one (v : Variant) (len : UInt64) :
    (len &&& (UInt64.ofNat v.blockBytes - 1)).toNat = len.toNat % v.blockBytes := by
  rw [UInt64.toNat_and]
  cases v
  · exact Nat.and_two_pow_sub_one_eq_mod len.toNat 4
  · exact Nat.and_two_pow_sub_one_eq_mod len.toNat 4
  · exact Nat.and_two_pow_sub_one_eq_mod len.toNat 5
  · exact Nat.and_two_pow_sub_one_eq_mod len.toNat 5
  · exact Nat.and_two_pow_sub_one_eq_mod len.toNat 6

/-- The verdict of `unpad` when the last nonzero byte of `p` is `b`, after `front`. -/
theorem unpad_of_marker {front : List UInt8} {b : UInt8} {z : Nat}
    (hb : b ≠ 0) (hlen : (front ++ b :: List.replicate z 0).length < 2 ^ 32)
    (hblock : v.blockBytes < (front ++ b :: List.replicate z 0).length) :
    ((unpad (front ++ b :: List.replicate z 0) v.blockBytes (halfBytes v)).1 = true
        ↔ b = 0x80 ∧ halfBytes v + v.blockBytes < front.length
          ∧ (front.length - halfBytes v) % v.blockBytes ≠ 0 ∧ z < v.blockBytes
          ∧ front.drop (front.length - halfBytes v) = lengthField v (front.length - halfBytes v))
      ∧ (halfBytes v ≤ front.length →
          (unpad (front ++ b :: List.replicate z 0) v.blockBytes (halfBytes v)).2
            = front.length - halfBytes v) := by
  have htotal : (front ++ b :: List.replicate z 0).length = front.length + 1 + z := by
    rw [List.length_append, List.length_cons, List.length_replicate]
    omega
  have hlast := lastNonzero_marker front hb z
  have hmarker : selectByte (front ++ b :: List.replicate z 0) (UInt64.ofNat front.length) = b := by
    rw [selectByte_eq (by omega), UInt64.toNat_ofNat', Nat.mod_eq_of_lt (by omega),
      List.getD_eq_getElem?_getD, List.getElem?_append_right (Nat.le_refl _), Nat.sub_self]
    rfl
  -- the three bounds the source computes in `u64`
  have hpast : UInt64.ofNat (halfBytes v) + UInt64.ofNat v.blockBytes < UInt64.ofNat front.length
      ↔ halfBytes v + v.blockBytes < front.length := by
    rw [← UInt64.ofNat_add]
    exact ofNat_lt_ofNat (by cases v <;> decide) (by omega)
  have hlastBlock : UInt64.ofNat (front ++ b :: List.replicate z 0).length
        - UInt64.ofNat v.blockBytes - 1 < UInt64.ofNat front.length ↔ z < v.blockBytes := by
    rw [← UInt64.ofNat_sub (Nat.le_of_lt hblock), show (1 : UInt64) = UInt64.ofNat 1 from rfl,
      ← UInt64.ofNat_sub (by omega), ofNat_lt_ofNat (by omega) (by omega)]
    omega
  have hsub (hle : halfBytes v ≤ front.length) :
      UInt64.ofNat front.length - UInt64.ofNat (halfBytes v)
        = UInt64.ofNat (front.length - halfBytes v) := (UInt64.ofNat_sub hle).symm
  constructor
  · unfold unpad
    simp only [hlast, hmarker, foldl_and_eq_all, Bool.and_eq_true, decide_eq_true_eq,
      Bool.true_and, beq_iff_eq, Bool.not_eq_true', gt_iff_lt, hpast, hlastBlock]
    by_cases hlong : halfBytes v + v.blockBytes < front.length
    · have hrem :
          ((UInt64.ofNat (front.length - halfBytes v) &&& (UInt64.ofNat v.blockBytes - 1)) == 0)
            = false ↔ (front.length - halfBytes v) % v.blockBytes ≠ 0 := by
        rw [beq_eq_false_iff_ne, ne_eq, ← UInt64.toNat_inj, and_blockBytes_sub_one,
          UInt64.toNat_ofNat', Nat.mod_eq_of_lt (show front.length - halfBytes v < 2 ^ 64 by omega)]
        rfl
      have hfield : (front ++ b :: List.replicate z 0).zipIdx.all
            (fieldByteOk (UInt64.ofNat (front.length - halfBytes v))
              (UInt64.ofNat front.length)) = true
          ↔ front.drop (front.length - halfBytes v)
              = lengthField v (front.length - halfBytes v) :=
        all_fieldByteOk_iff (by omega) hlen
      rw [hsub (by omega), hrem, hfield]
      simp only [and_assoc]
    · simp only [hlong, and_false, false_and]
  · intro hle
    unfold unpad
    simp only [hlast, hsub hle]
    rw [UInt64.toNat_ofNat', Nat.mod_eq_of_lt (by omega)]

/-! ## Layouts -/

/-- A message with its length field and marker. -/
def layout (v : Variant) (m : List UInt8) : List UInt8 := m ++ lengthField v m.length ++ [0x80]

/-- The messages KW-p takes, apart from the upper limit. -/
def Encodable (v : Variant) (len : Nat) : Prop := v.blockBytes < len ∧ len % v.blockBytes ≠ 0

theorem length_layout (m : List UInt8) : (layout v m).length = m.length + halfBytes v + 1 := by
  rw [layout, List.length_append, List.length_append, length_lengthField, List.length_singleton]

/-- `unpad` accepts a layout and returns the message length. -/
theorem unpad_layout {m : List UInt8} {z : Nat} (hm : Encodable v m.length) (hz : z < v.blockBytes)
    (hlen : (layout v m ++ List.replicate z 0).length < 2 ^ 32) :
    unpad (layout v m ++ List.replicate z 0) v.blockBytes (halfBytes v) = (true, m.length) := by
  have hsplit : layout v m ++ List.replicate z 0
      = (m ++ lengthField v m.length) ++ 0x80 :: List.replicate z 0 := by
    rw [layout, List.append_assoc]
    rfl
  have hfront : (m ++ lengthField v m.length).length = m.length + halfBytes v := by
    rw [List.length_append, length_lengthField]
  have hsub : (m ++ lengthField v m.length).length - halfBytes v = m.length := by omega
  have hblock : v.blockBytes < (layout v m ++ List.replicate z 0).length := by
    rw [List.length_append, length_layout]
    have := hm.1
    omega
  rw [hsplit] at hlen hblock ⊢
  obtain ⟨hok, hlength⟩ := unpad_of_marker (show (0x80 : UInt8) ≠ 0 by decide) hlen hblock
  rw [hsub] at hok hlength
  refine Prod.ext (hok.mpr ⟨rfl, ?_, hm.2, hz, List.drop_left⟩) (hlength ?_)
  · have := hm.1
    omega
  · omega

/-- What `unpad` accepts is a layout. -/
theorem layout_of_unpad {p : List UInt8} (hlen : p.length < 2 ^ 32)
    (hblock : v.blockBytes < p.length)
    (hok : (unpad p v.blockBytes (halfBytes v)).1 = true) :
    ∃ m z, Encodable v m.length ∧ z < v.blockBytes ∧ p = layout v m ++ List.replicate z 0 := by
  rcases lastNonzero_cases p with hnone | ⟨front, b, z, hb, rfl⟩
  · unfold unpad at hok
    simp [hnone, foldl_and_eq_all] at hok
  · obtain ⟨rfl, hlong, hrem, hz, hfield⟩ := (unpad_of_marker hb hlen hblock).1.mp hok
    have hm : (front.take (front.length - halfBytes v)).length = front.length - halfBytes v := by
      rw [List.length_take]
      omega
    refine ⟨front.take (front.length - halfBytes v), z, ⟨by omega, by rwa [hm]⟩, hz, ?_⟩
    rw [layout, hm, ← hfield, List.take_append_drop, List.append_assoc]
    rfl

/-- The zeros that fill a layout up, and the number of blocks it then takes. -/
theorem wrappedLen_eq_some_iff {len n : Nat} :
    wrappedLen v len = some n
      ↔ Encodable v len ∧ ∃ z r, z < v.blockBytes ∧ r ≤ maxR
        ∧ len + halfBytes v + 1 + z = v.blockBytes * r ∧ n = v.blockBytes * (r + 1) := by
  have hpos := blockBytes_pos v
  have hdiv := Nat.div_add_mod (len + halfBytes v + 1 + v.blockBytes - 1) v.blockBytes
  have hmod := Nat.mod_lt (len + halfBytes v + 1 + v.blockBytes - 1) hpos
  unfold wrappedLen divCeil Encodable
  generalize (len + halfBytes v + 1 + v.blockBytes - 1) / v.blockBytes = q at hdiv
  simp only [Nat.mul_div_cancel _ hpos]
  constructor
  · intro h
    split at h
    · cases h
    · rename_i henc
      split at h
      · cases h
      · rename_i hr
        cases h
        refine ⟨by omega, v.blockBytes * q - (len + halfBytes v + 1), q, by omega, by omega,
          by omega, ?_⟩
        rw [Nat.mul_succ, Nat.mul_comm]
  · rintro ⟨henc, z, r, hz, hr, hsum, rfl⟩
    obtain rfl : q = r := by
      rcases Nat.lt_trichotomy q r with hlt | heq | hgt
      · have hle : v.blockBytes * (q + 1) ≤ v.blockBytes * r := Nat.mul_le_mul_left _ hlt
        rw [Nat.mul_succ] at hle
        omega
      · exact heq
      · have hle : v.blockBytes * (r + 1) ≤ v.blockBytes * q := Nat.mul_le_mul_left _ hgt
        rw [Nat.mul_succ] at hle
        omega
    rw [if_neg (by omega), if_neg (by omega), Nat.mul_succ, Nat.mul_comm]

/-- The three writes into the zeroed buffer. -/
theorem writes_eq_layout (v : Variant) (m : List UInt8) {size : Nat}
    (hsize : m.length + halfBytes v + 1 ≤ size) :
    writeAt (writeAt (writeAt (List.replicate size 0) 0 m) m.length
        (toLeBytes (UInt64.ofNat m.length * 8)).toList) (m.length + halfBytes v) [0x80]
      = layout v m ++ List.replicate (size - (m.length + halfBytes v + 1)) 0 := by
  have height := eight_le_halfBytes v
  have hmessage : writeAt (List.replicate size 0) 0 m
      = m ++ List.replicate (size - m.length) 0 :=
    writeAt_append_replicate [] 0 (Nat.zero_le size) m
  have hbits := writeAt_append_replicate m (0 : UInt8) (Nat.zero_le (size - m.length))
    (toLeBytes (UInt64.ofNat m.length * 8)).toList
  have hmarker := writeAt_append_replicate (m ++ (toLeBytes (UInt64.ofNat m.length * 8)).toList)
    (0 : UInt8) (show halfBytes v - 8 ≤ size - m.length - 8 by omega) [0x80]
  rw [Nat.add_zero, List.replicate_zero, List.append_nil, Nat.sub_zero, Vector.length_toList]
    at hbits
  rw [List.length_append, Vector.length_toList, show m.length + 8 + (halfBytes v - 8)
    = m.length + halfBytes v by omega, List.length_singleton, show size - m.length - 8
    - (halfBytes v - 8) - 1 = size - (m.length + halfBytes v + 1) by omega] at hmarker
  rw [hmessage, hbits, hmarker, layout, lengthField]
  simp only [List.append_assoc]

/-- The buffer `wrap` passes on is the layout, filled up with zeros. -/
theorem wrapWithCipher_eq (p : Profile) (cipher : ExpandedKey v) {plaintext out : List UInt8}
    {z r : Nat} (henc : Encodable v plaintext.length) (hz : z < v.blockBytes) (hr : r ≤ maxR)
    (hsum : (layout v plaintext ++ List.replicate z 0).length = v.blockBytes * r)
    (hout : out.length = v.blockBytes * (r + 1)) :
    wrapWithCipher p cipher plaintext out
      = KalynaKw.wrapWithCipher p cipher (layout v plaintext ++ List.replicate z 0) out := by
  have hlen := hsum
  rw [List.length_append, length_layout, List.length_replicate] at hlen
  have hwrapped : wrappedLen v plaintext.length = some out.length :=
    wrappedLen_eq_some_iff.mpr ⟨henc, z, r, hz, hr, hlen, hout⟩
  have hmax : v.blockBytes * r ≤ maxR * v.blockBytes := by
    rw [Nat.mul_comm]
    exact Nat.mul_le_mul_right _ hr
  have hpadded : out.length - v.blockBytes = (layout v plaintext).length + z := by
    rw [hout, Nat.mul_succ, Nat.add_sub_cancel, ← hsum, List.length_append, List.length_replicate]
  rw [wrapWithCipher, if_neg (not_not_intro hwrapped)]
  simp only [writes_eq_layout v plaintext (show _ ≤ maxR * v.blockBytes by omega), hpadded]
  rw [List.take_length_add_append, List.take_replicate, Nat.min_eq_left (by omega)]

/-- The release loop keeps the message and zeroes what follows. -/
theorem mapIdx_keep (m rest : List UInt8) :
    (m ++ rest).mapIdx (fun i b => if decide (i < m.length) && true then b else 0)
      = m ++ List.replicate rest.length 0 := by
  refine List.ext_getElem (by simp) fun i h₁ h₂ => ?_
  rw [List.getElem_mapIdx]
  by_cases hi : i < m.length
  · simp [hi]
  · simp [hi, List.getElem_append_right (Nat.le_of_not_lt hi)]

/-! ## One encoding per message -/

theorem not_unwrapRefuses_iff {ciphertext out : List UInt8} :
    ¬UnwrapRefuses v ciphertext out
      ↔ WholeBlocks v 3 (maxR + 1) ciphertext.length
        ∧ out.length + v.blockBytes = ciphertext.length := by
  rw [wholeBlocks_iff]
  simp only [UnwrapRefuses, not_or, not_not, Nat.not_lt]
  constructor
  · rintro ⟨hthree, hmod, hle, hout⟩
    exact ⟨⟨hthree, hmod, by omega⟩, by omega⟩
  · rintro ⟨⟨hthree, hmod, hle⟩, hout⟩
    exact ⟨hthree, hmod, by omega, by omega⟩

section Correct

variable {p : Profile} {cipher : ExpandedKey v}

/-- What `unwrap` returns once KW has recovered a layout. -/
theorem unwrapWithCipher_of_layout {ciphertext out m : List UInt8} {z : Nat}
    (hvalid : ¬UnwrapRefuses v ciphertext out) (hm : Encodable v m.length) (hz : z < v.blockBytes)
    (hlen : (layout v m ++ List.replicate z 0).length = out.length) (hshort : out.length < 2 ^ 32)
    (hkw : KalynaKw.unwrapWithCipher p cipher ciphertext (List.replicate out.length 0)
      = (.ok (), layout v m ++ List.replicate z 0)) :
    unwrapWithCipher p cipher ciphertext out
      = (.ok m.length, m ++ List.replicate (out.length - m.length) 0) := by
  have hunpad := unpad_layout hm hz (by rw [hlen]; exact hshort)
  have hsplit : layout v m ++ List.replicate z 0
      = m ++ (lengthField v m.length ++ ([0x80] ++ List.replicate z 0)) := by
    simp only [layout, List.append_assoc]
  have hrest : (lengthField v m.length ++ ([0x80] ++ List.replicate z 0)).length
      = out.length - m.length := by
    rw [hsplit, List.length_append] at hlen
    omega
  unfold unwrapWithCipher
  simp only [if_neg hvalid, hkw, hunpad]
  rw [if_pos trivial, hsplit, mapIdx_keep, hrest]

/-- A rejected string leaves zeros. -/
theorem unwrapWithCipher_of_not_ok {ciphertext out padded : List UInt8}
    (hvalid : ¬UnwrapRefuses v ciphertext out) (hlen : padded.length = out.length)
    (hkw : KalynaKw.unwrapWithCipher p cipher ciphertext (List.replicate out.length 0)
      = (.ok (), padded))
    (hok : (unpad padded v.blockBytes (halfBytes v)).1 = false) :
    unwrapWithCipher p cipher ciphertext out
      = (.error .checksumMismatch, List.replicate out.length 0) := by
  have hzeros : padded.mapIdx (fun i b =>
      if decide (i < (unpad padded v.blockBytes (halfBytes v)).2) && false then b else 0)
        = List.replicate out.length 0 := by
    refine List.ext_getElem (by simp [hlen]) fun i h₁ h₂ => ?_
    simp
  unfold unwrapWithCipher
  simp only [if_neg hvalid, hkw, hok, hzeros]
  rfl

section Inverse

variable (hdec : ∀ block, cipher.decryptBlock p (cipher.encryptBlock p block) = block)
  (henc : ∀ block, cipher.encryptBlock p (cipher.decryptBlock p block) = block)

include hdec in
/-- Every message KW-p takes is wrapped, and unwraps to itself. -/
theorem unwrapWithCipher_wrapWithCipher {m out : List UInt8}
    (hlen : wrappedLen v m.length = some out.length) :
    ∃ ciphertext, wrapWithCipher p cipher m out = (.ok (), ciphertext)
      ∧ ciphertext.length = out.length
      ∧ ∀ buf, buf.length + v.blockBytes = out.length →
          unwrapWithCipher p cipher ciphertext buf
            = (.ok m.length, m ++ List.replicate (buf.length - m.length) 0) := by
  obtain ⟨hm, z, r, hz, hr, hsum, hout⟩ := wrappedLen_eq_some_iff.mp hlen
  have hblocks : (layout v m ++ List.replicate z 0).length = v.blockBytes * r := by
    rw [List.length_append, length_layout, List.length_replicate, hsum]
  -- the layout takes at least two blocks
  have htwo : 2 ≤ r := by
    have hlong := hm.1
    rcases Nat.lt_or_ge r 2 with hlt | hge
    · have hle : v.blockBytes * r ≤ v.blockBytes * 1 := Nat.mul_le_mul_left _ (by omega)
      omega
    · exact hge
  have hsmall : v.blockBytes * r < 2 ^ 32 := by
    have hblock : v.blockBytes ≤ 64 := by cases v <;> decide
    have hle := Nat.mul_le_mul hblock (show r ≤ 20 from hr)
    omega
  have hwhole : WholeBlocks v 1 maxR (layout v m ++ List.replicate z 0).length :=
    ⟨r, by omega, hr, hblocks⟩
  obtain ⟨c, hwrap, hclen, hunwrap⟩ := KalynaKw.unwrapWithCipher_wrapWithCipher hdec hwhole
    (show out.length = _ by rw [hout, hblocks, Nat.mul_succ])
  rw [hblocks, ← Nat.mul_succ, ← hout] at hclen
  refine ⟨c, ?_, hclen, fun buf hbuf => ?_⟩
  · rw [wrapWithCipher_eq p cipher hm hz hr hblocks hout, hwrap]
  · have hbuflen : buf.length = v.blockBytes * r := by
      rw [hout, Nat.mul_succ] at hbuf
      omega
    have hvalid : ¬UnwrapRefuses v c buf := not_unwrapRefuses_iff.mpr
      ⟨⟨r + 1, by omega, by omega, hclen.trans hout⟩, by rw [hbuf, hclen]⟩
    refine unwrapWithCipher_of_layout hvalid hm hz (hblocks.trans hbuflen.symm)
      (by rw [hbuflen]; exact hsmall) (hunwrap _ ?_)
    rw [List.length_replicate, hbuflen, hblocks]

include hdec henc in
/-- On admissible lengths `unwrap` finds the one message that wraps to the ciphertext, or
there is none and it fails with a zeroed buffer. -/
theorem unwrapWithCipher_cases {ciphertext out buf : List UInt8}
    (hvalid : ¬UnwrapRefuses v ciphertext out) (hbuf : buf.length = ciphertext.length) :
    (∃ m, wrappedLen v m.length = some ciphertext.length
        ∧ wrapWithCipher p cipher m buf = (.ok (), ciphertext)
        ∧ unwrapWithCipher p cipher ciphertext out
            = (.ok m.length, m ++ List.replicate (out.length - m.length) 0))
      ∨ unwrapWithCipher p cipher ciphertext out
          = (.error .checksumMismatch, List.replicate out.length 0) := by
  obtain ⟨⟨r', hlo, hhi, hlen⟩, hout⟩ := not_unwrapRefuses_iff.mp hvalid
  obtain ⟨r, rfl⟩ : ∃ r, r' = r + 1 := ⟨r' - 1, by omega⟩
  have houtlen : out.length = v.blockBytes * r := by
    rw [hlen, Nat.mul_succ] at hout
    omega
  have hsmall : out.length < 2 ^ 32 := by
    have hblock : v.blockBytes ≤ 64 := by cases v <;> decide
    have hle := Nat.mul_le_mul hblock (show r ≤ 20 from Nat.le_of_succ_le_succ hhi)
    omega
  obtain ⟨hiff, hnone⟩ := KalynaKw.unwrapWithCipher_eq_ok_iff hdec henc
    (show WholeBlocks v 2 (maxR + 1) ciphertext.length from ⟨r + 1, by omega, hhi, hlen⟩)
    (show (List.replicate out.length 0).length + _ = _ by rw [List.length_replicate, hout]) hbuf
  by_cases hkw : ∃ padded, KalynaKw.wrapWithCipher p cipher padded buf = (.ok (), ciphertext)
  · obtain ⟨padded, hpadded⟩ := hkw
    have hunwrap := (hiff padded).mpr hpadded
    have hpaddedLen : padded.length = out.length := by
      have hbuflen := (KalynaKw.not_wrapRefuses_iff.mp
        (KalynaKw.not_wrapRefuses_of_ok hpadded)).2
      omega
    cases hok : (unpad padded v.blockBytes (halfBytes v)).1 with
    | false => exact .inr (unwrapWithCipher_of_not_ok hvalid hpaddedLen hunwrap hok)
    | true =>
      have hblock : v.blockBytes < padded.length := by
        have htwo : v.blockBytes * 2 ≤ v.blockBytes * r := Nat.mul_le_mul_left _ (by omega)
        have hpos := blockBytes_pos v
        omega
      obtain ⟨m, z, hm, hz, rfl⟩ := layout_of_unpad (by omega) hblock hok
      have hsum := hpaddedLen.trans houtlen
      refine .inl ⟨m, ?_, ?_, ?_⟩
      · rw [List.length_append, length_layout, List.length_replicate] at hsum
        exact wrappedLen_eq_some_iff.mpr ⟨hm, z, r, hz, by omega, hsum, hlen⟩
      · rw [wrapWithCipher_eq p cipher hm hz (by omega) hsum (hbuf.trans hlen), hpadded]
      · exact unwrapWithCipher_of_layout hvalid hm hz hpaddedLen hsmall hunwrap
  · right
    have hfail := hnone fun padded hpadded => hkw ⟨padded, hpadded⟩
    unfold unwrapWithCipher
    simp only [if_neg hvalid, hfail]

end Inverse

end Correct

/-- **One encoding per message.** Every message of an admissible length wraps, and
unwraps to itself with zeros after it. A ciphertext of admissible length unwraps to a
message exactly when it is the wrapping of that message; everything else (a bad
checksum, a wrong marker, padding that is not minimal, a wrong length field, a length
`wrap` would refuse) is one error over a zeroed buffer. -/
theorem kwp_one_encoding (p : Profile) (v : Variant) (key : Vector UInt8 v.keyBytes) :
    (∀ m n out buf, wrappedLen v m.length = some n → out.length = n →
        buf.length + v.blockBytes = n →
        ∃ ciphertext, wrap p v key m out = (.ok (), ciphertext) ∧ ciphertext.length = n
          ∧ unwrap p v key ciphertext buf
              = (.ok m.length, m ++ List.replicate (buf.length - m.length) 0))
    ∧ (∀ ciphertext out buf, WholeBlocks v 3 21 ciphertext.length →
        out.length + v.blockBytes = ciphertext.length → buf.length = ciphertext.length →
        (∀ len out', unwrap p v key ciphertext out = (.ok len, out')
            ↔ ∃ m, m.length = len ∧ out' = m ++ List.replicate (out.length - len) 0
              ∧ wrappedLen v len = some ciphertext.length
              ∧ wrap p v key m buf = (.ok (), ciphertext))
          ∧ ((∀ len out', unwrap p v key ciphertext out ≠ (.ok len, out')) →
              unwrap p v key ciphertext out
                = (.error .checksumMismatch, List.replicate out.length 0))) := by
  have hdec := decryptBlock_encryptBlock p v key
  have henc := encryptBlock_decryptBlock p v key
  refine ⟨?_, ?_⟩
  · intro m n out buf hlen hout hbuf
    subst hout
    obtain ⟨c, hwrap, hclen, hunwrap⟩ := unwrapWithCipher_wrapWithCipher hdec hlen
    exact ⟨c, hwrap, hclen, hunwrap buf hbuf⟩
  · intro ciphertext out buf hwhole hout hbuf
    have hvalid : ¬UnwrapRefuses v ciphertext out := not_unwrapRefuses_iff.mpr ⟨hwhole, hout⟩
    have hcases := unwrapWithCipher_cases hdec henc hvalid hbuf
    constructor
    · intro len out'
      constructor
      · intro hok
        rcases hcases with ⟨m, hlen, hwrap, hunwrap⟩ | herr
        · obtain ⟨hlength, rfl⟩ := Prod.mk.inj (hunwrap.symm.trans hok)
          cases hlength
          exact ⟨m, rfl, rfl, hlen, hwrap⟩
        · cases herr.symm.trans hok
      · rintro ⟨m, rfl, rfl, hlen, hwrap⟩
        rw [← hbuf] at hlen
        obtain ⟨c, hc, -, hunwrap⟩ := unwrapWithCipher_wrapWithCipher hdec hlen
        obtain rfl : c = ciphertext := (Prod.mk.inj (hc.symm.trans hwrap)).2
        exact hunwrap out (by rw [hout, hbuf])
    · intro hnone
      rcases hcases with ⟨m, -, -, hunwrap⟩ | herr
      · exact absurd hunwrap (hnone _ _)
      · exact herr

end UaCrypt.Hazmat.KalynaKwP
