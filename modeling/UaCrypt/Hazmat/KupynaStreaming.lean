import UaCrypt.Hazmat.Kupyna

/-!
# Kupyna hashes the padded message (`hazmat/kupyna.rs`)

What the streaming core computes, whatever the chunking: after the bytes `m` it is in
the state `absorbed p w m`, which is `m` cut into blocks and folded into the initial
value, with the uncut tail in the buffer (`update_absorbed` is the step, `foldl_update_new`
the run). Padding that tail with the true length gives the blocks of `pad m`, so
`finalize` is the output transformation of the fold over the padded message
(`finalize_absorbed`).

- `pad`: `X || 0x80 || 0^z || le96(8|X|)`, with the least `z` that fills the last block
  (`isLeast_padZeros`); it is injective (`pad_injective`).
-/

namespace UaCrypt.Hazmat.Kupyna

open LittleEndian Tables ColumnState Chunks

/-! ## Padding -/

/-- The number of zero bytes in the padding of `len` bytes. -/
def padZeros (blockBytes len : Nat) : Nat := (blockBytes - (len + 1 + 12) % blockBytes) % blockBytes

/-- `PAD(X)`. -/
def pad (blockBytes : Nat) (x : List UInt8) : List UInt8 :=
  x ++ [0x80] ++ List.replicate (padZeros blockBytes x.length) 0
    ++ (leBytes 12 (8 * x.length)).toList

theorem padZeros_lt {blockBytes : Nat} (hpos : 0 < blockBytes) (len : Nat) :
    padZeros blockBytes len < blockBytes :=
  Nat.mod_lt _ hpos

theorem length_pad (blockBytes : Nat) (x : List UInt8) :
    (pad blockBytes x).length = x.length + 1 + padZeros blockBytes x.length + 12 := by
  simp [pad]
  omega

/-- The padded length is a whole number of blocks, and no shorter run of zeros does it. -/
theorem isLeast_padZeros {blockBytes : Nat} (hpos : 0 < blockBytes) (len : Nat) :
    IsLeast {z | blockBytes ∣ len + 1 + z + 12} (padZeros blockBytes len) := by
  have hmod := Nat.mod_lt (len + 1 + 12) hpos
  have hdiv := Nat.div_add_mod (len + 1 + 12) blockBytes
  constructor
  · show blockBytes ∣ len + 1 + padZeros blockBytes len + 12
    unfold padZeros
    by_cases hzero : (len + 1 + 12) % blockBytes = 0
    · rw [hzero, Nat.sub_zero, Nat.mod_self]
      exact Nat.dvd_of_mod_eq_zero hzero
    · rw [Nat.mod_eq_of_lt (show blockBytes - (len + 1 + 12) % blockBytes < blockBytes by omega)]
      refine ⟨(len + 1 + 12) / blockBytes + 1, ?_⟩
      rw [Nat.mul_succ]
      omega
  · intro z hz
    obtain ⟨k, hk⟩ : blockBytes ∣ len + 1 + z + 12 := hz
    unfold padZeros
    by_cases hzero : (len + 1 + 12) % blockBytes = 0
    · rw [hzero, Nat.sub_zero, Nat.mod_self]
      exact Nat.zero_le z
    · rw [Nat.mod_eq_of_lt (show blockBytes - (len + 1 + 12) % blockBytes < blockBytes by omega)]
      -- the quotient of the padded length is past that of the unpadded one
      have hlt : (len + 1 + 12) / blockBytes < k := by
        refine Nat.lt_of_mul_lt_mul_left (a := blockBytes) ?_
        omega
      have hle : blockBytes * ((len + 1 + 12) / blockBytes + 1) ≤ blockBytes * k :=
        Nat.mul_le_mul_left _ hlt
      rw [Nat.mul_succ] at hle
      omega

theorem dvd_length_pad {blockBytes : Nat} (hpos : 0 < blockBytes) (x : List UInt8) :
    blockBytes ∣ (pad blockBytes x).length := by
  rw [length_pad]
  exact (isLeast_padZeros hpos x.length).1

/-- The padding of the uncut tail with the true length completes the padded message. -/
theorem kupynaPadding_remainder (blockBytes : Nat) (x : List UInt8) :
    kupynaPadding (remainder blockBytes x) (8 * x.length) blockBytes
      = remainder blockBytes x ++ (pad blockBytes x).drop x.length := by
  have hzeros : (blockBytes - ((remainder blockBytes x).length + 1 + 12) % blockBytes) % blockBytes
      = padZeros blockBytes x.length := by
    rw [padZeros, length_remainder, Nat.add_assoc, Nat.add_assoc, Nat.mod_add_mod]
  unfold kupynaPadding pad
  simp only [hzeros, List.append_assoc, List.drop_left]

theorem append_drop_pad (blockBytes : Nat) (x : List UInt8) :
    x ++ (pad blockBytes x).drop x.length = pad blockBytes x := by
  simp only [pad, List.append_assoc, List.drop_left]

/-- The length field settles where the data ends, so two strings with one padding are
equal, of whatever lengths. -/
theorem pad_injective {blockBytes : Nat} (hpos : 0 < blockBytes) (hle : blockBytes ≤ 128) :
    Function.Injective (pad blockBytes) := by
  intro x y h
  have hx := padZeros_lt hpos x.length
  have hy := padZeros_lt hpos y.length
  have hlen := congrArg List.length h
  rw [length_pad, length_pad] at hlen
  -- the last twelve bytes
  have hfield : leBytes 12 (8 * x.length) = leBytes 12 (8 * y.length) := by
    unfold pad at h
    have hsuffix := (List.append_inj' h (by simp)).2
    exact Vector.toList_inj.mp hsuffix
  have hmod : 8 * x.length % 256 ^ 12 = 8 * y.length % 256 ^ 12 := by
    rw [← leNat_leBytes, ← leNat_leBytes, hfield]
  have hxy : x.length = y.length := by omega
  simp only [pad, List.append_assoc] at h
  exact (List.append_inj h hxy).1

/-! ## The core after any calls -/

namespace KupynaCore

/-- Two states with the same compressed value, tail and count are the same. -/
theorem ext_of {w : Width} {a b : KupynaCore w} (hh : a.h = b.h) (hbuffer : a.buffer = b.buffer)
    (htotal : a.totalLen = b.totalLen) : a = b := by
  cases a
  cases b
  cases hh
  cases hbuffer
  cases htotal
  rfl

variable (p : Profile) (w : Width)

/-- The core after the bytes `m`. -/
def absorbed (m : List UInt8) : KupynaCore w :=
  updateBlocks p (new w).h (UInt64.ofNat m.length) m

theorem chunksExact_nil : chunksExact w.blockBytes w.blockBytes_pos ([] : List UInt8) = [] :=
  chunksExact_of_lt w.blockBytes_pos w.blockBytes_pos

theorem absorbed_nil : absorbed p w [] = new w := by
  refine ext_of ?_ ?_ rfl
  · show List.foldl _ (new w).h _ = (new w).h
    rw [chunksExact_nil, List.foldl_nil]
  · show List.drop _ [] = []
    rw [List.drop_nil]

theorem totalLen_absorbed (m data : List UInt8) :
    UInt64.ofNat m.length + UInt64.ofNat data.length = UInt64.ofNat (m ++ data).length := by
  rw [List.length_append, UInt64.ofNat_add]

variable {w}

/-- Cutting into the buffer first and into blocks after it is cutting the whole: the
part of `update` from the emptied buffer on, when the tail and the new bytes are
`front ++ rest` with `front` already compressed. -/
theorem updateBlocks_absorbed (m data front rest : List UInt8)
    (hsplit : remainder w.blockBytes m ++ data = front ++ rest)
    (hfront : w.blockBytes ∣ front.length) :
    updateBlocks p
        ((chunksExact w.blockBytes w.blockBytes_pos front).foldl (compressBlock p)
          (absorbed p w m).h)
        (UInt64.ofNat (m ++ data).length) rest
      = absorbed p w (m ++ data) := by
  refine ext_of ?_ ?_ rfl
  · show List.foldl _ (List.foldl _ (List.foldl _ (new w).h _) _) _ = List.foldl _ (new w).h _
    rw [chunksExact_append, hsplit, chunksExact_append_of_dvd w.blockBytes_pos rest hfront,
      List.foldl_append, List.foldl_append]
  · show remainder _ rest = remainder _ (m ++ data)
    rw [remainder_append w.blockBytes_pos, hsplit,
      remainder_append_of_dvd w.blockBytes_pos rest hfront]

/-- One call: no byte is dropped, repeated or moved. -/
theorem update_absorbed (m data : List UInt8) :
    (absorbed p w m).update p data = absorbed p w (m ++ data) := by
  have htotal : (absorbed p w m).totalLen + UInt64.ofNat data.length
      = UInt64.ofNat (m ++ data).length := totalLen_absorbed m data
  have hlt := (absorbed p w m).buffer_lt
  unfold update
  simp only [htotal]
  split
  · rename_i hempty
    have hnil : remainder w.blockBytes m = [] := List.eq_nil_of_length_eq_zero hempty
    have h := updateBlocks_absorbed p m data [] data (by rw [hnil]) (Nat.dvd_zero _)
    rwa [chunksExact_nil] at h
  · have hbuffer : (absorbed p w m).buffer = remainder w.blockBytes m := rfl
    simp only [hbuffer] at hlt ⊢
    obtain ⟨take, htake⟩ :
        ∃ take, take = min (w.blockBytes - (remainder w.blockBytes m).length) data.length :=
      ⟨_, rfl⟩
    simp only [← htake]
    split
    · -- the call fits into the buffer
      rename_i hfits
      have hall : data.take take = data := by
        rw [List.length_append, List.length_take] at hfits
        exact List.take_of_length_le (by omega)
      rw [hall] at hfits
      simp only [hall]
      refine ext_of ?_ ?_ rfl
      · show List.foldl _ (new w).h _ = List.foldl _ (new w).h _
        rw [chunksExact_append, chunksExact_of_lt w.blockBytes_pos hfits, List.append_nil]
      · show remainder _ m ++ data = remainder _ (m ++ data)
        rw [remainder_append w.blockBytes_pos, remainder_of_lt hfits]
    · -- the buffer is full: it is one block
      rename_i hfull
      have hlength : (remainder w.blockBytes m ++ data.take take).length = w.blockBytes := by
        rw [List.length_append, List.length_take] at hfull ⊢
        omega
      have h := updateBlocks_absorbed p m data (remainder w.blockBytes m ++ data.take take)
        (data.drop take) (by rw [List.append_assoc, List.take_append_drop])
        (by rw [hlength])
      rwa [← List.append_nil (_ ++ data.take take),
        chunksExact_append_of_length w.blockBytes_pos [] hlength, chunksExact_nil] at h

/-- A run of calls. -/
theorem foldl_update_new (pieces : List (List UInt8)) :
    pieces.foldl (update p) (new w) = absorbed p w pieces.flatten := by
  -- generalised to a core that has already taken `m`
  have hrun : ∀ m,
      pieces.foldl (update p) (absorbed p w m) = absorbed p w (m ++ pieces.flatten) := by
    induction pieces with
    | nil =>
      intro m
      rw [List.foldl_nil, List.flatten_nil, List.append_nil]
    | cons piece pieces ih =>
      intro m
      rw [List.foldl_cons, update_absorbed, ih, List.flatten_cons, List.append_assoc]
  have h := hrun []
  rwa [absorbed_nil, List.nil_append] at h

/-- The fold of the compression function over the blocks of `m`. -/
def compressAll (w : Width) (m : List UInt8) : State w.columns :=
  (chunksExact w.blockBytes w.blockBytes_pos m).foldl (compressBlock p) (new w).h

/-- What `finalize` computes while the byte count fits its `u64`. -/
theorem finalize_absorbed {m : List UInt8} (hlen : m.length < 2 ^ 64) (outputBytes : Nat)
    (hle : outputBytes ≤ w.blockBytes) :
    (absorbed p w m).finalize p outputBytes hle
      = output p (compressAll p w (pad w.blockBytes m)) outputBytes hle := by
  have hbits : (absorbed p w m).totalLen.toNat * 8 = 8 * m.length := by
    show (UInt64.ofNat m.length).toNat * 8 = _
    rw [UInt64.toNat_ofNat_of_lt' hlen, Nat.mul_comm]
  have htail : kupynaPadding (absorbed p w m).buffer (8 * m.length) w.blockBytes
      = remainder w.blockBytes m ++ (pad w.blockBytes m).drop m.length :=
    kupynaPadding_remainder w.blockBytes m
  have hall : compressAll p w (pad w.blockBytes m)
      = (chunksExact w.blockBytes w.blockBytes_pos
          (remainder w.blockBytes m ++ (pad w.blockBytes m).drop m.length)).foldl
          (compressBlock p) (absorbed p w m).h := by
    show _ = List.foldl _ (List.foldl _ (new w).h _) _
    rw [← List.foldl_append, ← chunksExact_append, append_drop_pad]
    rfl
  rw [hall]
  unfold finalize
  simp only [hbits, htail]

end KupynaCore

/-! ## Digests -/

open KupynaCore

/-- A digest is `new`, one `update` of the whole message, `finalize`. -/
theorem digestGeneric_eq (p : Profile) (w : Width) (message : List UInt8) (outputBytes : Nat)
    (hle : outputBytes ≤ w.blockBytes) :
    digestGeneric p w message outputBytes hle
      = (absorbed p w message).finalize p outputBytes hle := by
  have h := foldl_update_new p (w := w) [message]
  rw [List.foldl_cons, List.foldl_nil, List.flatten_singleton] at h
  rw [digestGeneric, h]

theorem Size.digest_eq (p : Profile) (s : Size) (message : List UInt8) :
    s.digest p message = digestGeneric p s.width message s.outputBytes s.outputBytes_le := by
  cases s <;> rfl

theorem Hasher.core_foldl_update (p : Profile) {s : Size} (pieces : List (List UInt8))
    (hasher : Hasher s) :
    (pieces.foldl (Hasher.update p) hasher).core
      = pieces.foldl (KupynaCore.update p) hasher.core := by
  induction pieces generalizing hasher with
  | nil => rfl
  | cons piece pieces ih => exact ih (hasher.update p piece)

/-- Streaming in any pieces is the one-shot digest of their concatenation, and both are
the output transformation of the compression fold over the padded message; the buffered
tail is shorter than a block after every call. -/
theorem streaming_eq_digest_eq_compressAll (p : Profile) (s : Size) (pieces : List (List UInt8))
    (hlen : pieces.flatten.length < 2 ^ 61) :
    (pieces.foldl (Hasher.update p) (Hasher.new s)).finalize p = s.digest p pieces.flatten
      ∧ s.digest p pieces.flatten
          = output p (compressAll p s.width (pad s.width.blockBytes pieces.flatten)) s.outputBytes
              s.outputBytes_le
      ∧ s.width.blockBytes ∣ (pad s.width.blockBytes pieces.flatten).length
      ∧ IsLeast {z | s.width.blockBytes ∣ pieces.flatten.length + 1 + z + 12}
          (padZeros s.width.blockBytes pieces.flatten.length)
      ∧ ∀ calls, calls <+: pieces →
          (calls.foldl (Hasher.update p) (Hasher.new s)).core.buffer.length
            < s.width.blockBytes := by
  have hpos := s.width.blockBytes_pos
  have hdigest : s.digest p pieces.flatten
      = (absorbed p s.width pieces.flatten).finalize p s.outputBytes s.outputBytes_le := by
    rw [Size.digest_eq, digestGeneric_eq]
  refine ⟨?_, ?_, dvd_length_pad hpos _, isLeast_padZeros hpos _, fun calls _ => ?_⟩
  · rw [hdigest, Hasher.finalize, Hasher.core_foldl_update]
    show (pieces.foldl (KupynaCore.update p) (new s.width)).finalize p _ _ = _
    rw [foldl_update_new]
  · rw [hdigest, finalize_absorbed p (by omega)]
  · exact (calls.foldl (Hasher.update p) (Hasher.new s)).core.buffer_lt

/-- Three calls, one of them empty. -/
theorem streaming_three_calls :
    [[0x61], [], [0x62, 0x63]].flatten.length < 2 ^ 61
      ∧ ([[0x61], [], [0x62, 0x63]].foldl (Hasher.update .fused)
          (Hasher.new .kupyna384)).finalize .fused
          = Kupyna384.digest .fused [0x61, 0x62, 0x63] :=
  ⟨by decide, (streaming_eq_digest_eq_compressAll .fused .kupyna384 [[0x61], [], [0x62, 0x63]]
    (by decide)).1⟩

end UaCrypt.Hazmat.Kupyna
