import UaCrypt.Lib.FinIndex

/-!
# Fixed-size chunks of a slice

- `chunksExact`, `remainder`: `slice.chunks_exact(n)` and its `remainder()`, the whole
  `n`-element chunks as arrays, and what is left after them.
- `joinChunks`: the other way; the two are inverse on a whole number of chunks.
- `overwrite`: `array[..data.len()].copy_from_slice(data)`.
- `overwriteAt`, `writeAt`: `buf[off..off + data.len()].copy_from_slice(data)`;
  `copyInto` checks the range.
- `sliceAt`, `chunkAt`: `buf[off..off + len]`, the range checked.
- `mapChunks`: `for chunk in buf.chunks_exact_mut(n)`, with a state that goes on;
  `mapChunks_mirror`: undone chunk by chunk.
-/

namespace Chunks

variable {α : Type}

/-- The first `n` elements as an array of that size. -/
def headChunk (n : Nat) (data : List α) (h : n ≤ data.length) : Vector α n :=
  ⟨(data.take n).toArray, by simp [h]⟩

/-- The whole chunks of `n` elements, in order. -/
def chunksExact (n : Nat) (hn : 0 < n) (data : List α) : List (Vector α n) :=
  if h : n ≤ data.length then headChunk n data h :: chunksExact n hn (data.drop n) else []
termination_by data.length
decreasing_by
  rw [List.length_drop]
  omega

/-- The elements after the last whole chunk. -/
def remainder (n : Nat) (data : List α) : List α := data.drop (n * (data.length / n))

theorem length_remainder (n : Nat) (data : List α) :
    (remainder n data).length = data.length % n := by
  have hdiv := Nat.div_add_mod data.length n
  rw [remainder, List.length_drop]
  omega

theorem length_remainder_lt {n : Nat} (hn : 0 < n) (data : List α) :
    (remainder n data).length < n := by
  rw [length_remainder]
  exact Nat.mod_lt _ hn

/-- Data by groups of `q`: a shorter piece, or a group and the rest. -/
theorem group_induction {q : Nat} {motive : List α → Prop} (hq : 0 < q)
    (short : ∀ data, data.length < q → motive data)
    (group : ∀ chunk rest, chunk.length = q → motive rest → motive (chunk ++ rest))
    (data : List α) : motive data := by
  induction hlen : data.length using Nat.strongRecOn generalizing data with
  | ind n ih =>
    by_cases h : q ≤ data.length
    · have hrest := ih (data.drop q).length (by rw [List.length_drop]; omega) _ rfl
      have hchunk : (data.take q).length = q := by
        rw [List.length_take, Nat.min_eq_left h]
      rw [← List.take_append_drop q data]
      exact group _ _ hchunk hrest
    · exact short data (Nat.lt_of_not_le h)

theorem chunksExact_of_lt {n : Nat} (hn : 0 < n) {data : List α} (h : data.length < n) :
    chunksExact n hn data = [] := by
  unfold chunksExact
  rw [dif_neg (Nat.not_le_of_lt h)]

/-- A first chunk of exactly `n` elements splits off. -/
theorem chunksExact_append_of_length {n : Nat} (hn : 0 < n) {head : List α} (rest : List α)
    (h : head.length = n) :
    chunksExact n hn (head ++ rest)
      = headChunk n head (Nat.le_of_eq h.symm) :: chunksExact n hn rest := by
  subst h
  rw [chunksExact, dif_pos (by simp), List.drop_left]
  congr 1
  simp [headChunk]

/-- Whole chunks split off. -/
theorem chunksExact_append_of_dvd {n : Nat} (hn : 0 < n) {front : List α} (rest : List α)
    (h : n ∣ front.length) :
    chunksExact n hn (front ++ rest) = chunksExact n hn front ++ chunksExact n hn rest := by
  obtain ⟨k, hk⟩ := h
  induction k generalizing front with
  | zero =>
    have hnil : front = [] := List.eq_nil_of_length_eq_zero (by omega)
    subst hnil
    rw [chunksExact_of_lt hn (show ([] : List α).length < n from hn), List.nil_append,
      List.nil_append]
  | succ k ih =>
    rw [Nat.mul_succ] at hk
    have hhead : (front.take n).length = n := by
      rw [List.length_take]
      omega
    have htail : (front.drop n).length = n * k := by
      rw [List.length_drop]
      omega
    have hsplit := List.take_append_drop n front
    calc chunksExact n hn (front ++ rest)
        = chunksExact n hn (front.take n ++ (front.drop n ++ rest)) := by
          rw [← List.append_assoc, hsplit]
      _ = headChunk n (front.take n) (Nat.le_of_eq hhead.symm)
            :: (chunksExact n hn (front.drop n) ++ chunksExact n hn rest) := by
          rw [chunksExact_append_of_length hn _ hhead, ih htail]
      _ = chunksExact n hn front ++ chunksExact n hn rest := by
          rw [← List.cons_append, ← chunksExact_append_of_length hn _ hhead, hsplit]

theorem remainder_of_lt {n : Nat} {data : List α} (h : data.length < n) :
    remainder n data = data := by
  rw [remainder, Nat.div_eq_of_lt h, Nat.mul_zero, List.drop_zero]

theorem remainder_append_of_dvd {n : Nat} (hn : 0 < n) {front : List α} (rest : List α)
    (h : n ∣ front.length) : remainder n (front ++ rest) = remainder n rest := by
  obtain ⟨k, hk⟩ := h
  rw [remainder, remainder, List.length_append, hk, Nat.mul_add_div hn, Nat.mul_add, ← hk,
    List.drop_length_add_append]

/-- The elements `chunksExact` covers. -/
def whole (n : Nat) (data : List α) : List α := data.take (n * (data.length / n))

theorem whole_append_remainder (n : Nat) (data : List α) :
    whole n data ++ remainder n data = data :=
  List.take_append_drop _ data

theorem dvd_length_whole (n : Nat) (data : List α) : n ∣ (whole n data).length := by
  refine ⟨data.length / n, ?_⟩
  rw [whole, List.length_take, Nat.min_eq_left (Nat.mul_div_le _ _)]

theorem chunksExact_whole {n : Nat} (hn : 0 < n) (data : List α) :
    chunksExact n hn (whole n data) = chunksExact n hn data := by
  have h := chunksExact_append_of_dvd hn (remainder n data) (dvd_length_whole n data)
  rw [whole_append_remainder, chunksExact_of_lt hn (length_remainder_lt hn data),
    List.append_nil] at h
  exact h.symm

/-- The chunks of a longer input: those already cut, then those of the remainder and
the new elements. -/
theorem chunksExact_append {n : Nat} (hn : 0 < n) (data more : List α) :
    chunksExact n hn (data ++ more)
      = chunksExact n hn data ++ chunksExact n hn (remainder n data ++ more) := by
  have h := chunksExact_append_of_dvd hn (remainder n data ++ more) (dvd_length_whole n data)
  rw [← List.append_assoc, whole_append_remainder, chunksExact_whole] at h
  exact h

theorem remainder_append {n : Nat} (hn : 0 < n) (data more : List α) :
    remainder n (data ++ more) = remainder n (remainder n data ++ more) := by
  have h := remainder_append_of_dvd hn (remainder n data ++ more) (dvd_length_whole n data)
  rw [← List.append_assoc, whole_append_remainder] at h
  exact h

/-- The elements of a list of chunks. -/
def joinChunks {n : Nat} (chunks : List (Vector α n)) : List α := chunks.flatMap Vector.toList

theorem joinChunks_append {n : Nat} (xs ys : List (Vector α n)) :
    joinChunks (xs ++ ys) = joinChunks xs ++ joinChunks ys :=
  List.flatMap_append

theorem length_joinChunks {n : Nat} (chunks : List (Vector α n)) :
    (joinChunks chunks).length = n * chunks.length := by
  induction chunks with
  | nil => rfl
  | cons chunk chunks ih =>
    rw [joinChunks, List.flatMap_cons, List.length_append, Vector.length_toList, ← joinChunks, ih,
      List.length_cons, Nat.mul_succ, Nat.add_comm]

/-- Cutting what was joined. -/
theorem chunksExact_joinChunks {n : Nat} (hn : 0 < n) (chunks : List (Vector α n)) :
    chunksExact n hn (joinChunks chunks) = chunks := by
  induction chunks with
  | nil => exact chunksExact_of_lt hn hn
  | cons chunk chunks ih =>
    have hhead : headChunk n chunk.toList (Nat.le_of_eq chunk.length_toList.symm) = chunk := by
      refine Vector.toList_inj.mp ?_
      show chunk.toList.take n = chunk.toList
      exact List.take_of_length_le (Nat.le_of_eq chunk.length_toList)
    rw [joinChunks, List.flatMap_cons, chunksExact_append_of_length hn _ chunk.length_toList, hhead,
      ← joinChunks, ih]

/-- Joining what was cut, when nothing is left over. -/
theorem joinChunks_chunksExact {n : Nat} (hn : 0 < n) {data : List α} (h : n ∣ data.length) :
    joinChunks (chunksExact n hn data) = data := by
  obtain ⟨k, hk⟩ := h
  induction k generalizing data with
  | zero =>
    obtain rfl : data = [] := List.eq_nil_of_length_eq_zero hk
    rw [chunksExact_of_lt hn (show ([] : List α).length < n from hn)]
    rfl
  | succ k ih =>
    rw [Nat.mul_succ] at hk
    have hle : n ≤ data.length := by omega
    have hdrop : (data.drop n).length = n * k := by
      rw [List.length_drop]
      omega
    rw [chunksExact, dif_pos hle, joinChunks, List.flatMap_cons, ← joinChunks, ih hdrop]
    exact List.take_append_drop n data

theorem length_chunksExact {n : Nat} (hn : 0 < n) (data : List α) :
    (chunksExact n hn data).length = data.length / n := by
  have hjoin := joinChunks_chunksExact hn (dvd_length_whole n data)
  have hlen := congrArg List.length hjoin
  rw [length_joinChunks, chunksExact_whole, whole, List.length_take,
    Nat.min_eq_left (Nat.mul_div_le _ _)] at hlen
  exact Nat.eq_of_mul_eq_mul_left hn hlen

/-- An array with `data` written over its front. -/
def overwrite {n : Nat} (array : Vector α n) (data : List α) : Vector α n :=
  Vector.ofFn fun i : Fin n => if h : i.val < data.length then data[i.val] else array[i]

theorem getElem_overwrite {n : Nat} (array : Vector α n) (data : List α) {i : Nat} (hi : i < n) :
    (overwrite array data)[i] = if h : i < data.length then data[i] else array[i] := by
  simp [overwrite]

theorem toList_overwrite {n : Nat} (array : Vector α n) {data : List α} (h : data.length ≤ n) :
    (overwrite array data).toList = data ++ array.toList.drop data.length := by
  apply List.ext_getElem
  · simp
    omega
  · intro i h₁ h₂
    by_cases hi : i < data.length
    · simp [overwrite, hi]
    · simp [overwrite, hi, List.getElem_append_right (Nat.le_of_not_lt hi),
        Nat.add_sub_cancel' (Nat.le_of_not_lt hi)]

/-- Writing over a whole array. -/
theorem toList_overwrite_of_length {n : Nat} (array : Vector α n) {data : List α}
    (h : data.length = n) : (overwrite array data).toList = data := by
  rw [toList_overwrite array (Nat.le_of_eq h), List.drop_of_length_le (by simp [h]),
    List.append_nil]

/-- An array with `data` written over it from `off` on. -/
def overwriteAt {n : Nat} (array : Vector α n) (off : Nat) (data : List α) : Vector α n :=
  Vector.ofFn fun i : Fin n =>
    if h : off ≤ i.val ∧ i.val - off < data.length then data[i.val - off] else array.get i

/-- A buffer with `data` written over it from `off` on. -/
def writeAt (buf : List α) (off : Nat) (data : List α) : List α :=
  buf.take off ++ data ++ buf.drop (off + data.length)

/-- Writing within an array. -/
theorem toList_overwriteAt {n : Nat} (array : Vector α n) {off : Nat} {data : List α}
    (h : off + data.length ≤ n) :
    (overwriteAt array off data).toList = writeAt array.toList off data := by
  rw [writeAt]
  apply List.ext_getElem
  · simp only [Vector.length_toList, List.length_append, List.length_take, List.length_drop]
    omega
  · intro i h₁ h₂
    have hoff : (array.toList.take off).length = off := by
      rw [List.length_take, Vector.length_toList]
      omega
    rw [Vector.length_toList] at h₁
    have hget : (overwriteAt array off data).toList[i]
        = if h : off ≤ i ∧ i - off < data.length then data[i - off] else array[i] := by
      rw [Vector.getElem_toList]
      exact Vector.getElem_ofFn ..
    rw [hget]
    obtain hlt | hle := Nat.lt_or_ge i off
    · rw [dif_neg (by omega), List.getElem_append_left (by rw [List.length_append]; omega),
        List.getElem_append_left (by omega), List.getElem_take, Vector.getElem_toList]
    obtain hin | hout := Nat.lt_or_ge (i - off) data.length
    · rw [dif_pos ⟨hle, hin⟩, List.getElem_append_left (by rw [List.length_append]; omega),
        List.getElem_append_right (by omega)]
      simp only [hoff]
    · rw [dif_neg (by omega), List.getElem_append_right (by rw [List.length_append]; omega),
        List.getElem_drop, Vector.getElem_toList]
      have hindex : off + data.length + (i - (array.toList.take off ++ data).length) = i := by
        rw [List.length_append, hoff]
        omega
      simp only [hindex]

/-- Writing into the part of a buffer that is still filled with `a`. -/
theorem writeAt_append_replicate (front : List α) (a : α) {g k : Nat} (hg : g ≤ k) (data : List α) :
    writeAt (front ++ List.replicate k a) (front.length + g) data
      = front ++ List.replicate g a ++ data ++ List.replicate (k - g - data.length) a := by
  have htake : (front ++ List.replicate k a).take (front.length + g)
      = front ++ List.replicate g a := by
    rw [List.take_length_add_append, List.take_replicate, Nat.min_eq_left hg]
  have hdrop : (front ++ List.replicate k a).drop (front.length + g + data.length)
      = List.replicate (k - g - data.length) a := by
    rw [Nat.add_assoc, List.drop_length_add_append, List.drop_replicate, Nat.sub_add_eq]
  rw [writeAt, htake, hdrop]

/-- `writeAt`, `none` where the range runs past the buffer. -/
def copyInto (buf : List α) (off : Nat) (data : List α) : Option (List α) :=
  if off + data.length ≤ buf.length then some (writeAt buf off data) else none

theorem copyInto_append_replicate (front : List α) (a : α) {g k : Nat} {data : List α}
    (h : g + data.length ≤ k) :
    copyInto (front ++ List.replicate k a) (front.length + g) data
      = some (front ++ List.replicate g a ++ data ++ List.replicate (k - g - data.length) a) := by
  have hfits : front.length + g + data.length ≤ (front ++ List.replicate k a).length := by
    rw [List.length_append, List.length_replicate]
    omega
  rw [copyInto, if_pos hfits, writeAt_append_replicate front a (by omega)]

/-- Without a gap. -/
theorem copyInto_end (front : List α) (a : α) {off k : Nat} {data : List α}
    (hoff : off = front.length) (h : data.length ≤ k) :
    copyInto (front ++ List.replicate k a) off data
      = some (front ++ data ++ List.replicate (k - data.length) a) := by
  have hcopy := copyInto_append_replicate front a (show 0 + data.length ≤ k by omega)
  rw [Nat.add_zero, ← hoff, List.replicate_zero, List.append_nil, Nat.sub_zero] at hcopy
  exact hcopy

/-- Writing over a part of the same length. -/
theorem copyInto_middle {front old data : List α} (rest : List α) {off : Nat}
    (hoff : off = front.length) (h : old.length = data.length) :
    copyInto (front ++ old ++ rest) off data = some (front ++ data ++ rest) := by
  have hfits : off + data.length ≤ (front ++ old ++ rest).length := by
    simp only [List.length_append]
    omega
  have hdrop : (front ++ old ++ rest).drop (front.length + data.length) = rest := by
    rw [← h, ← List.length_append, List.drop_left]
  rw [copyInto, if_pos hfits, hoff, writeAt, hdrop, List.append_assoc front old, List.take_left]

/-- `len` elements from `off` on, `none` where the range runs past the buffer. -/
def sliceAt (buf : List α) (off len : Nat) : Option (List α) :=
  if off + len ≤ buf.length then some ((buf.drop off).take len) else none

theorem sliceAt_middle (front part rest : List α) {off len : Nat} (hoff : off = front.length)
    (hlen : len = part.length) : sliceAt (front ++ part ++ rest) off len = some part := by
  rw [sliceAt, if_pos (by simp [hoff, hlen]), hoff, hlen, List.append_assoc, List.drop_left,
    List.take_left]

/-- The same as an array. -/
def chunkAt (n : Nat) (buf : List α) (off : Nat) : Option (Vector α n) :=
  if h : off + n ≤ buf.length then
    some (headChunk n (buf.drop off) (by rw [List.length_drop]; omega))
  else none

theorem chunkAt_middle {n : Nat} (front : List α) (chunk : Vector α n) (rest : List α) {off : Nat}
    (hoff : off = front.length) : chunkAt n (front ++ chunk.toList ++ rest) off = some chunk := by
  rw [chunkAt, dif_pos (by simp [hoff]), Option.some.injEq]
  refine Vector.toList_inj.mp ?_
  show ((front ++ chunk.toList ++ rest).drop off).take n = chunk.toList
  rw [hoff, List.append_assoc, List.drop_left, List.take_left' chunk.length_toList]

/-- Chunk `i` of a buffer that begins with chunks. -/
theorem chunkAt_joinChunks {n : Nat} (chunks : List (Vector α n)) (rest : List α) {i : Nat}
    (hi : i < chunks.length) : chunkAt n (joinChunks chunks ++ rest) (i * n) = some chunks[i] := by
  have hsplit : chunks = chunks.take i ++ chunks[i] :: chunks.drop (i + 1) := by
    rw [← List.drop_eq_getElem_cons hi, List.take_append_drop]
  have hjoin : joinChunks chunks ++ rest = joinChunks (chunks.take i) ++ chunks[i].toList
      ++ (joinChunks (chunks.drop (i + 1)) ++ rest) := by
    conv_lhs => rw [hsplit, joinChunks_append, joinChunks, joinChunks, List.flatMap_cons]
    simp only [List.append_assoc, joinChunks]
  rw [hjoin]
  refine chunkAt_middle _ _ _ ?_
  rw [length_joinChunks, List.length_take, Nat.min_eq_left (Nat.le_of_lt hi), Nat.mul_comm]

/-- A buffer as whole chunks and what is left over. -/
theorem exists_joinChunks {n : Nat} (hn : 0 < n) (data : List α) :
    ∃ chunks : List (Vector α n), ∃ rest, data = joinChunks chunks ++ rest ∧ rest.length < n
      ∧ chunks.length = data.length / n ∧ rest.length = data.length % n := by
  refine ⟨chunksExact n hn data, remainder n data, ?_, length_remainder_lt hn data,
    length_chunksExact hn data, length_remainder n data⟩
  rw [← chunksExact_whole hn, joinChunks_chunksExact hn (dvd_length_whole n data),
    whole_append_remainder]

/-! ## Chunks replaced in place -/

variable {σ : Type} {n : Nat}

/-- Each chunk is replaced by what `step` makes of it, in order. -/
def mapChunks (step : σ → Vector α n → σ × Vector α n) :
    σ → List (Vector α n) → σ × List (Vector α n)
  | s, [] => (s, [])
  | s, chunk :: chunks =>
    let (s, out) := step s chunk
    let (s, outs) := mapChunks step s chunks
    (s, out :: outs)

theorem length_mapChunks (step : σ → Vector α n → σ × Vector α n) (s : σ)
    (chunks : List (Vector α n)) : (mapChunks step s chunks).2.length = chunks.length := by
  induction chunks generalizing s with
  | nil => rfl
  | cons chunk chunks ih => rw [mapChunks, List.length_cons, List.length_cons, ih]

/-- The state goes on from one buffer to the next. -/
theorem mapChunks_append (step : σ → Vector α n → σ × Vector α n) (s : σ)
    (front rest : List (Vector α n)) :
    mapChunks step s (front ++ rest)
      = ((mapChunks step (mapChunks step s front).1 rest).1,
          (mapChunks step s front).2 ++ (mapChunks step (mapChunks step s front).1 rest).2) := by
  induction front generalizing s with
  | nil => rfl
  | cons chunk front ih => simp only [mapChunks, List.cons_append, ih]

/-- If one step is undone by another from the same state, the loops are. -/
theorem mapChunks_mirror {step back : σ → Vector α n → σ × Vector α n}
    (h : ∀ s chunk, back s (step s chunk).2 = ((step s chunk).1, chunk)) (s : σ)
    (chunks : List (Vector α n)) :
    mapChunks back s (mapChunks step s chunks).2 = ((mapChunks step s chunks).1, chunks) := by
  induction chunks generalizing s with
  | nil => rfl
  | cons chunk chunks ih => simp only [mapChunks, h, ih]

end Chunks
