import UaCrypt.Lib.ByteStream

/-!
# A buffered block generator

The counter modes keep one block of keystream and how much of it is used. A call finishes
that block, then XORs whole blocks, then starts the last one; it makes the next block as
soon as one is used up. Only the first `len` of the buffer's `n` bytes are keystream.

- `apply next`: a call, `none` where an index runs past the buffer.
- `apply_streams`: from `used ≤ len` no call fails, and each takes what is left of the
  buffered block, then the blocks of `next`.
-/

namespace BufferedStream

open Keystream ByteStream

structure Buffered (σ : Type) (n : Nat) where
  counter : σ
  keystream : Vector UInt8 n
  used : Nat

variable {σ : Type} {n : Nat}

section Calls

variable (next : σ → σ × Vector UInt8 n) {len : Nat} (hlen : len ≤ n)

/-- The next block, nothing of it used. -/
def refresh (s : Buffered σ n) : Buffered σ n :=
  let (counter, keystream) := next s.counter
  { counter := counter, keystream := keystream, used := 0 }

/-- `while offset < len && data_off < buf.len()`. -/
def leading : Buffered σ n → List UInt8 → Buffered σ n × List UInt8 × List UInt8
  | s, [] => (s, [], [])
  | s, b :: rest =>
    if h : s.used < len then
      let (s', written, left) := leading { s with used := s.used + 1 } rest
      (s', (b ^^^ s.keystream.get ⟨s.used, Nat.lt_of_lt_of_le h hlen⟩) :: written, left)
    else (s, [], b :: rest)

/-- `if offset != 0`: finish the buffered block. -/
def resume (s : Buffered σ n) (buf : List UInt8) : Buffered σ n × List UInt8 × List UInt8 :=
  if s.used ≠ 0 then
    let (s, written, left) := leading hlen s buf
    if s.used = len then (refresh next s, written, left) else (s, written, left)
  else (s, [], buf)

/-- `while data_off + len <= buf.len()`: whole blocks. `offset` is not looked at. -/
def whole (hpos : 0 < len) (s : Buffered σ n) (rest : List UInt8) :
    Buffered σ n × List UInt8 × List UInt8 :=
  if len ≤ rest.length then
    let out := xorBytes (rest.take len) (s.keystream.toList.take len)
    let (s, written, left) := whole hpos { refresh next s with used := s.used } (rest.drop len)
    (s, out ++ written, left)
  else (s, [], rest)
termination_by rest.length
decreasing_by
  rw [List.length_drop]
  omega

/-- `while data_off < buf.len()`: the last, partial block. -/
def tail : Buffered σ n → List UInt8 → Option (Buffered σ n × List UInt8)
  | s, [] => some (s, [])
  | s, b :: rest =>
    if h : s.used < n then
      match tail { s with used := s.used + 1 } rest with
      | none => none
      | some (s', written) => some (s', (b ^^^ s.keystream.get ⟨s.used, h⟩) :: written)
    else none

def apply (hpos : 0 < len) (s : Buffered σ n) (buf : List UInt8) :
    Option (Buffered σ n × List UInt8) :=
  let (s, written₁, left) := resume next hlen s buf
  let (s, written₂, left) := whole next hpos s left
  match tail s left with
  | none => none
  | some (s, written₃) => some (s, written₁ ++ written₂ ++ written₃)

end Calls

/-! ## The stream of a state -/

section Stream

variable (next : σ → σ × Vector UInt8 n) {len : Nat} (hpos : 0 < len) (hlen : len ≤ n)

/-- The bytes of a block that are keystream. -/
def front (block : Vector UInt8 n) : Vector UInt8 len :=
  Vector.ofFn fun i => block.get ⟨i.val, Nat.lt_of_lt_of_le i.isLt hlen⟩

theorem toList_front (block : Vector UInt8 n) :
    (front hlen block).toList = block.toList.take len := by
  refine List.ext_getElem ?_ fun i h₁ h₂ => ?_
  · rw [Vector.length_toList, List.length_take, Vector.length_toList, Nat.min_eq_left hlen]
  · simp only [front, Vector.getElem_toList, Vector.getElem_ofFn, List.getElem_take]
    rfl

/-- The generator, its blocks cut to `len` bytes. -/
def nextFront (counter : σ) : σ × Vector UInt8 len :=
  ((next counter).1, front hlen (next counter).2)

/-- What is left of the buffered block, then the blocks to come. -/
def stream (s : Buffered σ n) : Nat → UInt8 :=
  prepend ((s.keystream.toList.take len).drop s.used)
    (generate (nextFront next hlen) hpos s.counter)

theorem stream_of_used {s : Buffered σ n} (h : s.used = len) :
    stream next hpos hlen s = generate (nextFront next hlen) hpos s.counter := by
  have hnil : (s.keystream.toList.take len).drop s.used = [] := by
    rw [h]
    exact List.drop_eq_nil_of_le (List.length_take_le _ _)
  rw [stream, hnil, prepend_nil]

/-- A fresh block is the front of the blocks to come. -/
theorem stream_refresh (s : Buffered σ n) :
    stream next hpos hlen (refresh next s)
      = generate (nextFront next hlen) hpos s.counter := by
  rw [generate_eq_prepend, nextFront, toList_front]
  rfl

theorem drop_keystream {s : Buffered σ n} (h : s.used < len) :
    (s.keystream.toList.take len).drop s.used
      = s.keystream.get ⟨s.used, Nat.lt_of_lt_of_le h hlen⟩
        :: (s.keystream.toList.take len).drop (s.used + 1) := by
  have hlt : s.used < (s.keystream.toList.take len).length := by
    rw [List.length_take, Vector.length_toList, Nat.min_eq_left hlen]
    exact h
  rw [List.drop_eq_getElem_cons hlt, List.getElem_take, Vector.getElem_toList]
  rfl

/-- One byte of the buffered block. -/
theorem consumes_byte {s : Buffered σ n} (h : s.used < len) (b : UInt8) (rest : List UInt8) :
    Consumes (stream next hpos hlen) s (b :: rest)
      ({ s with used := s.used + 1 },
        [b ^^^ s.keystream.get ⟨s.used, Nat.lt_of_lt_of_le h hlen⟩], rest) := by
  refine ⟨[b], rfl, ?_, ?_⟩
  · rw [xorWith_cons, stream, drop_keystream hlen h, prepend_cons_zero, xorWith_nil]
  · show stream next hpos hlen { s with used := s.used + 1 } = shift _ 1
    rw [stream, stream, drop_keystream hlen h, shift_prepend_cons]

/-- One whole block, from a buffer nothing of which is used. -/
theorem consumes_block {s : Buffered σ n} (h : s.used = 0) {chunk : List UInt8}
    (hchunk : chunk.length = len) (rest : List UInt8) :
    Consumes (stream next hpos hlen) s (chunk ++ rest)
      ({ refresh next s with used := s.used },
        xorBytes chunk (s.keystream.toList.take len), rest) := by
  have hblock : (s.keystream.toList.take len).length = len := by
    rw [List.length_take, Vector.length_toList, Nat.min_eq_left hlen]
  have hstream : stream next hpos hlen s
      = prepend (s.keystream.toList.take len) (generate (nextFront next hlen) hpos s.counter) := by
    rw [stream, h, List.drop_zero]
  have hrefresh : { refresh next s with used := s.used } = refresh next s := by
    rw [h]
    rfl
  refine ⟨chunk, rfl, ?_, ?_⟩
  · rw [hstream, xorWith_prepend _ (Nat.le_of_eq (hchunk.trans hblock.symm))]
  · show stream next hpos hlen { refresh next s with used := s.used } = _
    rw [hrefresh, stream_refresh, hstream, hchunk, shift_prepend _ (Nat.le_of_eq hblock.symm),
      List.drop_eq_nil_of_le (Nat.le_of_eq hblock), prepend_nil]

/-! ## The loops -/

theorem leading_consumes (s : Buffered σ n) (buf : List UInt8) :
    Consumes (stream next hpos hlen) s buf (leading hlen s buf) := by
  induction buf generalizing s with
  | nil => exact .nothing s []
  | cons b rest ih =>
    unfold leading
    split
    · rename_i h
      exact (consumes_byte next hpos hlen h b rest).trans (ih _)
    · exact .nothing s (b :: rest)

/-- The leading loop ends at the end of the block or of the data. -/
theorem leading_stops {s : Buffered σ n} (h : s.used ≤ len) (buf : List UInt8) :
    (leading hlen s buf).1.used = len
      ∨ (leading hlen s buf).1.used < len ∧ (leading hlen s buf).2.2 = [] := by
  induction buf generalizing s with
  | nil => exact (Nat.eq_or_lt_of_le h).imp_right fun hlt => ⟨hlt, rfl⟩
  | cons b rest ih =>
    unfold leading
    split
    · rename_i hlt
      exact ih hlt
    · rename_i hge
      exact .inl (Nat.le_antisymm h (Nat.le_of_not_lt hge))

/-- After `resume` the buffer is a fresh block, or the data is used up. -/
theorem resume_consumes {s : Buffered σ n} (h : s.used ≤ len) (buf : List UInt8) :
    Consumes (stream next hpos hlen) s buf (resume next hlen s buf)
      ∧ ((resume next hlen s buf).1.used = 0
          ∨ (resume next hlen s buf).1.used < len ∧ (resume next hlen s buf).2.2 = []) := by
  have hloop := leading_consumes next hpos hlen s buf
  have hstops := leading_stops hlen h buf
  unfold resume
  generalize leading hlen s buf = result at hloop hstops
  split
  · rcases hstops with hstop | ⟨hlt, hleft⟩
    · dsimp only
      rw [if_pos hstop]
      refine ⟨?_, .inl rfl⟩
      -- the block after a used-up one
      obtain ⟨used, hdata, hwritten, hstream⟩ := hloop
      refine ⟨used, hdata, hwritten, ?_⟩
      rw [stream_refresh, ← hstream, stream_of_used next hpos hlen hstop]
    · dsimp only
      rw [if_neg (Nat.ne_of_lt hlt)]
      exact ⟨hloop, .inr ⟨hlt, hleft⟩⟩
  · rename_i hzero
    exact ⟨.nothing s buf, .inl (Decidable.not_not.mp hzero)⟩

theorem whole_of_lt {s : Buffered σ n} {rest : List UInt8} (h : rest.length < len) :
    whole next hpos s rest = (s, [], rest) := by
  rw [whole, if_neg (Nat.not_le_of_lt h)]

/-- The block loop keeps the offset and leaves less than a block. -/
theorem whole_consumes {s : Buffered σ n} (h : s.used = 0) (rest : List UInt8) :
    Consumes (stream next hpos hlen) s rest (whole next hpos s rest)
      ∧ (whole next hpos s rest).1.used = 0 ∧ (whole next hpos s rest).2.2.length < len := by
  induction hm : rest.length using Nat.strongRecOn generalizing s rest with
  | ind m ih =>
    by_cases hle : len ≤ rest.length
    · have hchunk : (rest.take len).length = len := by
        rw [List.length_take, Nat.min_eq_left hle]
      have hblock := consumes_block next hpos hlen h hchunk (rest.drop len)
      rw [List.take_append_drop] at hblock
      obtain ⟨hrest, hused, hleft⟩ := ih (rest.drop len).length (by rw [List.length_drop]; omega)
        (show ({ refresh next s with used := s.used } : Buffered σ n).used = 0 from h) _ rfl
      rw [whole, if_pos hle]
      exact ⟨hblock.trans hrest, hused, hleft⟩
    · rw [whole_of_lt next hpos (Nat.lt_of_not_le hle)]
      exact ⟨.nothing s rest, h, Nat.lt_of_not_le hle⟩

/-- The last loop stays inside the block while the data does. -/
theorem tail_consumes {s : Buffered σ n} (rest : List UInt8) (h : s.used + rest.length ≤ len) :
    ∃ s' written, tail s rest = some (s', written)
      ∧ Consumes (stream next hpos hlen) s rest (s', written, [])
      ∧ s'.used = s.used + rest.length := by
  induction rest generalizing s with
  | nil => exact ⟨s, [], rfl, .nothing s [], rfl⟩
  | cons b rest ih =>
    rw [List.length_cons] at h
    have hlt : s.used < len := by omega
    obtain ⟨s', written, htail, hconsumes, hused⟩ :=
      ih (s := { s with used := s.used + 1 }) (show s.used + 1 + rest.length ≤ len by omega)
    refine ⟨s', _, ?_, (consumes_byte next hpos hlen hlt b rest).trans hconsumes, ?_⟩
    · rw [tail, dif_pos (Nat.lt_of_lt_of_le hlt hlen), htail]
      rfl
    · rw [hused, List.length_cons]
      show s.used + 1 + rest.length = _
      omega

/-- Every call takes the front of the state's stream. -/
theorem apply_streams :
    Streams (apply next hlen hpos) (stream next hpos hlen) fun s => s.used ≤ len := by
  intro s buf hs
  obtain ⟨hresume, hafter⟩ := resume_consumes next hpos hlen hs buf
  unfold apply
  generalize resume next hlen s buf = first at hresume hafter
  obtain ⟨s₁, written₁, left₁⟩ := first
  -- the two loops after it, from a fresh block or with no data left
  have hrest : ∃ s₃ written₃,
      tail (whole next hpos s₁ left₁).1 (whole next hpos s₁ left₁).2.2 = some (s₃, written₃)
        ∧ Consumes (stream next hpos hlen) s₁ left₁
            (s₃, (whole next hpos s₁ left₁).2.1 ++ written₃, [])
        ∧ s₃.used ≤ len := by
    rcases hafter with hzero | ⟨hlt, hnil⟩
    · obtain ⟨hwhole, hused, hleft⟩ :=
        whole_consumes next hpos hlen (show s₁.used = 0 from hzero) left₁
      obtain ⟨s₃, written₃, htail, hconsumes, hend⟩ :=
        tail_consumes next hpos hlen (s := (whole next hpos s₁ left₁).1)
          (whole next hpos s₁ left₁).2.2 (by omega)
      exact ⟨s₃, written₃, htail, hwhole.trans hconsumes, by omega⟩
    · obtain rfl : left₁ = [] := hnil
      rw [whole_of_lt next hpos (show ([] : List UInt8).length < len from hpos)]
      exact ⟨s₁, [], rfl, .nothing s₁ [], Nat.le_of_lt hlt⟩
  obtain ⟨s₃, written₃, htail, hconsumes, hused⟩ := hrest
  obtain ⟨hwritten, hstream⟩ := (hresume.trans hconsumes).all
  refine ⟨s₃, ?_, hused, hstream⟩
  simp only [htail, List.append_assoc]
  rw [← hwritten]

end Stream

end BufferedStream
