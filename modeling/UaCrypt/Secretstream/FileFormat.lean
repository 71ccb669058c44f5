import UaCrypt.Secretstream.File

/-!
# The accepted stream files

`IsFile key header chunks file` is the format: the prefix, then the records a
`FileEncryptor` started from `key` and `header` emits for `chunks`, full chunks
first and one `Final` chunk last.

- `openAll_eq_ok_iff_isFile`: `openAll` accepts exactly these files and returns the
  chunks' plaintext; everything below is read off it.
- `openAll_sealAll`: so it undoes `sealAll`, at every length.
- `openAll_accepts_format`: and an accepted file has no byte that header, tags and
  plaintext leave open.
- `openAll_prefix_free`: an accepted file cut or extended is not accepted, and why.
-/

namespace UaCrypt.Secretstream

open LittleEndian Hazmat Hazmat.ColumnState Chunks Framing Runs FileDecryptor

/-! ## The reader's steps -/

section

variable {b : Build}

theorem feed_eq_ok_of_accepts {dec dec' : FileDecryptor} (chunk : Vector UInt8 chunkBytes)
    {input released : List UInt8} (hinv : dec.Inv) (h : Accepts b dec input released dec') :
    ∃ chunk', (fileReader b).feed ⟨dec, chunk⟩ input = .ok (released, ⟨dec', chunk'⟩) := by
  have hout : chunkBytes ≤ chunk.toList.length := by simp
  have hfeed := feed_of_accepts hinv h hout
  refine ⟨overwrite chunk (released ++ chunk.toList.drop released.length), ?_⟩
  simp only [fileReader, hfeed, List.take_left]

theorem accepts_of_feed_eq_ok {s s' : Opening} {input out : List UInt8} (hinv : s.dec.Inv)
    (h : (fileReader b).feed s input = .ok (out, s')) : Accepts b s.dec input out s'.dec := by
  rcases feed_cases b hinv input s.chunk.toList with ⟨-, hfeed⟩ | ⟨-, hfeed⟩ |
    ⟨released, dec', haccepts, hfeed⟩ | ⟨e, out', -, -, -, hfeed⟩
  · simp only [fileReader, hfeed] at h
    cases h
  · simp only [fileReader, hfeed] at h
    cases h
  · simp only [fileReader, hfeed, List.take_left] at h
    cases h
    exact haccepts
  · simp only [fileReader, hfeed] at h
    cases h

/-- Only after the `Final` record may the input end. -/
theorem finish_eq_truncated {s : Opening}
    (hstate : s.dec.state ≠ .afterFinal ∧ s.dec.state ≠ .done) :
    (fileReader b).finish s = .error .truncated := by
  have hout : ¬s.chunk.toList.length < chunkBytes := by simp
  simp only [fileReader, FileDecryptor.finish, if_neg hstate.1, if_neg hstate.2, if_neg hout]

theorem finish_afterFinal {s : Opening} (hstate : s.dec.state = .afterFinal)
    (hlen : s.dec.finalLen ≤ chunkBytes) :
    (fileReader b).finish s = .ok (s.dec.finalPlaintext.toList.take s.dec.finalLen) := by
  have hout : ¬s.chunk.toList.length < chunkBytes := by simp
  have htake : (s.dec.finalPlaintext.toList.take s.dec.finalLen).length = s.dec.finalLen :=
    List.length_take_of_le (by rwa [Vector.length_toList])
  have hne : ¬s.dec.state = .done := by simp [hstate]
  simp only [fileReader, FileDecryptor.finish, if_neg hne, if_neg hout, if_pos hstate]
  rw [List.take_append_of_le_length (Nat.le_of_eq htake.symm), List.take_take, Nat.min_self]

theorem state_of_finish_eq_ok {s : Opening} {last : List UInt8}
    (h : (fileReader b).finish s = .ok last) : s.dec.state = .afterFinal := by
  rcases finish_cases s.dec s.chunk.toList with ⟨-, hfin⟩ | ⟨-, hfin⟩ | ⟨hstate, -⟩ | ⟨-, -, hfin⟩
  · simp only [fileReader, hfin] at h
    cases h
  · simp only [fileReader, hfin] at h
    cases h
  · exact hstate
  · simp only [fileReader, hfin] at h
    cases h

/-- Trailing bytes are refused as such. -/
theorem feed_afterFinal {s : Opening} (hstate : s.dec.state = .afterFinal) {input : List UInt8}
    (hlen : input.length = 1) : (fileReader b).feed s input = .error .trailingData := by
  have hne : ¬s.dec.state = .done := by simp [hstate]
  have hpass : ¬(input.length ≠ s.dec.nextLen ∨ s.chunk.toList.length < chunkBytes) := by
    simp [hlen, nextLen, hstate]
  have hfeed : s.dec.feed b input s.chunk.toList
      = (.error .trailingData, s.dec.fail, s.chunk.toList) := by
    rw [FileDecryptor.feed, if_neg hne, if_neg hpass, step, hstate]
  simp only [fileReader, hfeed]

theorem inv_of_reads {s s' : Opening} {file outs : List UInt8}
    (h : (fileReader b).Reads s file outs s') (hinv : s.dec.Inv) : s'.dec.Inv := by
  induction h with
  | nil s => exact hinv
  | cons hlen hfeed hrest ih => exact ih ((accepts_of_feed_eq_ok hinv hfeed).inv hinv)

/-- One accepted feed is a reading. -/
theorem reads_of_accepts {dec dec' : FileDecryptor} (chunk : Vector UInt8 chunkBytes)
    {input released : List UInt8} (hinv : dec.Inv) (h : Accepts b dec input released dec') :
    ∃ chunk', (fileReader b).Reads ⟨dec, chunk⟩ input released ⟨dec', chunk'⟩ := by
  obtain ⟨chunk', hfeed⟩ := feed_eq_ok_of_accepts chunk hinv h
  exact ⟨chunk', .single h.length_input hfeed⟩

end

/-! ## The format -/

/-- Full chunks that are not `Final`, then one `Final` chunk of any length up to full. -/
inductive Framed : List Chunk → Prop
  | last {piece : List UInt8} (hlen : piece.length ≤ chunkBytes) : Framed [(.final, piece)]
  | cons {tag : Tag} {piece : List UInt8} {rest : List Chunk} (htag : tag ≠ .final)
      (hlen : piece.length = chunkBytes) (hrest : Framed rest) : Framed ((tag, piece) :: rest)

/-- The plaintext a list of chunks carries. -/
def plaintextOf (chunks : List Chunk) : List UInt8 := (chunks.map Prod.snd).flatten

/-- `file` is the prefix and the records emitted for `chunks`. -/
structure IsFile (b : Build) (key header : Vector UInt8 32) (chunks : List Chunk)
    (file : List UInt8) : Prop where
  framed : Framed chunks
  emitted : ∃ records enc, runAll (FileEncryptor.emit b) (FileEncryptor.init b key header).1 chunks
      = some (records, enc)
    ∧ file = (FileEncryptor.init b key header).2.toList ++ records.flatten

section

variable {b : Build}

/-- A decryptor waiting for a record, in step with an open session. -/
structure AtRecord (dec : FileDecryptor) (pull : PullState) : Prop where
  state_eq : dec.state = .recordHead
  pull_eq : dec.pull = some pull
  not_finalized : pull.finalized = false

theorem AtRecord.inv {dec : FileDecryptor} {pull : PullState} (h : AtRecord dec pull) :
    dec.Inv := by
  rw [FileDecryptor.Inv, h.state_eq]
  exact ⟨pull, h.pull_eq, h.not_finalized⟩

/-- The reader takes the head of a record. -/
theorem accepts_head {dec : FileDecryptor} {pull pull' : PullState} {wire : Wire} {tag : Tag}
    {piece : List UInt8} (hat : AtRecord dec pull)
    (hwire : pull.pullChunk b wire = some ((tag, piece), pull')) (hlen : piece.length ≤ chunkBytes)
    (hfull : tag ≠ .final → piece.length = chunkBytes) :
    Accepts b dec (recordHead wire.tagByte wire.ciphertext.length) []
      { dec with state := .recordBody wire.tagByte wire.ciphertext.length } := by
  have hct : piece.length = wire.ciphertext.length := length_eq_of_pullChunk b hwire
  rw [tag_of_pullChunk hwire, ← hct]
  exact .recordHead hat.state_eq hlen hfull

/-- The reader takes a whole non-final record and releases it. -/
theorem reads_frame {dec : FileDecryptor} (chunk : Vector UInt8 chunkBytes) {pull pull' : PullState}
    {wire : Wire} {tag : Tag} {piece : List UInt8} (hat : AtRecord dec pull)
    (hwire : pull.pullChunk b wire = some ((tag, piece), pull')) (htag : tag ≠ .final)
    (hlen : piece.length = chunkBytes) :
    ∃ dec' chunk', (fileReader b).Reads ⟨dec, chunk⟩ wire.frame piece ⟨dec', chunk'⟩
      ∧ AtRecord dec' pull' := by
  have hhead := accepts_head hat hwire (Nat.le_of_eq hlen) (fun _ => hlen)
  have hstate : ({ dec with state := .recordBody wire.tagByte wire.ciphertext.length }
      : FileDecryptor).state = .recordBody wire.tagByte wire.ciphertext.length := rfl
  have hbody := Accepts.body hstate hat.pull_eq htag hwire
  have hinv := hhead.inv hat.inv
  obtain ⟨chunk₁, hreads₁⟩ := reads_of_accepts chunk hat.inv hhead
  obtain ⟨chunk₂, hreads₂⟩ := reads_of_accepts chunk₁ hinv hbody
  obtain ⟨pull₂, hpull₂, hopen⟩ := hbody.inv hinv
  obtain rfl : pull' = pull₂ := Option.some.inj hpull₂
  exact ⟨_, chunk₂, hreads₁.trans hreads₂, rfl, rfl, hopen⟩

/-- The reader takes a whole `Final` record and holds it back. -/
theorem reads_frame_final {dec : FileDecryptor} (chunk : Vector UInt8 chunkBytes)
    {pull pull' : PullState} {wire : Wire} {piece : List UInt8} (hat : AtRecord dec pull)
    (hwire : pull.pullChunk b wire = some ((.final, piece), pull'))
    (hlen : piece.length ≤ chunkBytes) :
    ∃ s', (fileReader b).Reads ⟨dec, chunk⟩ wire.frame [] s' ∧ s'.dec.state = .afterFinal
      ∧ (fileReader b).finish s' = .ok piece := by
  have hct : piece.length = wire.ciphertext.length := length_eq_of_pullChunk b hwire
  have hhead := accepts_head hat hwire hlen (fun h => absurd rfl h)
  have hstate : ({ dec with state := .recordBody wire.tagByte wire.ciphertext.length }
      : FileDecryptor).state = .recordBody wire.tagByte wire.ciphertext.length := rfl
  have hbody := Accepts.final hstate hat.pull_eq hwire
  obtain ⟨chunk₁, hreads₁⟩ := reads_of_accepts chunk hat.inv hhead
  obtain ⟨chunk₂, hreads₂⟩ := reads_of_accepts chunk₁ (hhead.inv hat.inv) hbody
  refine ⟨_, hreads₁.trans hreads₂, rfl, ?_⟩
  rw [finish_afterFinal rfl (hct ▸ hlen)]
  simp only [toList_overwrite _ hlen, ← hct, List.take_left]

/-- What the reader is given is read off record by record. -/
theorem read_of_emitted {dec : FileDecryptor} {chunk : Vector UInt8 chunkBytes} {pull : PullState}
    (hat : AtRecord dec pull) {chunks : List Chunk} {records : List (List UInt8)}
    {enc : FileEncryptor} (hframed : Framed chunks)
    (hrun : runAll (FileEncryptor.emit b) ⟨pull.toPush⟩ chunks = some (records, enc)) :
    (fileReader b).read ⟨dec, chunk⟩ records.flatten = .ok (plaintextOf chunks) := by
  induction hframed generalizing dec chunk pull records with
  | @last piece hlen =>
    obtain ⟨record, enc', records, hemit, hnil, rfl⟩ := runAll_cons_eq_some.mp hrun
    cases hnil
    obtain ⟨-, wire, hpush, rfl⟩ := (FileEncryptor.emit_eq_some_iff b).mp hemit
    have hwire : pull.pullChunk b wire = some ((.final, piece), enc.push.toPull) :=
      (pullChunk_eq_some_iff b).mpr hpush
    obtain ⟨s', hreads, hstate, hfin⟩ := reads_frame_final chunk hat hwire hlen
    refine Reader.read_eq_ok_iff.mpr ⟨wire.frame, [], [], s', piece, ?_, hreads, ?_, hfin, ?_⟩
    · simp
    · simp [fileReader, nextLen, hstate]
    · simp [plaintextOf]
  | @cons tag piece rest htag hlen hrest ih =>
    obtain ⟨record, enc', records, hemit, hrun', rfl⟩ := runAll_cons_eq_some.mp hrun
    obtain ⟨-, wire, hpush, rfl⟩ := (FileEncryptor.emit_eq_some_iff b).mp hemit
    have hwire : pull.pullChunk b wire = some ((tag, piece), enc'.push.toPull) :=
      (pullChunk_eq_some_iff b).mpr hpush
    obtain ⟨dec', chunk', hreads, hat'⟩ := reads_frame chunk hat hwire htag hlen
    rw [List.flatten_cons, Reader.read_append hreads, ih hat' hrun']
    rfl

/-- Before the `Final` record is in, accepted input begins with what the reader takes. -/
theorem accepts_of_read {s : Opening} {file p : List UInt8} (hinv : s.dec.Inv)
    (hstate : s.dec.state ≠ .afterFinal ∧ s.dec.state ≠ .done)
    (h : (fileReader b).read s file = .ok p) :
    ∃ input rest released s' p', file = input ++ rest ∧ Accepts b s.dec input released s'.dec
      ∧ (fileReader b).read s' rest = .ok p' ∧ p = released ++ p' := by
  rcases Reader.read_eq_ok_cases h with ⟨-, hfin⟩ | ⟨input, rest, out, s', p', hfile, -, hfeed,
    hread, hp⟩
  · rw [finish_eq_truncated hstate] at hfin
    cases hfin
  · exact ⟨input, rest, out, s', p', hfile, accepts_of_feed_eq_ok hinv hfeed, hread, hp⟩

/-- After the `Final` record accepted input is at its end. -/
theorem read_afterFinal {s : Opening} {file p : List UInt8} (hstate : s.dec.state = .afterFinal)
    (h : (fileReader b).read s file = .ok p) :
    file = [] ∧ (fileReader b).finish s = .ok p := by
  have hwant : (fileReader b).want s = 1 := by
    show s.dec.nextLen = 1
    rw [nextLen, hstate]
  rcases Reader.read_eq_ok_cases h with ⟨hshort, hfin⟩ | ⟨input, rest, out, s', p', -, hlen, hfeed,
    -, -⟩
  · rw [hwant] at hshort
    exact ⟨List.eq_nil_of_length_eq_zero (by omega), hfin⟩
  · rw [feed_afterFinal hstate (by rw [hlen, hwant])] at hfeed
    cases hfeed

/-- Accepted input begins with a record; if that is not `Final`, the rest is accepted
input again. -/
theorem record_of_read {dec : FileDecryptor} {chunk : Vector UInt8 chunkBytes} {pull : PullState}
    (hat : AtRecord dec pull) {file p : List UInt8}
    (h : (fileReader b).read ⟨dec, chunk⟩ file = .ok p) :
    ∃ wire tag piece pull' rest, file = wire.frame ++ rest
      ∧ pull.pullChunk b wire = some ((tag, piece), pull')
      ∧ ((tag = .final ∧ piece.length ≤ chunkBytes ∧ rest = [] ∧ p = piece)
        ∨ (tag ≠ .final ∧ piece.length = chunkBytes ∧ ∃ dec' chunk' p', AtRecord dec' pull'
          ∧ (fileReader b).read ⟨dec', chunk'⟩ rest = .ok p' ∧ p = piece ++ p')) := by
  obtain ⟨head, file', released₁, ⟨dec₁, chunk₁⟩, p₁, rfl, hhead, hread₁, rfl⟩ :=
    accepts_of_read hat.inv (by simp [hat.state_eq]) h
  have hinv₁ := hhead.inv hat.inv
  obtain ⟨tag₀, len, rfl, rfl, hle, hfull, rfl⟩ := hhead.at_recordHead hat.state_eq
  obtain ⟨body, rest, released₂, ⟨dec₂, chunk₂⟩, p₂, rfl, hbody, hread₂, rfl⟩ :=
    accepts_of_read hinv₁ (by simp) hread₁
  have hinv₂ := hbody.inv hinv₁
  obtain ⟨wire, tag, piece, pull₀, pull', rfl, hbyte, rfl, hpull, hopen, hcase⟩ :=
    hbody.at_recordBody rfl
  -- the session is the one the decryptor was in step with, the tag the head's
  obtain rfl : pull = pull₀ := Option.some.inj (hat.pull_eq.symm.trans hpull)
  obtain rfl : tag = tag₀ := Tag.toByte_inj ((tag_of_pullChunk hopen).symm.trans hbyte)
  have hct : piece.length = wire.ciphertext.length := length_eq_of_pullChunk b hopen
  refine ⟨wire, tag, piece, pull', rest, ?_, hopen, ?_⟩
  · rw [Wire.frame, hbyte, List.append_assoc]
  · rcases hcase with ⟨htag, rfl, rfl⟩ | ⟨rfl, rfl, rfl⟩
    · refine Or.inr ⟨htag, by rw [hct, hfull htag], _, chunk₂, p₂, ?_, hread₂, rfl⟩
      obtain ⟨pull₂, hpull₂, hnot⟩ := hinv₂
      obtain rfl : pull' = pull₂ := Option.some.inj hpull₂
      exact ⟨rfl, rfl, hnot⟩
    · have hlen : piece.length ≤ chunkBytes := hct ▸ hle
      obtain ⟨rfl, hfin⟩ := read_afterFinal rfl hread₂
      rw [finish_afterFinal rfl hle] at hfin
      simp only [toList_overwrite _ hlen, ← hct, List.take_left, Except.ok.injEq] at hfin
      exact Or.inl ⟨rfl, hlen, rfl, hfin.symm⟩

/-- Accepted input is a sequence of emitted records. -/
theorem emitted_of_read {dec : FileDecryptor} {chunk : Vector UInt8 chunkBytes} {pull : PullState}
    (hat : AtRecord dec pull) {file p : List UInt8}
    (h : (fileReader b).read ⟨dec, chunk⟩ file = .ok p) :
    ∃ chunks records enc, Framed chunks
      ∧ runAll (FileEncryptor.emit b) ⟨pull.toPush⟩ chunks = some (records, enc)
      ∧ file = records.flatten ∧ p = plaintextOf chunks := by
  -- on the length of what is left: a record is never empty
  induction hn : file.length using Nat.strongRecOn generalizing dec chunk pull file p with
  | ind n ih =>
    obtain ⟨wire, tag, piece, pull', rest, rfl, hwire, hcase⟩ := record_of_read hat h
    have hpush := (pullChunk_eq_some_iff b).mp hwire
    have hemit : piece.length ≤ chunkBytes →
        FileEncryptor.emit b ⟨pull.toPush⟩ (tag, piece) = some (wire.frame, ⟨pull'.toPush⟩) :=
      fun hlen => (FileEncryptor.emit_eq_some_iff b).mpr ⟨hlen, wire, hpush, rfl⟩
    rcases hcase with ⟨rfl, hlen, rfl, rfl⟩ | ⟨htag, hlen, dec', chunk', p', hat', hread, rfl⟩
    · refine ⟨[(.final, p)], [wire.frame], ⟨pull'.toPush⟩, .last hlen, ?_, by simp,
        by simp [plaintextOf]⟩
      exact runAll_cons_eq_some.mpr ⟨_, _, [], hemit hlen, rfl, rfl⟩
    · have hshort : rest.length < n := by
        rw [← hn, List.length_append, wire.length_frame, recordOverheadBytes, recordHeadBytes]
        omega
      obtain ⟨chunks, records, enc, hframed, hrun, rfl, rfl⟩ := ih _ hshort hat' hread rfl
      refine ⟨(tag, piece) :: chunks, wire.frame :: records, enc, .cons htag hlen hframed, ?_,
        rfl, rfl⟩
      exact runAll_cons_eq_some.mpr ⟨_, _, records, hemit (Nat.le_of_eq hlen), hrun, rfl⟩

/-- The reader takes the prefix, whatever the header. -/
theorem reads_filePrefix (key header : Vector UInt8 32) (chunk : Vector UInt8 chunkBytes) :
    ∃ dec chunk', (fileReader b).Reads ⟨FileDecryptor.new key, chunk⟩
        (FileEncryptor.init b key header).2.toList [] ⟨dec, chunk'⟩
      ∧ AtRecord dec (PullState.init b key header) := by
  have hversion : Accepts b (FileDecryptor.new key) [formatVersion] []
      { FileDecryptor.new key with state := .header } := .version rfl
  have hinv := hversion.inv (inv_new key)
  have hstate : ({ FileDecryptor.new key with state := .header } : FileDecryptor).state
      = .header := rfl
  have hheader := Accepts.header (b := b) hstate header
  obtain ⟨chunk₁, hreads₁⟩ := reads_of_accepts chunk (inv_new key) hversion
  obtain ⟨chunk₂, hreads₂⟩ := reads_of_accepts chunk₁ hinv hheader
  have hreads := hreads₁.trans hreads₂
  rw [FileEncryptor.toList_init_snd]
  exact ⟨_, chunk₂, hreads, rfl, rfl, rfl⟩

/-- Accepted input begins with the prefix. -/
theorem filePrefix_of_read {key : Vector UInt8 32} {chunk : Vector UInt8 chunkBytes}
    {file p : List UInt8} (h : (fileReader b).read ⟨FileDecryptor.new key, chunk⟩ file = .ok p) :
    ∃ header rest dec chunk', file = (FileEncryptor.init b key header).2.toList ++ rest
      ∧ AtRecord dec (PullState.init b key header)
      ∧ (fileReader b).read ⟨dec, chunk'⟩ rest = .ok p := by
  obtain ⟨input₁, file₁, released₁, ⟨dec₁, chunk₁⟩, p₁, rfl, hversion, hread₁, rfl⟩ :=
    accepts_of_read (inv_new key) ⟨by simp [FileDecryptor.new], by simp [FileDecryptor.new]⟩ h
  have hinv₁ := hversion.inv (inv_new key)
  obtain ⟨rfl, rfl, rfl⟩ := hversion.at_version rfl
  obtain ⟨input₂, file₂, released₂, ⟨dec₂, chunk₂⟩, p₂, rfl, hheader, hread₂, rfl⟩ :=
    accepts_of_read hinv₁ (by simp) hread₁
  obtain ⟨header, rfl, rfl, rfl⟩ := hheader.at_header rfl
  refine ⟨header, file₂, _, chunk₂, ?_, ⟨rfl, rfl, rfl⟩, hread₂⟩
  rw [FileEncryptor.toList_init_snd]
  rfl

/-- **The accepted files.** `openAll` accepts exactly the files of the format, and
returns their plaintext. -/
theorem openAll_eq_ok_iff_isFile {key : Vector UInt8 32} {file p : List UInt8} :
    openAll b (FileDecryptor.new key) file = .ok p
      ↔ ∃ header chunks, IsFile b key header chunks file ∧ p = plaintextOf chunks := by
  constructor
  · intro h
    obtain ⟨header, rest, dec, chunk, rfl, hat, hread⟩ := filePrefix_of_read h
    obtain ⟨chunks, records, enc, hframed, hrun, rfl, rfl⟩ := emitted_of_read hat hread
    exact ⟨header, chunks, ⟨hframed, records, enc, hrun, rfl⟩, rfl⟩
  · rintro ⟨header, chunks, ⟨hframed, records, enc, hrun, rfl⟩, rfl⟩
    obtain ⟨dec, chunk, hreads, hat⟩ := reads_filePrefix key header (Vector.replicate chunkBytes 0)
    rw [openAll, Reader.read_append hreads, read_of_emitted hat hframed hrun]
    rfl

end

/-! ## Round trip -/

/-- The chunks `seal_all` cuts a plaintext into: the last one is held back for `Final`,
also when it is full. -/
def chunksOf (rest : List UInt8) : List Chunk :=
  if _ : chunkBytes < rest.length then
    (.message, rest.take chunkBytes) :: chunksOf (rest.drop chunkBytes)
  else [(.final, rest)]
termination_by rest.length
decreasing_by exact length_drop_chunk_lt ‹_›

/-- How many records a plaintext of `len` bytes takes. -/
def recordCount (len : Nat) : Nat := (len - 1) / chunkBytes + 1

theorem framed_chunksOf (rest : List UInt8) : Framed (chunksOf rest) := by
  fun_induction chunksOf rest with
  | case1 rest hlen ih =>
    exact .cons (by decide) (List.length_take_of_le (Nat.le_of_lt hlen)) ih
  | case2 rest hlen => exact .last (Nat.le_of_not_lt hlen)

@[simp] theorem plaintextOf_cons (chunk : Chunk) (chunks : List Chunk) :
    plaintextOf (chunk :: chunks) = chunk.2 ++ plaintextOf chunks := rfl

theorem plaintextOf_chunksOf (rest : List UInt8) : plaintextOf (chunksOf rest) = rest := by
  fun_induction chunksOf rest with
  | case1 rest hlen ih => rw [plaintextOf_cons, ih, List.take_append_drop]
  | case2 rest hlen => exact List.append_nil rest

theorem length_chunksOf (rest : List UInt8) :
    (chunksOf rest).length = recordCount rest.length := by
  fun_induction chunksOf rest with
  | case1 rest hlen ih =>
    rw [List.length_cons, ih, List.length_drop, recordCount, recordCount]
    have hsub : rest.length - 1 = rest.length - chunkBytes - 1 + chunkBytes := by omega
    rw [hsub, Nat.add_div_right _ (by decide)]
  | case2 rest hlen =>
    have hlt : rest.length - 1 < chunkBytes := by
      have hpos : 0 < chunkBytes := by decide
      omega
    rw [recordCount, Nat.div_eq_of_lt hlt]
    rfl

theorem Framed.length_le {chunks : List Chunk} (h : Framed chunks) :
    ∀ chunk ∈ chunks, chunk.2.length ≤ chunkBytes := by
  induction h with
  | last hlen =>
    intro chunk hchunk
    rw [List.mem_singleton.mp hchunk]
    exact hlen
  | cons _ hlen _ ih =>
    intro chunk hchunk
    rcases List.mem_cons.mp hchunk with rfl | hchunk
    · exact Nat.le_of_eq hlen
    · exact ih chunk hchunk

theorem Framed.finalOnlyLast {chunks : List Chunk} (h : Framed chunks) : FinalOnlyLast chunks := by
  induction h with
  | last hlen =>
    intro chunk hchunk
    cases hchunk
  | cons htag _ hrest ih =>
    intro chunk hchunk
    cases hrest with
    | last _ =>
      rw [List.mem_singleton.mp hchunk]
      exact htag
    | cons htag' hlen' hrest' =>
      rcases List.mem_cons.mp hchunk with rfl | hchunk
      · exact htag
      · exact ih chunk hchunk

section

variable (b : Build)

/-- Records are emitted as long as chunks can be pushed. -/
theorem emitted_of_pushAll {st st' : PushState} {chunks : List Chunk} {wires : List Wire}
    (hlen : ∀ chunk ∈ chunks, chunk.2.length ≤ chunkBytes)
    (h : runAll (PushState.pushChunk b) st chunks = some (wires, st')) :
    runAll (FileEncryptor.emit b) ⟨st⟩ chunks = some (wires.map Wire.frame, ⟨st'⟩) := by
  induction chunks generalizing st wires with
  | nil =>
    cases h
    rfl
  | cons chunk chunks ih =>
    obtain ⟨wire, st₁, wires, hpush, hrest, rfl⟩ := runAll_cons_eq_some.mp h
    have hemit : FileEncryptor.emit b ⟨st⟩ chunk = some (wire.frame, ⟨st₁⟩) :=
      (FileEncryptor.emit_eq_some_iff b).mpr ⟨hlen chunk List.mem_cons_self, wire, hpush, rfl⟩
    exact runAll_cons_eq_some.mpr ⟨wire.frame, ⟨st₁⟩, wires.map Wire.frame, hemit,
      ih (fun c hc => hlen c (List.mem_cons_of_mem _ hc)) hrest, rfl⟩

/-- `seal_all` emits the records of `chunksOf`. -/
theorem sealRest_of_emitted {enc enc' : FileEncryptor} {record : Vector UInt8 maxRecordBytes}
    {rest out : List UInt8} {records : List (List UInt8)}
    (h : runAll (FileEncryptor.emit b) enc (chunksOf rest) = some (records, enc')) :
    enc.sealRest b record rest out = (.ok (), enc', out ++ records.flatten) := by
  induction hn : rest.length using Nat.strongRecOn generalizing enc record rest out records with
  | ind n ih =>
    have hroom : ∀ {len : Nat}, len ≤ chunkBytes →
        len + recordOverheadBytes ≤ record.toList.length := fun hle => by
      rw [Vector.length_toList, maxRecordBytes]
      exact Nat.add_le_add_right hle _
    rw [chunksOf] at h
    rw [FileEncryptor.sealRest]
    by_cases hlen : chunkBytes < rest.length
    · rw [dif_pos hlen] at h ⊢
      obtain ⟨record₁, enc₁, records, hemit, hrun, rfl⟩ := runAll_cons_eq_some.mp h
      obtain ⟨hle, wire, hpush, rfl⟩ := (FileEncryptor.emit_eq_some_iff b).mp hemit
      have hct := length_eq_of_push b ((pushChunk_eq_some b).mp hpush).2
      -- a full record fills the buffer
      have hfull : wire.frame.length = maxRecordBytes := by
        rw [wire.length_frame, hct, List.length_take_of_le (Nat.le_of_lt hlen), maxRecordBytes]
      have hseal := FileEncryptor.sealRecord_of_pushChunk b hpush hle (hroom hle)
      rw [List.drop_of_length_le (by simp [hfull]), List.append_nil] at hseal
      have hchunk : (headChunk chunkBytes rest (Nat.le_of_lt hlen)).toList
          = rest.take chunkBytes := rfl
      have hsealChunk : enc.sealChunk b (headChunk chunkBytes rest (Nat.le_of_lt hlen)) record
          = (.ok (), enc₁, overwrite record wire.frame) := by
        rw [FileEncryptor.sealChunk, hchunk, hseal]
      simp only [hsealChunk]
      rw [ih _ (hn ▸ length_drop_chunk_lt hlen) hrun rfl, toList_overwrite_of_length _ hfull,
        List.append_assoc, List.flatten_cons]
    · rw [dif_neg hlen] at h ⊢
      obtain ⟨record₁, enc₁, records, hemit, hnil, rfl⟩ := runAll_cons_eq_some.mp h
      cases hnil
      obtain ⟨hle, wire, hpush, rfl⟩ := (FileEncryptor.emit_eq_some_iff b).mp hemit
      have hseal := FileEncryptor.sealRecord_of_pushChunk b hpush hle (hroom hle)
      rw [FileEncryptor.sealFinal, hseal]
      simp only [List.take_left, List.flatten_cons, List.flatten_nil, List.append_nil]

/-- `seal_all` appends a file of the format, as long as the counter lasts. -/
theorem isFile_sealAll_append (key header : Vector UInt8 32) (plaintext front : List UInt8)
    (hcount : recordCount plaintext.length < 2 ^ 64) :
    ∃ enc file, (FileEncryptor.init b key header).1.sealAll b plaintext
        (front ++ (FileEncryptor.init b key header).2.toList) = (.ok (), enc, front ++ file)
      ∧ IsFile b key header (chunksOf plaintext) file := by
  have hframed := framed_chunksOf plaintext
  have hbits : ∀ chunk ∈ chunksOf plaintext, chunk.2.length * 8 < 2 ^ 64 := by
    intro chunk hchunk
    have hle := hframed.length_le chunk hchunk
    have hchunkBytes : chunkBytes * 8 < 2 ^ 64 := by decide
    omega
  have hcounter : (PushState.start b key header).counter.toNat + (chunksOf plaintext).length
      < 2 ^ 64 := by
    rw [length_chunksOf, PushState.start]
    simpa using hcount
  obtain ⟨wires, st, hpush⟩ := pushAll_of_limits b rfl hcounter hframed.finalOnlyLast hbits
  have hemitted := emitted_of_pushAll b hframed.length_le hpush
  refine ⟨⟨st⟩, (FileEncryptor.init b key header).2.toList ++ (wires.map Wire.frame).flatten, ?_,
    hframed, _, _, hemitted, rfl⟩
  rw [← List.append_assoc]
  exact sealRest_of_emitted b hemitted

theorem isFile_sealAll (key header : Vector UInt8 32) (plaintext : List UInt8)
    (hcount : recordCount plaintext.length < 2 ^ 64) :
    ∃ enc file, (FileEncryptor.init b key header).1.sealAll b plaintext
        (FileEncryptor.init b key header).2.toList = (.ok (), enc, file)
      ∧ IsFile b key header (chunksOf plaintext) file :=
  isFile_sealAll_append b key header plaintext [] hcount

/-- **Round trip.** Whatever is sealed under a key and a header, in fewer than `2^64`
records, is opened again, whatever its length. -/
theorem openAll_sealAll (key header : Vector UInt8 32) (plaintext : List UInt8)
    (hcount : recordCount plaintext.length < 2 ^ 64) :
    ∃ enc file, (FileEncryptor.init b key header).1.sealAll b plaintext
        (FileEncryptor.init b key header).2.toList = (.ok (), enc, file)
      ∧ openAll b (FileDecryptor.new key) file = .ok plaintext := by
  obtain ⟨enc, file, hseal, hfile⟩ := isFile_sealAll b key header plaintext hcount
  refine ⟨enc, file, hseal, openAll_eq_ok_iff_isFile.mpr ⟨header, _, hfile, ?_⟩⟩
  rw [plaintextOf_chunksOf]

theorem openAll_sealAll_one_over :
    ∃ enc file, (FileEncryptor.init ⟨.fused, false⟩ (Vector.replicate 32 0)
          (Vector.replicate 32 1)).1.sealAll ⟨.fused, false⟩ (List.replicate (chunkBytes + 1) 7)
        (FileEncryptor.init ⟨.fused, false⟩ (Vector.replicate 32 0)
          (Vector.replicate 32 1)).2.toList = (.ok (), enc, file)
      ∧ openAll ⟨.fused, false⟩ (FileDecryptor.new (Vector.replicate 32 0)) file
        = .ok (List.replicate (chunkBytes + 1) 7) :=
  openAll_sealAll ⟨.fused, false⟩ (Vector.replicate 32 0) (Vector.replicate 32 1)
    (List.replicate (chunkBytes + 1) 7) (by rw [List.length_replicate]; decide)

/-! ## No free byte -/

theorem Framed.split {chunks : List Chunk} (h : Framed chunks) :
    ∃ full last, chunks = full ++ [(.final, last)] ∧ last.length ≤ chunkBytes
      ∧ ∀ chunk ∈ full, (chunk.1 = .message ∨ chunk.1 = .push ∨ chunk.1 = .rekey)
        ∧ chunk.2.length = chunkBytes := by
  induction h with
  | @last piece hlen =>
    refine ⟨[], piece, rfl, hlen, ?_⟩
    intro chunk hchunk
    cases hchunk
  | @cons tag piece rest htag hlen _ ih =>
    obtain ⟨full, last, rfl, hlast, hfull⟩ := ih
    refine ⟨(tag, piece) :: full, last, rfl, hlast, ?_⟩
    intro chunk hchunk
    rcases List.mem_cons.mp hchunk with rfl | hchunk
    · refine ⟨?_, hlen⟩
      cases tag with
      | message => exact Or.inl rfl
      | push => exact Or.inr (Or.inl rfl)
      | rekey => exact Or.inr (Or.inr rfl)
      | final => exact absurd rfl htag
    · exact hfull chunk hchunk

/-- Tags and plaintext say how the plaintext was cut. -/
theorem Framed.eq_of_tags {chunks chunks' : List Chunk} (h : Framed chunks) (h' : Framed chunks')
    (htags : chunks.map Prod.fst = chunks'.map Prod.fst)
    (hplain : plaintextOf chunks = plaintextOf chunks') : chunks = chunks' := by
  induction h generalizing chunks' with
  | @last piece _ =>
    cases h' with
    | @last piece' _ =>
      rw [show piece = piece' by simpa [plaintextOf] using hplain]
    | cons htag' _ _ => exact absurd (List.cons.inj htags).1.symm htag'
  | @cons tag piece rest htag hlen _ ih =>
    cases h' with
    | last _ => exact absurd (List.cons.inj htags).1 htag
    | @cons tag' piece' rest' _ hlen' hrest' =>
      rw [plaintextOf_cons, plaintextOf_cons] at hplain
      -- both first pieces are full, so the plaintexts are cut at the same place
      obtain ⟨hpiece, hplain'⟩ := List.append_inj hplain (hlen.trans hlen'.symm)
      obtain ⟨htag', htags'⟩ := List.cons.inj htags
      rw [show tag = tag' from htag', show piece = piece' from hpiece, ih hrest' htags' hplain']

theorem pushAll_of_emitted {enc enc' : FileEncryptor} {chunks : List Chunk}
    {records : List (List UInt8)}
    (h : runAll (FileEncryptor.emit b) enc chunks = some (records, enc')) :
    ∃ wires, runAll (PushState.pushChunk b) enc.push chunks = some (wires, enc'.push)
      ∧ records = wires.map Wire.frame
      ∧ (wires.map fun wire => (wire.tagByte, wire.ciphertext.length))
        = chunks.map fun chunk => (chunk.1.toByte, chunk.2.length) := by
  induction chunks generalizing enc records with
  | nil =>
    cases h
    exact ⟨[], rfl, rfl, rfl⟩
  | cons chunk chunks ih =>
    obtain ⟨record, enc₁, records, hemit, hrun, rfl⟩ := runAll_cons_eq_some.mp h
    obtain ⟨-, wire, hpush, rfl⟩ := (FileEncryptor.emit_eq_some_iff b).mp hemit
    obtain ⟨wires, hrest, rfl, hshape⟩ := ih hrun
    obtain ⟨htag, hpush'⟩ := (pushChunk_eq_some b).mp hpush
    refine ⟨wire :: wires, runAll_cons_eq_some.mpr ⟨wire, _, wires, hpush, hrest, rfl⟩, rfl, ?_⟩
    rw [List.map_cons, List.map_cons, hshape, htag, length_eq_of_push b hpush']

theorem length_of_emitted {enc enc' : FileEncryptor} {chunks : List Chunk}
    {records : List (List UInt8)}
    (h : runAll (FileEncryptor.emit b) enc chunks = some (records, enc')) :
    records.flatten.length
      = chunks.length * recordOverheadBytes + (plaintextOf chunks).length := by
  induction chunks generalizing enc records with
  | nil =>
    cases h
    rfl
  | cons chunk chunks ih =>
    obtain ⟨record, enc₁, records, hemit, hrun, rfl⟩ := runAll_cons_eq_some.mp h
    obtain ⟨-, wire, hpush, rfl⟩ := (FileEncryptor.emit_eq_some_iff b).mp hemit
    have hct := length_eq_of_push b ((pushChunk_eq_some b).mp hpush).2
    rw [List.flatten_cons, List.length_append, ih hrun, wire.length_frame, hct, plaintextOf_cons,
      List.length_append, List.length_cons, Nat.succ_mul]
    omega

/-- A file is the prefix, an overhead for each record, and the plaintext. -/
theorem IsFile.length {key header : Vector UInt8 32} {chunks : List Chunk} {file : List UInt8}
    (h : IsFile b key header chunks file) :
    file.length
      = filePrefixBytes + chunks.length * recordOverheadBytes + (plaintextOf chunks).length := by
  obtain ⟨-, records, enc, hrun, rfl⟩ := h
  rw [List.length_append, length_of_emitted b hrun, Vector.length_toList, Nat.add_assoc]

/-- A file is at least the prefix and one empty record. -/
theorem IsFile.length_ge {key header : Vector UInt8 32} {chunks : List Chunk} {file : List UInt8}
    (h : IsFile b key header chunks file) :
    filePrefixBytes + recordOverheadBytes ≤ file.length := by
  have hpos : 1 ≤ chunks.length := by
    cases h.1 with
    | last => exact Nat.le_refl 1
    | cons => exact Nat.le_add_left 1 _
  have hrecords := Nat.mul_le_mul_right recordOverheadBytes hpos
  rw [h.length]
  omega

/-- **No free byte.** An accepted file is the version byte, a header, and the records
that the writer emits for some full chunks and one `Final` chunk, whose plaintext
is what was returned; the records are the frames of what a `PushState` started
from key and header emits. Header, tags and plaintext determine the file. -/
theorem openAll_accepts_format (key : Vector UInt8 32) :
    (∀ file p, openAll b (FileDecryptor.new key) file = .ok p →
      ∃ (header : Vector UInt8 32) (full : List Chunk) (last : List UInt8)
        (records : List (List UInt8)) (wires : List Wire) (enc : FileEncryptor),
        file = [formatVersion] ++ header.toList ++ records.flatten
        ∧ runAll (FileEncryptor.emit b) (FileEncryptor.init b key header).1
            (full ++ [(.final, last)]) = some (records, enc)
        ∧ runAll (PushState.pushChunk b) (PushState.start b key header) (full ++ [(.final, last)])
          = some (wires, enc.push)
        ∧ records = wires.map Wire.frame
        ∧ (wires.map fun wire => (wire.tagByte, wire.ciphertext.length))
          = ((full ++ [(Tag.final, last)]).map fun chunk => (chunk.1.toByte, chunk.2.length))
        ∧ (∀ chunk ∈ full, (chunk.1 = .message ∨ chunk.1 = .push ∨ chunk.1 = .rekey)
          ∧ chunk.2.length = chunkBytes)
        ∧ last.length ≤ chunkBytes
        ∧ p = (full.map Prod.snd).flatten ++ last)
    ∧ (∀ header chunks chunks' file file', IsFile b key header chunks file →
        IsFile b key header chunks' file' → chunks.map Prod.fst = chunks'.map Prod.fst →
        plaintextOf chunks = plaintextOf chunks' → file = file') := by
  refine ⟨?_, ?_⟩
  · intro file p h
    obtain ⟨header, chunks, ⟨hframed, records, enc, hrun, rfl⟩, rfl⟩ :=
      openAll_eq_ok_iff_isFile.mp h
    obtain ⟨full, last, rfl, hlast, hfull⟩ := hframed.split
    obtain ⟨wires, hpush, hrecords, hshape⟩ := pushAll_of_emitted b hrun
    refine ⟨header, full, last, records, wires, enc, ?_, hrun, hpush, hrecords, hshape, hfull,
      hlast, ?_⟩
    · rw [FileEncryptor.toList_init_snd]
      rfl
    · simp [plaintextOf]
  · rintro header chunks chunks' file file' ⟨hframed, records, enc, hrun, rfl⟩
      ⟨hframed', records', enc', hrun', rfl⟩ htags hplain
    obtain rfl := hframed.eq_of_tags hframed' htags hplain
    rw [hrun] at hrun'
    cases hrun'
    rfl

/-! ## Cut and extended files -/

/-- An accepted file is consumed to its end, which is the end of its `Final` record. -/
theorem reads_of_openAll {key : Vector UInt8 32} {file p : List UInt8}
    (h : openAll b (FileDecryptor.new key) file = .ok p) :
    ∃ outs s', (fileReader b).Reads ⟨FileDecryptor.new key, Vector.replicate chunkBytes 0⟩ file
      outs s' ∧ s'.dec.state = .afterFinal := by
  obtain ⟨used, rest, outs, s', last, rfl, hreads, hshort, hfin, -⟩ :=
    Reader.reads_of_read_eq_ok h
  have hstate := state_of_finish_eq_ok hfin
  have hnil : rest = [] := by
    have hwant : (fileReader b).want s' = 1 := by
      show s'.dec.nextLen = 1
      rw [nextLen, hstate]
    rw [hwant] at hshort
    exact List.eq_nil_of_length_eq_zero (by omega)
  rw [hnil, List.append_nil]
  exact ⟨outs, s', hreads, hstate⟩

theorem openAll_extended {key : Vector UInt8 32} {file p : List UInt8}
    (h : openAll b (FileDecryptor.new key) file = .ok p) {x : List UInt8} (hx : x ≠ []) :
    openAll b (FileDecryptor.new key) (file ++ x) = .error .trailingData := by
  obtain ⟨outs, s', hreads, hstate⟩ := reads_of_openAll b h
  obtain ⟨y, ys, rfl⟩ := List.exists_cons_of_ne_nil hx
  have hfeed : (fileReader b).feed s' [y] = .error .trailingData := feed_afterFinal hstate rfl
  have hlen : [y].length = (fileReader b).want s' := by
    show 1 = s'.dec.nextLen
    rw [nextLen, hstate]
  have hread : (fileReader b).read s' ([y] ++ ys) = .error .trailingData :=
    Reader.read_of_error (fileReader b) hlen hfeed
  rw [openAll, Reader.read_append hreads, ← List.singleton_append, hread]
  rfl

theorem openAll_cut {key : Vector UInt8 32} {file p : List UInt8}
    (h : openAll b (FileDecryptor.new key) file = .ok p) {kept lost : List UInt8}
    (hcut : file = kept ++ lost) (hlost : lost ≠ []) :
    openAll b (FileDecryptor.new key) kept = .error .truncated := by
  obtain ⟨outs, s', hreads, -⟩ := reads_of_openAll b h
  obtain ⟨used, t, outs', input, out, t', hreads', hfeed, hread⟩ :=
    Reader.read_of_cut hreads hcut hlost
  have hinv := inv_of_reads hreads' (inv_new key)
  -- a state that would take more has not seen the whole `Final` record
  have hstate := (accepts_of_feed_eq_ok hinv hfeed).state_ne
  rw [openAll, hread, finish_eq_truncated hstate]
  rfl

/-- **Prefix-free.** An accepted file with anything appended is `TrailingData`, any
strict prefix of it is `Truncated`, so no accepted file is a proper prefix of
another. -/
theorem openAll_prefix_free (key : Vector UInt8 32) (file p : List UInt8)
    (h : openAll b (FileDecryptor.new key) file = .ok p) :
    (∀ x, x ≠ [] → openAll b (FileDecryptor.new key) (file ++ x) = .error .trailingData)
      ∧ (∀ kept lost, lost ≠ [] → file = kept ++ lost →
        openAll b (FileDecryptor.new key) kept = .error .truncated)
      ∧ ∀ file' p', openAll b (FileDecryptor.new key) file' = .ok p' → file <+: file' →
        file = file' := by
  refine ⟨fun x hx => openAll_extended b h hx, fun kept lost hlost hcut =>
    openAll_cut b h hcut hlost, ?_⟩
  rintro file' p' h' ⟨x, rfl⟩
  by_cases hx : x = []
  · rw [hx, List.append_nil]
  · rw [openAll_extended b h hx] at h'
    cases h'

theorem openAll_prefix_free_sealed :
    ∃ enc file, (FileEncryptor.init ⟨.fused, false⟩ (Vector.replicate 32 0)
          (Vector.replicate 32 1)).1.sealAll ⟨.fused, false⟩ [1, 2, 3]
        (FileEncryptor.init ⟨.fused, false⟩ (Vector.replicate 32 0)
          (Vector.replicate 32 1)).2.toList = (.ok (), enc, file)
      ∧ openAll ⟨.fused, false⟩ (FileDecryptor.new (Vector.replicate 32 0)) (file ++ [0])
        = .error .trailingData
      ∧ ∀ kept lost, lost ≠ [] → file = kept ++ lost →
        openAll ⟨.fused, false⟩ (FileDecryptor.new (Vector.replicate 32 0)) kept
          = .error .truncated := by
  obtain ⟨enc, file, hseal, hfile⟩ := isFile_sealAll ⟨.fused, false⟩ (Vector.replicate 32 0)
    (Vector.replicate 32 1) [1, 2, 3] (by decide)
  have hopen := openAll_eq_ok_iff_isFile.mpr ⟨_, _, hfile, rfl⟩
  obtain ⟨hextended, hcut, -⟩ := openAll_prefix_free _ _ _ _ hopen
  exact ⟨enc, file, hseal, hextended [0] (by simp), hcut⟩

end

end UaCrypt.Secretstream
