import UaCrypt.Lib.Chunks
import UaCrypt.Lib.Framing
import UaCrypt.Secretstream.Session

/-!
# The stream-file codec (`crypto_secretstream/file.rs`)

A file is `FORMAT_VERSION || header (32) || records`; a record is
`tag (1) || len (u32 LE) || ciphertext (len) || auth tag (16)`. `FileEncryptor`
writes records, `FileDecryptor` is the reader's state machine, and `sealAll` and
`openAll` are the loops that drive them over bytes in memory.

- `sealRecord_of_pushChunk`: a sealed record is `frame` of what `pushChunk` emits.
- `Accepts`: what `feed` takes in each state, and where it goes.
- `feed_cases`, `finish_cases`: everything a call can do.
-/

namespace UaCrypt.Secretstream

open LittleEndian Hazmat Hazmat.ColumnState Chunks Framing Runs

/-! ## Constants and errors -/

/-- `FORMAT_VERSION`. -/
def formatVersion : UInt8 := 2

/-- `TAG_LEN`. -/
def tagLen : Nat := 16

/-- `CHUNK_BYTES`: plaintext bytes in every non-final record. -/
def chunkBytes : Nat := 8192

/-- `HEADER_BYTES`. -/
def headerBytes : Nat := 32

/-- `FILE_PREFIX_BYTES`: the format version byte plus the header. -/
def filePrefixBytes : Nat := 1 + headerBytes

/-- `RECORD_HEAD_BYTES`. -/
def recordHeadBytes : Nat := 1 + 4

/-- `RECORD_OVERHEAD_BYTES`: a record's bytes beyond its ciphertext. -/
def recordOverheadBytes : Nat := recordHeadBytes + tagLen

/-- `MAX_RECORD_BYTES`: the longest record. -/
def maxRecordBytes : Nat := chunkBytes + recordOverheadBytes

theorem length_drop_chunk_lt {rest : List UInt8} (h : chunkBytes < rest.length) :
    (rest.drop chunkBytes).length < rest.length := by
  rw [List.length_drop]
  exact Nat.sub_lt (Nat.lt_of_le_of_lt (Nat.zero_le _) h) (by decide)

/-- Why a stream file was rejected, or a codec call refused. -/
inductive FileError where
  | unsupportedVersion (version : UInt8)
  | truncated
  | chunkTooLarge (declared : UInt32)
  | badChunkLength (declared : UInt32)
  | unknownTag
  | trailingData
  | auth
  | finished
  | invalidLength
  | counterExhausted
  deriving DecidableEq, Repr

/-- `impl From<SecretstreamError> for FileError`. -/
def FileError.ofSecretstream : SecretstreamError → FileError
  | .invalidLength => .invalidLength
  | .tagMismatch => .auth
  | .unknownTag => .unknownTag
  | .streamFinalized => .finished
  | .counterExhausted => .counterExhausted

/-! ## The writer -/

structure FileEncryptor where
  push : PushState
  deriving DecidableEq

namespace FileEncryptor

/-- `FileEncryptor::init` after its header is drawn: the encryptor and the prefix to
write first. -/
def init (b : Build) (key header : Vector UInt8 32) :
    FileEncryptor × Vector UInt8 filePrefixBytes :=
  (⟨PushState.start b key header⟩, #v[formatVersion] ++ header)

theorem toList_init_snd (b : Build) (key header : Vector UInt8 32) :
    (init b key header).2.toList = formatVersion :: header.toList := by
  show (#v[formatVersion] ++ header).toList = formatVersion :: header.toList
  rw [Vector.toList_append]
  rfl

/-- `FileEncryptor::seal`: one record into the front of `out`; returns its length. -/
def sealRecord (b : Build) (enc : FileEncryptor) (tag : Tag) (plaintext out : List UInt8) :
    Outcome FileError Nat × FileEncryptor × List UInt8 :=
  if enc.push.finalized then (.err .finished, enc, out)
  else
    let recordLen := plaintext.length + recordOverheadBytes
    if plaintext.length > chunkBytes ∨ out.length < recordLen then (.err .invalidLength, enc, out)
    else if ¬plaintext.length < 2 ^ 32 then (.err .invalidLength, enc, out)
    else
      -- `out` is head, ciphertext, auth tag and whatever lies beyond the record
      let ciphertext := (out.drop recordHeadBytes).take plaintext.length
      let beyond := out.drop (recordHeadBytes + plaintext.length)
      match enc.push.push b tag plaintext ciphertext with
      | (.err e, push, ciphertext) =>
        (.err (.ofSecretstream e), ⟨push⟩, out.take recordHeadBytes ++ ciphertext ++ beyond)
      | (.panic, push, ciphertext) =>
        (.panic, ⟨push⟩, out.take recordHeadBytes ++ ciphertext ++ beyond)
      | (.ok authTag, push, ciphertext) =>
        (.ok recordLen, ⟨push⟩,
          tag.toByte :: (leBytes 4 plaintext.length).toList ++ ciphertext ++ authTag.toList
            ++ beyond.drop tagLen)

/-- Seals one full non-final chunk into `out`, which then holds exactly one record. -/
def sealChunk (b : Build) (enc : FileEncryptor) (chunk : Vector UInt8 chunkBytes)
    (out : Vector UInt8 maxRecordBytes) :
    Outcome FileError Unit × FileEncryptor × Vector UInt8 maxRecordBytes :=
  match enc.sealRecord b .message chunk.toList out.toList with
  | (.ok _, enc, record) => (.ok (), enc, overwrite out record)
  | (.err e, enc, record) => (.err e, enc, overwrite out record)
  | (.panic, enc, record) => (.panic, enc, overwrite out record)

/-- Seals the last bytes as the `Final` record. -/
def sealFinal (b : Build) (enc : FileEncryptor) (last out : List UInt8) :
    Outcome FileError Nat × FileEncryptor × List UInt8 :=
  enc.sealRecord b .final last out

/-- The loop of `seal_all`: full chunks while more than one chunk is left. -/
def sealRest (b : Build) (enc : FileEncryptor) (record : Vector UInt8 maxRecordBytes)
    (rest out : List UInt8) : Outcome FileError Unit × FileEncryptor × List UInt8 :=
  if hlen : chunkBytes < rest.length then
    match enc.sealChunk b (headChunk chunkBytes rest (Nat.le_of_lt hlen)) record with
    | (.ok (), enc, record) => sealRest b enc record (rest.drop chunkBytes) (out ++ record.toList)
    | (.err e, enc, _) => (.err e, enc, out)
    | (.panic, enc, _) => (.panic, enc, out)
  else
    match enc.sealFinal b rest record.toList with
    | (.ok n, enc, record) => (.ok (), enc, out ++ record.take n)
    | (.err e, enc, _) => (.err e, enc, out)
    | (.panic, enc, _) => (.panic, enc, out)
termination_by rest.length
decreasing_by exact length_drop_chunk_lt hlen

/-- Appends the records for `plaintext` to `out`. -/
def sealAll (b : Build) (enc : FileEncryptor) (plaintext out : List UInt8) :
    Outcome FileError Unit × FileEncryptor × List UInt8 :=
  sealRest b enc (Vector.replicate maxRecordBytes 0) plaintext out

end FileEncryptor

/-! ## The reader -/

/-- `State`: what the reader waits for. -/
inductive State where
  | version
  | header
  | recordHead
  | recordBody (tagByte : UInt8) (len : Nat)
  | afterFinal
  | done
  deriving DecidableEq, Repr

structure FileDecryptor where
  key : Vector UInt8 32
  pull : Option PullState
  state : State
  finalPlaintext : Vector UInt8 chunkBytes
  finalLen : Nat
  deriving DecidableEq

namespace FileDecryptor

def new (key : Vector UInt8 32) : FileDecryptor where
  key := key
  pull := none
  state := .version
  finalPlaintext := Vector.replicate chunkBytes 0
  finalLen := 0

/-- How many bytes `feed` wants next; 0 once finished or failed. -/
def nextLen (dec : FileDecryptor) : Nat :=
  match dec.state with
  | .version => 1
  | .afterFinal => 1
  | .header => headerBytes
  | .recordHead => recordHeadBytes
  | .recordBody _ len => len + tagLen
  | .done => 0

/-- The failed, or finished, decryptor: everything wiped. -/
def fail (_dec : FileDecryptor) : FileDecryptor where
  key := Vector.replicate 32 0
  pull := none
  state := .done
  finalPlaintext := Vector.replicate chunkBytes 0
  finalLen := 0

/-- One transition. `feed` has checked the length of `input`, so that the defaults
below are never read. -/
def step (b : Build) (dec : FileDecryptor) (input plaintextOut : List UInt8) :
    Except FileError Nat × FileDecryptor × List UInt8 :=
  match dec.state with
  | .version =>
    if input.getD 0 0 ≠ formatVersion then
      (.error (.unsupportedVersion (input.getD 0 0)), dec, plaintextOut)
    else (.ok 0, { dec with state := .header }, plaintextOut)
  | .header =>
    let header := overwrite (Vector.replicate 32 0) input
    (.ok 0, { dec with
      pull := some (PullState.init b dec.key header)
      key := Vector.replicate 32 0
      state := .recordHead }, plaintextOut)
  | .recordHead =>
    let tagByte := input.getD 0 0
    let declared :=
      UInt32.ofNat (leNat [input.getD 1 0, input.getD 2 0, input.getD 3 0, input.getD 4 0])
    let len := declared.toNat
    -- also what a `usize` too narrow for `declared` would come to
    if len > chunkBytes then (.error (.chunkTooLarge declared), dec, plaintextOut)
    else
      match Tag.fromByte tagByte with
      | none => (.error .unknownTag, dec, plaintextOut)
      | some tag =>
        if tag ≠ .final ∧ len ≠ chunkBytes then
          (.error (.badChunkLength declared), dec, plaintextOut)
        else (.ok 0, { dec with state := .recordBody tagByte len }, plaintextOut)
  | .recordBody tagByte len =>
    let ciphertext := input.take len
    let authTag := input.drop len
    match dec.pull with
    | none => (.error .finished, dec, plaintextOut)
    | some pull =>
      if tagByte = Tag.final.toByte then
        -- held back: the caller's buffer is not touched
        match pull.pull b tagByte ciphertext authTag (dec.finalPlaintext.toList.take len) with
        | (.error e, pull, held) =>
          (.error (.ofSecretstream e), { dec with
            pull := some pull
            finalPlaintext := overwrite dec.finalPlaintext held }, plaintextOut)
        | (.ok _, pull, held) =>
          (.ok 0, { dec with
            pull := some pull
            finalPlaintext := overwrite dec.finalPlaintext held
            finalLen := len
            state := .afterFinal }, plaintextOut)
      else
        match pull.pull b tagByte ciphertext authTag (plaintextOut.take len) with
        | (.error e, pull, opened) =>
          (.error (.ofSecretstream e), { dec with pull := some pull },
            opened ++ plaintextOut.drop len)
        | (.ok _, pull, opened) =>
          (.ok len, { dec with pull := some pull, state := .recordHead },
            opened ++ plaintextOut.drop len)
  | .afterFinal => (.error .trailingData, dec, plaintextOut)
  | .done => (.error .finished, dec, plaintextOut)

/-- Consumes exactly `nextLen` bytes. Returns how many plaintext bytes it wrote to the
start of `plaintextOut`. -/
def feed (b : Build) (dec : FileDecryptor) (input plaintextOut : List UInt8) :
    Except FileError Nat × FileDecryptor × List UInt8 :=
  if dec.state = .done then (.error .finished, dec, plaintextOut)
  else if input.length ≠ dec.nextLen ∨ plaintextOut.length < chunkBytes then
    (.error .invalidLength, dec, plaintextOut)
  else
    match dec.step b input plaintextOut with
    | (.error e, dec, plaintextOut) => (.error e, dec.fail, plaintextOut)
    | (.ok n, dec, plaintextOut) => (.ok n, dec, plaintextOut)

/-- The input ended. Returns the `Final` record's plaintext length, written to
`plaintextOut`. -/
def finish (dec : FileDecryptor) (plaintextOut : List UInt8) :
    Except FileError Nat × FileDecryptor × List UInt8 :=
  if dec.state = .done then (.error .finished, dec, plaintextOut)
  else if plaintextOut.length < chunkBytes then (.error .invalidLength, dec, plaintextOut)
  else if dec.state = .afterFinal then
    let len := dec.finalLen
    (.ok len, dec.fail, dec.finalPlaintext.toList.take len ++ plaintextOut.drop len)
  else (.error .truncated, dec.fail, plaintextOut)

end FileDecryptor

/-- The state of `open_all`: the decryptor and the buffer it writes to. -/
structure Opening where
  dec : FileDecryptor
  chunk : Vector UInt8 chunkBytes

/-- The reader `open_all` loops over: each call's plaintext is the front of the buffer. -/
def fileReader (b : Build) : Reader Opening FileError UInt8 UInt8 where
  want s := s.dec.nextLen
  feed s input :=
    match s.dec.feed b input s.chunk.toList with
    | (.error e, _, _) => .error e
    | (.ok n, dec, chunk) => .ok (chunk.take n, ⟨dec, overwrite s.chunk chunk⟩)
  finish s :=
    match s.dec.finish s.chunk.toList with
    | (.error e, _, _) => .error e
    | (.ok n, _, chunk) => .ok (chunk.take n)
  want_pos {s input out s'} hfeed := by
    by_cases hdone : s.dec.state = .done
    · rw [FileDecryptor.feed, if_pos hdone] at hfeed
      cases hfeed
    · rw [FileDecryptor.nextLen]
      cases hstate : s.dec.state with
      | done => exact absurd hstate hdone
      | _ => simp [headerBytes, recordHeadBytes, tagLen]

/-- Reads a stream file in memory to its end. -/
def openAll (b : Build) (dec : FileDecryptor) (file : List UInt8) : Except FileError (List UInt8) :=
  (fileReader b).read ⟨dec, Vector.replicate chunkBytes 0⟩ file

/-! ## Records -/

/-- A record's tag byte and length. -/
def recordHead (tagByte : UInt8) (len : Nat) : List UInt8 := tagByte :: (leBytes 4 len).toList

/-- A record's ciphertext and auth tag. -/
def Wire.body (wire : Wire) : List UInt8 := wire.ciphertext ++ wire.authTag.toList

/-- A record. -/
def Wire.frame (wire : Wire) : List UInt8 :=
  recordHead wire.tagByte wire.ciphertext.length ++ wire.body

@[simp] theorem length_recordHead (tagByte : UInt8) (len : Nat) :
    (recordHead tagByte len).length = recordHeadBytes := by
  simp [recordHead, recordHeadBytes]

@[simp] theorem Wire.length_body (wire : Wire) :
    wire.body.length = wire.ciphertext.length + tagLen := by
  rw [Wire.body, List.length_append, Vector.length_toList, tagLen]

theorem Wire.length_frame (wire : Wire) :
    wire.frame.length = wire.ciphertext.length + recordOverheadBytes := by
  rw [Wire.frame, List.length_append, length_recordHead, Wire.length_body, recordOverheadBytes]
  omega

/-- The five bytes of a head, read as the code reads them. -/
theorem eq_recordHead_iff {input : List UInt8} (hlen : input.length = recordHeadBytes)
    (tagByte : UInt8) {len : Nat} (hfits : len < 2 ^ 32) :
    input = recordHead tagByte len
      ↔ input.getD 0 0 = tagByte ∧ (UInt32.ofNat (leNat [input.getD 1 0, input.getD 2 0,
          input.getD 3 0, input.getD 4 0])).toNat = len := by
  -- the length check leaves five named bytes
  obtain ⟨t, b₀, b₁, b₂, b₃, rfl⟩ : ∃ t b₀ b₁ b₂ b₃, input = [t, b₀, b₁, b₂, b₃] := by
    match input, hlen with
    | [t, b₀, b₁, b₂, b₃], _ => exact ⟨t, b₀, b₁, b₂, b₃, rfl⟩
  have hlt : leNat [b₀, b₁, b₂, b₃] < 2 ^ 32 := by
    simpa using leNat_lt [b₀, b₁, b₂, b₃]
  have hdeclared : (UInt32.ofNat (leNat [b₀, b₁, b₂, b₃])).toNat = leNat [b₀, b₁, b₂, b₃] := by
    rw [UInt32.toNat_ofNat', Nat.mod_eq_of_lt hlt]
  show [t, b₀, b₁, b₂, b₃] = recordHead tagByte len
    ↔ t = tagByte ∧ (UInt32.ofNat (leNat [b₀, b₁, b₂, b₃])).toNat = len
  rw [hdeclared, recordHead, List.cons.injEq]
  refine and_congr_right fun _ => ?_
  constructor
  · intro h
    rw [h]
    exact leNat_leBytes_of_lt hfits
  · rintro rfl
    exact congrArg Vector.toList (leBytes_leNat #v[b₀, b₁, b₂, b₃]).symm

section

variable (b : Build)

namespace FileEncryptor

variable {enc enc' : FileEncryptor} {tag : Tag} {plaintext out : List UInt8}

/-- A sealed record is the frame of a pushed chunk. -/
theorem sealRecord_of_pushChunk {st' : PushState} {wire : Wire}
    (h : enc.push.pushChunk b (tag, plaintext) = some (wire, st'))
    (hlen : plaintext.length ≤ chunkBytes)
    (hout : plaintext.length + recordOverheadBytes ≤ out.length) :
    enc.sealRecord b tag plaintext out
      = (.ok wire.frame.length, ⟨st'⟩, wire.frame ++ out.drop wire.frame.length) := by
  have hbuf : ((out.drop recordHeadBytes).take plaintext.length).length = plaintext.length := by
    rw [List.length_take_of_le]
    rw [List.length_drop]
    rw [recordOverheadBytes] at hout
    omega
  have hpush := push_of_pushChunk b h hbuf
  have hopen := ((push_eq_ok_iff b).mp hpush).1.1.not_finalized
  have hct := length_eq_of_push b hpush
  have htag := ((pushChunk_eq_some b).mp h).1
  have hguard : ¬(plaintext.length > chunkBytes
      ∨ out.length < plaintext.length + recordOverheadBytes) := by omega
  have hfits : plaintext.length < 2 ^ 32 := Nat.lt_of_le_of_lt hlen (by decide)
  rw [sealRecord, if_neg (by simp [hopen])]
  simp only [if_neg hguard, if_neg (not_not_intro hfits), hpush]
  rw [List.drop_drop, wire.length_frame, hct]
  simp only [Wire.frame, Wire.body, recordHead, htag, hct, recordOverheadBytes, List.append_assoc,
    List.cons_append, Nat.add_assoc, Nat.add_comm, Nat.add_left_comm]

theorem pushChunk_of_sealRecord {n : Nat} {record : List UInt8}
    (h : enc.sealRecord b tag plaintext out = (.ok n, enc', record)) :
    plaintext.length ≤ chunkBytes ∧ plaintext.length + recordOverheadBytes ≤ out.length
      ∧ ∃ wire, enc.push.pushChunk b (tag, plaintext) = some (wire, enc'.push) := by
  rw [sealRecord] at h
  split at h
  · cases h
  · dsimp only at h
    split at h
    · cases h
    · rename_i hguard
      split at h
      · cases h
      · split at h
        · cases h
        · cases h
        · rename_i hpush
          cases h
          exact ⟨by omega, by omega, _, pushChunk_of_push b hpush⟩

/-- One record sealed into a fresh record buffer. -/
def emit (enc : FileEncryptor) (chunk : Chunk) : Option (List UInt8 × FileEncryptor) :=
  match enc.sealRecord b chunk.1 chunk.2 (List.replicate maxRecordBytes 0) with
  | (.ok n, enc, record) => some (record.take n, enc)
  | _ => none

/-- What is emitted: the frame of the chunk pushed. -/
theorem emit_eq_some_iff {chunk : Chunk} {record : List UInt8} :
    enc.emit b chunk = some (record, enc')
      ↔ chunk.2.length ≤ chunkBytes ∧ ∃ wire,
        enc.push.pushChunk b chunk = some (wire, enc'.push) ∧ record = wire.frame := by
  obtain ⟨tag, plaintext⟩ := chunk
  constructor
  · intro h
    rw [emit] at h
    split at h
    · rename_i n enc'' record' hseal
      cases h
      obtain ⟨hlen, hout, wire, hpush⟩ := pushChunk_of_sealRecord b hseal
      rw [sealRecord_of_pushChunk b hpush hlen hout] at hseal
      cases hseal
      exact ⟨hlen, wire, hpush, List.take_left⟩
    · cases h
  · rintro ⟨hlen, wire, hpush, rfl⟩
    rw [emit, sealRecord_of_pushChunk b hpush hlen (by
      rw [List.length_replicate, maxRecordBytes]
      exact Nat.add_le_add_right hlen _)]
    simp only [List.take_left]

end FileEncryptor

end

/-! ## What a call can do -/

namespace FileDecryptor

/-- What holds of every decryptor a run can reach. -/
def Inv (dec : FileDecryptor) : Prop :=
  match dec.state with
  | .version => True
  | .header => True
  | .recordHead => ∃ pull, dec.pull = some pull ∧ pull.finalized = false
  | .recordBody tagByte len =>
    ∃ tag pull, tagByte = Tag.toByte tag ∧ len ≤ chunkBytes ∧ (tag ≠ .final → len = chunkBytes)
      ∧ dec.pull = some pull ∧ pull.finalized = false
  | .afterFinal => (∃ pull, dec.pull = some pull) ∧ dec.finalLen ≤ chunkBytes
  | .done => True

theorem Inv.len_le {dec : FileDecryptor} {tagByte : UInt8} {len : Nat} (hinv : dec.Inv)
    (hstate : dec.state = .recordBody tagByte len) : len ≤ chunkBytes := by
  rw [Inv, hstate] at hinv
  obtain ⟨-, -, -, hle, -⟩ := hinv
  exact hle

/-- `Accepts b dec input released dec'`: in state `dec` the reader takes `input`,
releases the plaintext `released`, and moves on to `dec'`. -/
inductive Accepts (b : Build) (dec : FileDecryptor) :
    List UInt8 → List UInt8 → FileDecryptor → Prop
  | version (hstate : dec.state = .version) :
    Accepts b dec [formatVersion] [] { dec with state := .header }
  | header (hstate : dec.state = .header) (header : Vector UInt8 32) :
    Accepts b dec header.toList [] { dec with
      pull := some (PullState.init b dec.key header)
      key := Vector.replicate 32 0
      state := .recordHead }
  | recordHead {tag : Tag} {len : Nat} (hstate : dec.state = .recordHead)
      (hlen : len ≤ chunkBytes) (hfull : tag ≠ .final → len = chunkBytes) :
    Accepts b dec (recordHead tag.toByte len) [] { dec with state := .recordBody tag.toByte len }
  | body {wire : Wire} {tag : Tag} {plaintext : List UInt8} {pull pull' : PullState}
      (hstate : dec.state = .recordBody wire.tagByte wire.ciphertext.length)
      (hpull : dec.pull = some pull) (htag : tag ≠ .final)
      (hopen : pull.pullChunk b wire = some ((tag, plaintext), pull')) :
    Accepts b dec wire.body plaintext { dec with pull := some pull', state := .recordHead }
  | final {wire : Wire} {plaintext : List UInt8} {pull pull' : PullState}
      (hstate : dec.state = .recordBody wire.tagByte wire.ciphertext.length)
      (hpull : dec.pull = some pull)
      (hopen : pull.pullChunk b wire = some ((.final, plaintext), pull')) :
    Accepts b dec wire.body [] { dec with
      pull := some pull'
      finalPlaintext := overwrite dec.finalPlaintext plaintext
      finalLen := wire.ciphertext.length
      state := .afterFinal }

section

variable {b : Build} {dec dec' : FileDecryptor} {input released out : List UInt8}

theorem Accepts.length_input (h : Accepts b dec input released dec') :
    input.length = dec.nextLen := by
  rw [nextLen]
  cases h with
  | version hstate => rw [hstate]; rfl
  | header hstate header => rw [hstate, Vector.length_toList]; rfl
  | recordHead hstate => rw [hstate, length_recordHead]
  | body hstate => rw [hstate, Wire.length_body]
  | final hstate => rw [hstate, Wire.length_body]

theorem Accepts.state_ne (h : Accepts b dec input released dec') :
    dec.state ≠ .afterFinal ∧ dec.state ≠ .done := by
  cases h with
  | version hstate => simp [hstate]
  | header hstate header => simp [hstate]
  | recordHead hstate => simp [hstate]
  | body hstate => simp [hstate]
  | final hstate => simp [hstate]

theorem Accepts.at_version (hs : dec.state = .version) (h : Accepts b dec input released dec') :
    input = [formatVersion] ∧ released = [] ∧ dec' = { dec with state := .header } := by
  cases h with
  | version hstate => exact ⟨rfl, rfl, rfl⟩
  | header hstate header => simp [hs] at hstate
  | recordHead hstate => simp [hs] at hstate
  | body hstate => simp [hs] at hstate
  | final hstate => simp [hs] at hstate

theorem Accepts.at_header (hs : dec.state = .header) (h : Accepts b dec input released dec') :
    ∃ header : Vector UInt8 32, input = header.toList ∧ released = [] ∧ dec' = { dec with
      pull := some (PullState.init b dec.key header)
      key := Vector.replicate 32 0
      state := .recordHead } := by
  cases h with
  | header hstate header => exact ⟨header, rfl, rfl, rfl⟩
  | version hstate => simp [hs] at hstate
  | recordHead hstate => simp [hs] at hstate
  | body hstate => simp [hs] at hstate
  | final hstate => simp [hs] at hstate

/-- What is taken while a record head is due. -/
theorem Accepts.at_recordHead (hs : dec.state = .recordHead)
    (h : Accepts b dec input released dec') :
    ∃ tag len, input = Secretstream.recordHead (Tag.toByte tag) len ∧ released = []
      ∧ len ≤ chunkBytes ∧ (tag ≠ .final → len = chunkBytes)
      ∧ dec' = { dec with state := .recordBody tag.toByte len } := by
  cases h with
  | recordHead hstate hlen hfull => exact ⟨_, _, rfl, rfl, hlen, hfull, rfl⟩
  | version hstate => simp [hs] at hstate
  | header hstate header => simp [hs] at hstate
  | body hstate => simp [hs] at hstate
  | final hstate => simp [hs] at hstate

/-- What is taken while a record body is due. -/
theorem Accepts.at_recordBody {tagByte : UInt8} {len : Nat}
    (hs : dec.state = .recordBody tagByte len) (h : Accepts b dec input released dec') :
    ∃ wire tag piece pull pull', input = Wire.body wire ∧ wire.tagByte = tagByte
      ∧ wire.ciphertext.length = len ∧ dec.pull = some pull
      ∧ pull.pullChunk b wire = some ((tag, piece), pull')
      ∧ ((tag ≠ .final ∧ released = piece
          ∧ dec' = { dec with pull := some pull', state := .recordHead })
        ∨ (tag = .final ∧ released = [] ∧ dec' = { dec with
            pull := some pull'
            finalPlaintext := overwrite dec.finalPlaintext piece
            finalLen := wire.ciphertext.length
            state := .afterFinal })) := by
  cases h with
  | version hstate => simp [hs] at hstate
  | header hstate header => simp [hs] at hstate
  | recordHead hstate => simp [hs] at hstate
  | @body wire tag _ pull pull' hstate hpull htag hopen =>
    obtain ⟨rfl, rfl⟩ := State.recordBody.inj (hs.symm.trans hstate)
    exact ⟨wire, tag, released, pull, pull', rfl, rfl, rfl, hpull, hopen,
      Or.inl ⟨htag, rfl, rfl⟩⟩
  | @final wire piece pull pull' hstate hpull hopen =>
    obtain ⟨rfl, rfl⟩ := State.recordBody.inj (hs.symm.trans hstate)
    exact ⟨wire, .final, piece, pull, pull', rfl, rfl, rfl, hpull, hopen,
      Or.inr ⟨rfl, rfl, rfl⟩⟩

/-- A tag byte names one tag. -/
theorem tag_of_pullChunk {pull pull' : PullState} {wire : Wire} {chunk : Chunk}
    (h : pull.pullChunk b wire = some (chunk, pull')) : wire.tagByte = chunk.1.toByte :=
  ((pushChunk_eq_some b).mp ((pullChunk_eq_some_iff b).mp h)).1

theorem step_of_accepts (hinv : dec.Inv) (h : Accepts b dec input released dec')
    (hout : chunkBytes ≤ out.length) :
    dec.step b input out = (.ok released.length, dec', released ++ out.drop released.length) := by
  cases h with
  | version hstate =>
    rw [step, hstate]
    rfl
  | header hstate header =>
    rw [step, hstate]
    have hheader : overwrite (Vector.replicate 32 0) header.toList = header :=
      Vector.toList_inj.mp (toList_overwrite_of_length _ (by simp))
    simp only [hheader]
    rfl
  | @recordHead tag len hstate hlen hfull =>
    have hfits : len < 2 ^ 32 := Nat.lt_of_le_of_lt hlen (by decide)
    obtain ⟨htag, hdeclared⟩ :=
      (eq_recordHead_iff (length_recordHead tag.toByte len) tag.toByte hfits).mp rfl
    have hfull' : ¬(tag ≠ .final ∧ len ≠ chunkBytes) := fun hbad => hbad.2 (hfull hbad.1)
    rw [step, hstate]
    simp only [htag, hdeclared, Nat.not_lt_of_le hlen, if_false, Tag.fromByte_toByte,
      if_neg hfull']
    rfl
  | @body wire tag plaintext pull pull' hstate hpull htag hopen =>
    have hlen := length_eq_of_pullChunk b hopen
    have hle := hinv.len_le hstate
    have hne : ¬wire.tagByte = Tag.final.toByte := fun heq =>
      htag (Tag.toByte_inj ((tag_of_pullChunk hopen).symm.trans heq))
    have hbuf : (out.take wire.ciphertext.length).length = wire.ciphertext.length :=
      List.length_take_of_le (Nat.le_trans hle hout)
    rw [step, hstate]
    simp only [Wire.body, List.take_left, List.drop_left, hpull, if_neg hne,
      pull_of_pullChunk b hopen hbuf, hlen]
  | @final wire plaintext pull pull' hstate hpull hopen =>
    have hle := hinv.len_le hstate
    have hbuf : (dec.finalPlaintext.toList.take wire.ciphertext.length).length
        = wire.ciphertext.length :=
      List.length_take_of_le (by rwa [Vector.length_toList])
    rw [step, hstate]
    simp only [Wire.body, List.take_left, List.drop_left, hpull, if_pos (tag_of_pullChunk hopen),
      pull_of_pullChunk b hopen hbuf]
    rfl

/-- What a refused `feed` leaves in the caller's buffer: the old contents, or zeros
where a non-final record would have gone. -/
def Refused (dec : FileDecryptor) (out out' : List UInt8) : Prop :=
  out' = out ∨ ∃ tagByte len, dec.state = .recordBody tagByte len ∧ tagByte ≠ Tag.final.toByte
    ∧ out' = List.replicate len 0 ++ out.drop len

/-- An error the reader reports once and then fails for good. -/
def Fatal (e : FileError) : Prop := e ≠ .invalidLength ∧ e ≠ .finished

theorem fatal_ofSecretstream {e : SecretstreamError}
    (h : e = .tagMismatch ∨ e = .counterExhausted) : Fatal (.ofSecretstream e) := by
  rcases h with rfl | rfl
  · exact ⟨by decide, by decide⟩
  · exact ⟨by decide, by decide⟩

/-- A pull of a record body, whole or refused. -/
theorem pull_body_cases {pull : PullState} (tag : Tag) {len : Nat} {buf : List UInt8}
    (hlen : input.length = len + tagLen) (hle : len ≤ chunkBytes) (hopen : pull.finalized = false)
    (hbuf : buf.length = len) :
    (∃ wire pull' plaintext, wire.tagByte = tag.toByte ∧ wire.ciphertext.length = len
        ∧ input = wire.body ∧ pull.pullChunk b wire = some ((tag, plaintext), pull'))
      ∨ ∃ e, (e = .tagMismatch ∨ e = .counterExhausted)
        ∧ pull.pull b tag.toByte (input.take len) (input.drop len) buf
          = (.error e, pull, refusedBuffer e buf) := by
  have hct : (input.take len).length = len := List.length_take_of_le (by omega)
  have hauth : (input.drop len).length = 16 := by
    rw [List.length_drop, hlen, tagLen]
    omega
  rcases pull_cases b pull tag.toByte (input.take len) (input.drop len) buf with
    ⟨tag', out', htag, -, -, -, -, hok⟩ | ⟨e, herr⟩
  · left
    obtain rfl := Tag.toByte_inj htag
    obtain ⟨-, auth, hauth', hpull⟩ := pullChunk_of_pull b hok
    refine ⟨_, _, out', rfl, hct, ?_, hpull⟩
    rw [Wire.body, ← hauth', List.take_append_drop]
  · right
    have hbits : (input.take len).length * 8 < 2 ^ 64 := by
      have hchunk : chunkBytes * 8 < 2 ^ 64 := by decide
      omega
    exact ⟨e, pull_error_of_open b hopen ⟨by rw [hbuf, hct], hauth⟩ hbits (by rw [herr]), herr⟩

/-- Everything a transition can do: it goes where `Accepts` says, or reports an error
that is neither a length error nor `Finished`. -/
def StepCases (b : Build) (dec : FileDecryptor) (input out : List UInt8) : Prop :=
  (∃ released dec', Accepts b dec input released dec')
    ∨ ∃ e dec' out', Fatal e ∧ Refused dec out out' ∧ dec.step b input out = (.error e, dec', out')

theorem stepCases_version (hs : dec.state = .version) (hlen : input.length = 1) :
    StepCases b dec input out := by
  obtain ⟨v, rfl⟩ := List.length_eq_one_iff.mp hlen
  by_cases hv : v = formatVersion
  · subst hv
    exact Or.inl ⟨_, _, .version hs⟩
  · refine Or.inr ⟨.unsupportedVersion v, dec, out, ⟨by simp, by simp⟩, Or.inl rfl, ?_⟩
    rw [step, hs]
    exact if_pos hv

theorem stepCases_recordHead (hs : dec.state = .recordHead)
    (hlen : input.length = recordHeadBytes) : StepCases b dec input out := by
  have hread := fun tagByte (len : Nat) (hfits : len < 2 ^ 32) =>
    eq_recordHead_iff hlen tagByte hfits
  generalize hdeclared : UInt32.ofNat (leNat [input.getD 1 0, input.getD 2 0, input.getD 3 0,
    input.getD 4 0]) = declared at hread
  by_cases hle : declared.toNat ≤ chunkBytes
  · cases htag : Tag.fromByte (input.getD 0 0) with
    | none =>
      refine Or.inr ⟨.unknownTag, dec, out, ⟨by simp, by simp⟩, Or.inl rfl, ?_⟩
      rw [step, hs]
      simp only [hdeclared, Nat.not_lt_of_le hle, if_false, htag]
    | some tag =>
      by_cases hfull : tag ≠ .final → declared.toNat = chunkBytes
      · left
        have hhead := (hread (input.getD 0 0) declared.toNat declared.toNat_lt).mpr ⟨rfl, rfl⟩
        rw [hhead, Tag.fromByte_eq_some_iff.mp htag]
        exact ⟨_, _, .recordHead hs hle hfull⟩
      · refine Or.inr ⟨.badChunkLength declared, dec, out, ⟨by simp, by simp⟩, Or.inl rfl, ?_⟩
        rw [step, hs]
        simp only [hdeclared, Nat.not_lt_of_le hle, if_false, htag]
        rw [if_pos (Classical.not_imp.mp hfull)]
  · refine Or.inr ⟨.chunkTooLarge declared, dec, out, ⟨by simp, by simp⟩, Or.inl rfl, ?_⟩
    rw [step, hs]
    simp only [hdeclared, Nat.lt_of_not_le hle, if_true]

theorem stepCases_final {pull : PullState} {len : Nat}
    (hs : dec.state = .recordBody Tag.final.toByte len) (hlen : input.length = len + tagLen)
    (hle : len ≤ chunkBytes) (hpull : dec.pull = some pull) (hopen : pull.finalized = false) :
    StepCases b dec input out := by
  have hbuf : (dec.finalPlaintext.toList.take len).length = len :=
    List.length_take_of_le (by rwa [Vector.length_toList])
  rcases pull_body_cases (b := b) .final hlen hle hopen hbuf with
    ⟨wire, pull', plaintext, hbyte, rfl, rfl, hok⟩ | ⟨e, he, herr⟩
  · rw [← hbyte] at hs
    exact Or.inl ⟨_, _, .final hs hpull hok⟩
  · refine Or.inr ⟨.ofSecretstream e, { dec with
      pull := some pull
      finalPlaintext := overwrite dec.finalPlaintext
        (refusedBuffer e (dec.finalPlaintext.toList.take len)) },
      out, fatal_ofSecretstream he, Or.inl rfl, ?_⟩
    rw [step, hs]
    simp only [hpull, if_true, herr]

theorem stepCases_body {pull : PullState} {tag : Tag} {len : Nat} (htag : tag ≠ .final)
    (hs : dec.state = .recordBody tag.toByte len) (hlen : input.length = len + tagLen)
    (hle : len ≤ chunkBytes) (hpull : dec.pull = some pull) (hopen : pull.finalized = false)
    (hout : chunkBytes ≤ out.length) : StepCases b dec input out := by
  have hne : ¬tag.toByte = Tag.final.toByte := fun heq => htag (Tag.toByte_inj heq)
  have hbuf : (out.take len).length = len := List.length_take_of_le (Nat.le_trans hle hout)
  rcases pull_body_cases (b := b) tag hlen hle hopen hbuf with
    ⟨wire, pull', plaintext, hbyte, rfl, rfl, hok⟩ | ⟨e, he, herr⟩
  · rw [← hbyte] at hs
    exact Or.inl ⟨_, _, .body hs hpull htag hok⟩
  · refine Or.inr ⟨.ofSecretstream e, { dec with pull := some pull },
      refusedBuffer e (out.take len) ++ out.drop len, fatal_ofSecretstream he, ?_, ?_⟩
    · rw [refusedBuffer]
      split
      · exact Or.inr ⟨_, _, hs, hne, by rw [hbuf]⟩
      · exact Or.inl (List.take_append_drop _ _)
    · rw [step, hs]
      simp only [hpull, if_neg hne, herr]

theorem step_cases (hinv : dec.Inv) (hstate : dec.state ≠ .done)
    (hlen : input.length = dec.nextLen) (hout : chunkBytes ≤ out.length) :
    StepCases b dec input out := by
  rw [nextLen] at hlen
  cases hs : dec.state with
  | version =>
    rw [hs] at hlen
    exact stepCases_version hs hlen
  | header =>
    rw [hs] at hlen
    have hheader : (overwrite (Vector.replicate 32 0) input).toList = input :=
      toList_overwrite_of_length _ hlen
    left
    rw [← hheader]
    exact ⟨_, _, .header hs _⟩
  | recordHead =>
    rw [hs] at hlen
    exact stepCases_recordHead hs hlen
  | recordBody tagByte len =>
    rw [hs] at hlen
    rw [Inv, hs] at hinv
    obtain ⟨tag, pull, rfl, hle, -, hpull, hopen⟩ := hinv
    by_cases htag : tag = .final
    · subst htag
      exact stepCases_final hs hlen hle hpull hopen
    · exact stepCases_body htag hs hlen hle hpull hopen hout
  | afterFinal =>
    refine Or.inr ⟨.trailingData, dec, out, ⟨by simp, by simp⟩, Or.inl rfl, ?_⟩
    rw [step, hs]
  | done => exact absurd hs hstate

/-! ### Feed and finish -/

theorem feed_of_accepts (hinv : dec.Inv) (h : Accepts b dec input released dec')
    (hout : chunkBytes ≤ out.length) :
    dec.feed b input out = (.ok released.length, dec', released ++ out.drop released.length) := by
  have hpass : ¬(input.length ≠ dec.nextLen ∨ out.length < chunkBytes) := by
    rw [not_or, not_not]
    exact ⟨h.length_input, Nat.not_lt_of_le hout⟩
  rw [feed, if_neg h.state_ne.2, if_neg hpass, step_of_accepts hinv h hout]

/-- Everything a `feed` can do. -/
theorem feed_cases (b : Build) (hinv : dec.Inv) (input out : List UInt8) :
    (dec.state = .done ∧ dec.feed b input out = (.error .finished, dec, out))
      ∨ (dec.state ≠ .done ∧ dec.feed b input out = (.error .invalidLength, dec, out))
      ∨ (∃ released dec', Accepts b dec input released dec'
        ∧ dec.feed b input out
          = (.ok released.length, dec', released ++ out.drop released.length))
      ∨ ∃ e out', dec.state ≠ .done ∧ Fatal e ∧ Refused dec out out'
        ∧ dec.feed b input out = (.error e, dec.fail, out') := by
  by_cases hdone : dec.state = .done
  · exact Or.inl ⟨hdone, by rw [feed, if_pos hdone]⟩
  · by_cases hguard : input.length ≠ dec.nextLen ∨ out.length < chunkBytes
    · exact Or.inr (Or.inl ⟨hdone, by rw [feed, if_neg hdone, if_pos hguard]⟩)
    · have hlen : input.length = dec.nextLen := by
        rw [not_or, not_not] at hguard
        exact hguard.1
      have hout : chunkBytes ≤ out.length := by
        rw [not_or] at hguard
        exact Nat.le_of_not_lt hguard.2
      rcases step_cases (b := b) hinv hdone hlen hout with
        ⟨released, dec', haccepts⟩ | ⟨e, dec', out', hfatal, hrefused, hstep⟩
      · exact Or.inr (Or.inr (Or.inl ⟨released, dec', haccepts,
          feed_of_accepts hinv haccepts hout⟩))
      · refine Or.inr (Or.inr (Or.inr ⟨e, out', hdone, hfatal, hrefused, ?_⟩))
        rw [feed, if_neg hdone, if_neg hguard, hstep]
        rfl

/-- Everything a `finish` can do. -/
theorem finish_cases (dec : FileDecryptor) (out : List UInt8) :
    (dec.state = .done ∧ dec.finish out = (.error .finished, dec, out))
      ∨ (dec.state ≠ .done ∧ dec.finish out = (.error .invalidLength, dec, out))
      ∨ (dec.state = .afterFinal ∧ dec.finish out = (.ok dec.finalLen, dec.fail,
          dec.finalPlaintext.toList.take dec.finalLen ++ out.drop dec.finalLen))
      ∨ (dec.state ≠ .done ∧ dec.state ≠ .afterFinal
        ∧ dec.finish out = (.error .truncated, dec.fail, out)) := by
  by_cases hdone : dec.state = .done
  · exact Or.inl ⟨hdone, by rw [finish, if_pos hdone]⟩
  · by_cases hout : out.length < chunkBytes
    · exact Or.inr (Or.inl ⟨hdone, by rw [finish, if_neg hdone, if_pos hout]⟩)
    · by_cases hafter : dec.state = .afterFinal
      · refine Or.inr (Or.inr (Or.inl ⟨hafter, ?_⟩))
        rw [finish, if_neg hdone, if_neg hout, if_pos hafter]
      · refine Or.inr (Or.inr (Or.inr ⟨hdone, hafter, ?_⟩))
        rw [finish, if_neg hdone, if_neg hout, if_neg hafter]

theorem inv_new (key : Vector UInt8 32) : (new key).Inv := trivial

theorem inv_fail (dec : FileDecryptor) : dec.fail.Inv := trivial

theorem Accepts.inv (hinv : dec.Inv) (h : Accepts b dec input released dec') : dec'.Inv := by
  cases h with
  | version => trivial
  | header => exact ⟨_, rfl, rfl⟩
  | @recordHead tag len hstate hlen hfull =>
    rw [Inv, hstate] at hinv
    obtain ⟨pull, hpull, hopen⟩ := hinv
    exact ⟨tag, pull, rfl, hlen, hfull, hpull, hopen⟩
  | @body wire tag plaintext pull pull' hstate hpull htag hopen =>
    refine ⟨pull', rfl, ?_⟩
    -- a chunk other than `Final` leaves the session open
    have hpush := (pullChunk_eq_some_iff b).mp hopen
    obtain ⟨hnext, -⟩ := next_of_pushChunk b hpush
    obtain ⟨⟨hready, -⟩, -⟩ := (push_eq_ok_iff b).mp ((pushChunk_eq_some b).mp hpush).2
    have hfinalized := congrArg PushState.finalized hnext
    rw [PushState.next, if_neg htag, hready.not_finalized] at hfinalized
    exact hfinalized
  | @final wire plaintext pull pull' hstate hpull hopen =>
    exact ⟨⟨pull', rfl⟩, hinv.len_le hstate⟩

end

end FileDecryptor

end UaCrypt.Secretstream
