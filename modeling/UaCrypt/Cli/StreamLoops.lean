import UaCrypt.Lib.ShortReads
import UaCrypt.Cli.Error
import UaCrypt.Secretstream.FileFormat

/-!
# The stream loops of the command line (`lib.rs`)

`write_stream_records` reads the plaintext one chunk ahead, so that it knows the last
chunk when it has it; `decrypt_stream_records` reads what the decryptor asks for. Both
read through `fill_chunk`, which makes up for short reads.

- `writeLoop_eq`: what is written is what `sealAll` appends, and the errors agree.
- `decryptLoop_eq`: the streamed result is `openAll`'s, and before an error only whole
  verified records are written.
-/

namespace UaCrypt.Cli

open Chunks Framing ShortReads FileTree Hazmat Secretstream

section

variable {σ ω : Type} (b : Build) (src : Source σ IoError UInt8) (source : PathName)
  (w : WriteOutput ω)

/-! ## Encrypting -/

/-- The loop of `write_stream_records`: `cur` is sealed once `next` has been looked at. -/
def writeLoop (enc : FileEncryptor) (record : Vector UInt8 maxRecordBytes) (cur : List UInt8)
    (curLen : Nat) (next : List UInt8) (s : σ) (out : ω) :
    Outcome CliError Unit × FileEncryptor × σ × ω :=
  match hfill : src.fill s next with
  | (.error e, _, s') => (.err (.io source e.message), enc, s', out)
  | (.ok nextLen, next', s') =>
    if hend : nextLen = 0 then
      match enc.sealFinal b (cur.take curLen) record.toList with
      | (.err e, enc, _) => (CliError.ofFile e, enc, s', out)
      | (.panic, enc, _) => (.panic, enc, s', out)
      | (.ok n, enc, record) =>
        match w.writeAll out (record.take n) with
        | (.error e, out) => (.err e, enc, s', out)
        | (.ok (), out) => (.ok (), enc, s', out)
    else if hfull : (cur.take curLen).length = chunkBytes then
      match enc.sealChunk b (headChunk chunkBytes (cur.take curLen) (Nat.le_of_eq hfull.symm))
        record with
      | (.err e, enc, _) => (CliError.ofFile e, enc, s', out)
      | (.panic, enc, _) => (.panic, enc, s', out)
      | (.ok (), enc, record) =>
        match w.writeAll out record.toList with
        | (.error e, out) => (.err e, enc, s', out)
        | (.ok (), out) =>
          have : (src.rest s').length < (src.rest s).length := by
            have hlen := Source.length_of_fill hfill
            omega
          -- `mem::swap(&mut cur, &mut next)`
          writeLoop enc record next' nextLen cur s' out
    -- `unreachable!`: a short chunk before the end of the input
    else (.panic, enc, s', out)
termination_by (src.rest s).length

/-- Writes one record per chunk of the input, the prefix being written already. -/
def writeStreamRecords (enc : FileEncryptor) (s : σ) (out : ω) :
    Outcome CliError Unit × FileEncryptor × σ × ω :=
  match src.fill s (List.replicate chunkBytes 0) with
  | (.error e, _, s') => (.err (.io source e.message), enc, s', out)
  | (.ok curLen, cur, s') =>
    writeLoop b src source w enc (Vector.replicate maxRecordBytes 0) cur curLen
      (List.replicate chunkBytes 0) s' out

/-! ## Decrypting -/

theorem nextLen_pos_of_feed {dec dec' : FileDecryptor} {input buf out : List UInt8} {n : Nat}
    (h : dec.feed b input buf = (.ok n, dec', out)) : 0 < dec.nextLen := by
  rw [FileDecryptor.feed] at h
  split at h
  · cases h
  · rename_i hdone
    rw [FileDecryptor.nextLen]
    cases hstate : dec.state with
    | done => exact absurd hstate hdone
    | _ => simp [headerBytes, recordHeadBytes, tagLen]

/-- The loop of `decrypt_stream_records`. -/
def decryptLoop (dec : FileDecryptor) (plaintext : Vector UInt8 chunkBytes)
    (buf : Vector UInt8 maxRecordBytes) (s : σ) (out : ω) :
    Outcome CliError Unit × FileDecryptor × σ × ω :=
  let want := dec.nextLen
  -- `&mut buf[..want]` beyond the buffer
  if maxRecordBytes < want then (.panic, dec, s, out)
  else
    match hfill : src.fill s (buf.toList.take want) with
    | (.error e, _, s') => (.err (.io source e.message), dec, s', out)
    | (.ok got, input, s') =>
      if hgot : got < want then
        match dec.finish plaintext.toList with
        | (.error e, dec, _) => (CliError.ofFile e, dec, s', out)
        | (.ok n, dec, plaintext) =>
          match w.writeAll out (plaintext.take n) with
          | (.error e, out) => (.err e, dec, s', out)
          | (.ok (), out) => (.ok (), dec, s', out)
      else
        match hfeed : dec.feed b input plaintext.toList with
        | (.error e, dec, _) => (CliError.ofFile e, dec, s', out)
        | (.ok n, dec', opened) =>
          match w.writeAll out (opened.take n) with
          | (.error e, out) => (.err e, dec', s', out)
          | (.ok (), out) =>
            have : (src.rest s').length < (src.rest s).length := by
              have hlen := Source.length_of_fill hfill
              have hpos := nextLen_pos_of_feed b hfeed
              omega
            decryptLoop dec' (overwrite plaintext opened) (overwrite buf input) s' out
termination_by (src.rest s).length

/-- Decrypts the rest of a stream file through `dec`, which has consumed whatever came
before. -/
def decryptStreamRecords (dec : FileDecryptor) (s : σ) (out : ω) :
    Outcome CliError Unit × FileDecryptor × σ × ω :=
  decryptLoop b src source w dec (Vector.replicate chunkBytes 0) (Vector.replicate maxRecordBytes 0)
    s out

/-- `decrypt` once it has the key and the version byte. -/
def decryptAfterVersion (key : Vector UInt8 32) (first : UInt8) (s : σ) (out : ω) :
    Outcome CliError Unit × FileDecryptor × σ × ω :=
  match (FileDecryptor.new key).feed b [first] (List.replicate chunkBytes 0) with
  | (.error e, dec, _) => (CliError.ofFile e, dec, s, out)
  | (.ok _, dec, _) => decryptStreamRecords b src source w dec s out

end

/-! ## The writer -/

/-- The outcome of `seal_all`, as the command line reports it. -/
def ofSeal : Outcome FileError Unit → Outcome CliError Unit
  | .ok () => .ok ()
  | .err e => CliError.ofFile e
  | .panic => .panic

section

variable {σ ω : Type} (b : Build) {src : Source σ IoError UInt8} (source : PathName)
  {w : WriteOutput ω} {written : ω → List UInt8}

/-- `fill_chunk` into a chunk buffer: the next chunk of the input, or all that is left. -/
theorem fill_chunk_eq (hsrc : src.Faultless) (s : σ) {buf : List UInt8} {n : Nat}
    (hbuf : buf.length = n) :
    ∃ got buf' s', src.fill s buf = (.ok got, buf', s') ∧ got ≤ n ∧ buf'.length = n
      ∧ buf'.take got = (src.rest s).take n ∧ src.rest s' = (src.rest s).drop n
      ∧ (got < n ↔ (src.rest s).length < n) ∧ (src.rest s' ≠ [] → got = n) := by
  obtain ⟨s', heq, hrest⟩ := Source.fill_eq hsrc s buf
  rw [hbuf] at heq hrest
  refine ⟨_, _, s', heq, Nat.min_le_left _ _, ?_, ?_, hrest, by omega, ?_⟩
  · rw [List.length_append, List.length_take, List.length_drop, hbuf]
    omega
  · rw [List.take_append, List.take_take, List.length_take, Nat.sub_self, List.take_zero,
      List.append_nil]
    rcases Nat.le_total n (src.rest s).length with hle | hle
    · rw [Nat.min_eq_left hle, Nat.min_self]
    · rw [Nat.min_eq_right hle, Nat.min_eq_left hle, List.take_length,
        List.take_of_length_le hle]
  · intro hmore
    rw [hrest, ne_eq, List.drop_eq_nil_iff] at hmore
    omega

/-- The look-ahead loop seals what `sealRest` seals: the chunk in hand and what is left
to read. -/
theorem writeLoop_eq (hsrc : src.Faultless) (hw : w.Collects written) (enc : FileEncryptor)
    (record : Vector UInt8 maxRecordBytes) {cur next : List UInt8} {curLen : Nat} (s : σ) (out : ω)
    (hcur : cur.length = chunkBytes) (hnext : next.length = chunkBytes)
    (hle : curLen ≤ chunkBytes) (hfull : src.rest s ≠ [] → curLen = chunkBytes) :
    ∃ s' out', writeLoop b src source w enc record cur curLen next s out
        = (ofSeal (enc.sealRest b record (cur.take curLen ++ src.rest s) (written out)).1,
          (enc.sealRest b record (cur.take curLen ++ src.rest s) (written out)).2.1, s', out')
      ∧ written out' = (enc.sealRest b record (cur.take curLen ++ src.rest s) (written out)).2.2 := by
  -- on what is left to read: every turn but the last reads some of it
  induction hn : (src.rest s).length using Nat.strongRecOn
    generalizing enc record cur next curLen s out with
  | ind n ih =>
    have hlen : (cur.take curLen).length = curLen := by
      rw [List.length_take, hcur, Nat.min_eq_left hle]
    obtain ⟨nextLen, next', s', hfill, hle', hnext', htake, hrest, hshort, hfull'⟩ :=
      fill_chunk_eq hsrc s hnext
    have hzero : nextLen = 0 ↔ src.rest s = [] := by
      rw [← List.length_eq_zero_iff]
      have htake' := congrArg List.length htake
      rw [List.length_take, List.length_take, hnext', Nat.min_eq_left hle'] at htake'
      have hpos : 0 < chunkBytes := by decide
      omega
    rw [writeLoop]
    split
    · rename_i hfill'
      rw [hfill] at hfill'
      cases hfill'
    · rename_i hfill'
      rw [hfill] at hfill'
      cases hfill'
      by_cases hend : nextLen = 0
      · rw [dif_pos hend, hzero.mp hend, List.append_nil, FileEncryptor.sealRest,
          dif_neg (by omega)]
        rcases hseal : enc.sealFinal b (cur.take curLen) record.toList with ⟨r, enc', record'⟩
        cases r with
        | err e => exact ⟨s', out, rfl, rfl⟩
        | panic => exact ⟨s', out, rfl, rfl⟩
        | ok m =>
          obtain ⟨out', hwrite, hwritten⟩ := hw out (record'.take m)
          simp only [hwrite]
          exact ⟨s', out', rfl, hwritten⟩
      · have hmore : src.rest s ≠ [] := fun h => hend (hzero.mpr h)
        have hchunk : (cur.take curLen).length = chunkBytes := by rw [hlen, hfull hmore]
        have hlong : chunkBytes < (cur.take curLen ++ src.rest s).length := by
          rw [List.length_append, hchunk]
          exact Nat.lt_add_of_pos_right (List.length_pos_iff.mpr hmore)
        have hhead : headChunk chunkBytes (cur.take curLen ++ src.rest s) (Nat.le_of_lt hlong)
            = headChunk chunkBytes (cur.take curLen) (Nat.le_of_eq hchunk.symm) := by
          apply Vector.toList_inj.mp
          show (cur.take curLen ++ src.rest s).take chunkBytes = (cur.take curLen).take chunkBytes
          rw [List.take_append_of_le_length (Nat.le_of_eq hchunk.symm)]
        have hdrop : (cur.take curLen ++ src.rest s).drop chunkBytes
            = next'.take nextLen ++ src.rest s' := by
          rw [htake, hrest, List.take_append_drop, ← hchunk, List.drop_left]
        rw [dif_neg hend, dif_pos hchunk, FileEncryptor.sealRest, dif_pos hlong, hhead, hdrop]
        rcases hseal : enc.sealChunk b (headChunk chunkBytes (cur.take curLen)
          (Nat.le_of_eq hchunk.symm)) record with ⟨r, enc', record'⟩
        cases r with
        | err e => exact ⟨s', out, rfl, rfl⟩
        | panic => exact ⟨s', out, rfl, rfl⟩
        | ok u =>
          obtain ⟨out', hwrite, hwritten⟩ := hw out record'.toList
          have hless : (src.rest s').length < n := by
            have hcount := Source.length_of_fill hfill
            omega
          simp only [hwrite, ← hwritten]
          exact ih _ hless enc' record' s' out' hnext' hcur hle' hfull' rfl

/-- `write_stream_records` is `seal_all`. -/
theorem writeStreamRecords_eq (hsrc : src.Faultless) (hw : w.Collects written)
    (enc : FileEncryptor) (s : σ) (out : ω) :
    ∃ s' out', writeStreamRecords b src source w enc s out
        = (ofSeal (enc.sealAll b (src.rest s) (written out)).1,
          (enc.sealAll b (src.rest s) (written out)).2.1, s', out')
      ∧ written out' = (enc.sealAll b (src.rest s) (written out)).2.2 := by
  obtain ⟨curLen, cur, s', hfill, hle, hcur, htake, hrest, -, hfull⟩ :=
    fill_chunk_eq hsrc s (List.length_replicate (n := chunkBytes) (a := (0 : UInt8)))
  have hinput : cur.take curLen ++ src.rest s' = src.rest s := by
    rw [htake, hrest, List.take_append_drop]
  have hloop := writeLoop_eq b source hsrc hw enc (Vector.replicate maxRecordBytes 0) s' out hcur
    (List.length_replicate (n := chunkBytes) (a := (0 : UInt8))) hle hfull
  rw [hinput] at hloop
  simp only [writeStreamRecords, hfill, FileEncryptor.sealAll]
  exact hloop

end

/-! ## The reader -/

/-- The outcome of `open_all`, as the command line reports it. -/
def ofOpen : Except FileError (List UInt8) → Outcome CliError Unit
  | .ok _ => .ok ()
  | .error e => CliError.ofFile e

/-- What is released by the time reading `file` comes to its end: all of the plaintext,
or what the feeds before the error gave out. -/
def Released (b : Build) (s : Opening) (file released : List UInt8) : Prop :=
  match (fileReader b).read s file with
  | .ok p => released = p
  | .error _ => ∃ consumed tail s', file = consumed ++ tail
    ∧ (fileReader b).Reads s consumed released s'

section

variable {σ ω : Type} {b : Build} {src : Source σ IoError UInt8} (source : PathName)
  {w : WriteOutput ω} {written : ω → List UInt8}

theorem released_of_ok {s s' : Opening} {input rest out released : List UInt8}
    (hlen : input.length = (fileReader b).want s)
    (hfeed : (fileReader b).feed s input = .ok (out, s')) (h : Released b s' rest released) :
    Released b s (input ++ rest) (out ++ released) := by
  rw [Released] at h ⊢
  rw [Reader.read_of_ok _ hlen hfeed]
  cases hread : (fileReader b).read s' rest with
  | ok p =>
    rw [hread] at h
    exact congrArg (out ++ ·) h
  | error e =>
    rw [hread] at h
    obtain ⟨consumed, tail, t, rfl, hreads⟩ := h
    exact ⟨input ++ consumed, tail, t, by rw [List.append_assoc], .cons hlen hfeed hreads⟩

theorem released_of_error {s : Opening} {file : List UInt8} {e : FileError}
    (h : (fileReader b).read s file = .error e) : Released b s file [] := by
  rw [Released, h]
  exact ⟨[], file, s, rfl, .nil s⟩

theorem nextLen_le_of_inv {dec : FileDecryptor} (hinv : dec.Inv) :
    dec.nextLen ≤ maxRecordBytes := by
  rw [FileDecryptor.nextLen]
  cases hstate : dec.state with
  | recordBody tagByte len =>
    have hle := hinv.len_le hstate
    simp only [maxRecordBytes, recordOverheadBytes, recordHeadBytes, tagLen]
    omega
  | _ => decide

/-- The streamed loop reads what `Reader.read` reads from memory. -/
theorem decryptLoop_eq (hsrc : src.Faultless) (hw : w.Collects written) {dec : FileDecryptor}
    (hinv : dec.Inv) (plaintext : Vector UInt8 chunkBytes) (buf : Vector UInt8 maxRecordBytes)
    (s : σ) (out : ω) :
    ∃ dec' s' out' released, decryptLoop b src source w dec plaintext buf s out
        = (ofOpen ((fileReader b).read ⟨dec, plaintext⟩ (src.rest s)), dec', s', out')
      ∧ written out' = written out ++ released
      ∧ Released b ⟨dec, plaintext⟩ (src.rest s) released := by
  -- on what is left to read: a feed that goes through takes some of it
  induction hn : (src.rest s).length using Nat.strongRecOn
    generalizing dec plaintext buf s out with
  | ind n ih =>
    have hbuf : (buf.toList.take dec.nextLen).length = dec.nextLen := by
      rw [List.length_take, Vector.length_toList, Nat.min_eq_left (nextLen_le_of_inv hinv)]
    obtain ⟨got, input, s', hfill, hle, hinput, htake, hrest, hshort, -⟩ :=
      fill_chunk_eq hsrc s hbuf
    rw [decryptLoop]
    simp only [if_neg (Nat.not_lt_of_le (nextLen_le_of_inv hinv))]
    split
    · rename_i hfill'
      rw [hfill] at hfill'
      cases hfill'
    · rename_i hfill'
      rw [hfill] at hfill'
      cases hfill'
      by_cases hgot : got < dec.nextLen
      · -- the input has ended
        have hread : (fileReader b).read ⟨dec, plaintext⟩ (src.rest s)
            = (fileReader b).finish ⟨dec, plaintext⟩ := Reader.read_of_lt _ (hshort.mp hgot)
        rw [dif_pos hgot]
        rcases hfin : dec.finish plaintext.toList with ⟨r, dec', last⟩
        match r with
        | .error e =>
          have herr : (fileReader b).finish ⟨dec, plaintext⟩ = .error e := by
            simp only [fileReader, hfin]
          refine ⟨dec', s', out, [], ?_, (List.append_nil _).symm, ?_⟩
          · simp only [hread, herr, ofOpen]
          · exact released_of_error (hread.trans herr)
        | .ok m =>
          have hok : (fileReader b).finish ⟨dec, plaintext⟩ = .ok (last.take m) := by
            simp only [fileReader, hfin]
          obtain ⟨out', hwrite, hwritten⟩ := hw out (last.take m)
          refine ⟨dec', s', out', last.take m, ?_, hwritten, ?_⟩
          · simp only [hread, hok, ofOpen, hwrite]
          · rw [Released, hread, hok]
      · -- what the decryptor asked for is there
        have hgot' : got = dec.nextLen := by omega
        have hfile : src.rest s = input ++ src.rest s' := by
          rw [hgot', List.take_of_length_le (Nat.le_of_eq hinput)] at htake
          rw [htake, hrest, List.take_append_drop]
        rw [dif_neg hgot]
        split
        · rename_i e dec' opened hfeed
          have herr : (fileReader b).feed ⟨dec, plaintext⟩ input = .error e := by
            simp only [fileReader, hfeed]
          have hread : (fileReader b).read ⟨dec, plaintext⟩ (input ++ src.rest s') = .error e :=
            Reader.read_of_error _ hinput herr
          rw [← hfile] at hread
          refine ⟨dec', s', out, [], ?_, (List.append_nil _).symm, released_of_error hread⟩
          rw [hread, ofOpen]
        · rename_i m dec' opened hfeed
          have hok : (fileReader b).feed ⟨dec, plaintext⟩ input
              = .ok (opened.take m, ⟨dec', overwrite plaintext opened⟩) := by
            simp only [fileReader, hfeed]
          have hread : (fileReader b).read ⟨dec, plaintext⟩ (input ++ src.rest s')
              = ((fileReader b).read ⟨dec', overwrite plaintext opened⟩ (src.rest s')).map
                (opened.take m ++ ·) := Reader.read_of_ok _ hinput hok
          have hinv' := (accepts_of_feed_eq_ok hinv hok).inv hinv
          obtain ⟨out', hwrite, hwritten⟩ := hw out (opened.take m)
          have hless : (src.rest s').length < n := by
            have hcount := Source.length_of_fill hfill
            have hpos := nextLen_pos_of_feed b hfeed
            omega
          obtain ⟨dec'', s'', out'', released, hloop, hwritten', hreleased⟩ :=
            ih _ hless hinv' (overwrite plaintext opened) (overwrite buf input) s' out' rfl
          refine ⟨dec'', s'', out'', opened.take m ++ released, ?_, ?_, ?_⟩
          · simp only [hwrite, hloop]
            rw [hfile, hread]
            cases (fileReader b).read ⟨dec', overwrite plaintext opened⟩ (src.rest s') <;> rfl
          · rw [hwritten', hwritten, List.append_assoc]
          · rw [hfile]
            exact released_of_ok hinput hok hreleased

/-- `decrypt_stream_records` is `open_all`. -/
theorem decryptStreamRecords_eq (hsrc : src.Faultless) (hw : w.Collects written)
    {dec : FileDecryptor} (hinv : dec.Inv) (s : σ) (out : ω) :
    ∃ dec' s' out' released, decryptStreamRecords b src source w dec s out
        = (ofOpen (openAll b dec (src.rest s)), dec', s', out')
      ∧ written out' = written out ++ released
      ∧ Released b ⟨dec, Vector.replicate chunkBytes 0⟩ (src.rest s) released :=
  decryptLoop_eq source hsrc hw hinv _ _ s out

/-- The version byte: the one of the format is taken, any other is refused. -/
theorem feed_version (b : Build) (key : Vector UInt8 32) (first : UInt8)
    (chunk : Vector UInt8 chunkBytes) :
    (FileDecryptor.new key).feed b [first] chunk.toList
      = if first = formatVersion then
          (.ok 0, { FileDecryptor.new key with state := .header }, chunk.toList)
        else (.error (.unsupportedVersion first), (FileDecryptor.new key).fail, chunk.toList) := by
  have hpass : ¬([first].length ≠ (FileDecryptor.new key).nextLen
      ∨ chunk.toList.length < chunkBytes) := by
    simp [FileDecryptor.nextLen, FileDecryptor.new]
  rw [FileDecryptor.feed, if_neg (by simp [FileDecryptor.new]), if_neg hpass]
  simp only [FileDecryptor.step, FileDecryptor.new, List.getD_cons_zero]
  by_cases hfirst : first = formatVersion
  · simp only [hfirst, ne_eq, not_true_eq_false, if_false, if_true]
  · simp only [ne_eq, hfirst, not_false_eq_true, if_true, if_false]

/-- The reader after the version byte. -/
theorem read_version (key : Vector UInt8 32) (first : UInt8) (chunk : Vector UInt8 chunkBytes)
    (rest : List UInt8) :
    (fileReader b).read ⟨FileDecryptor.new key, chunk⟩ (first :: rest)
        = (if first = formatVersion then
            (fileReader b).read ⟨{ FileDecryptor.new key with state := .header }, chunk⟩ rest
          else .error (.unsupportedVersion first))
      ∧ ∀ released, (if first = formatVersion then
            Released b ⟨{ FileDecryptor.new key with state := .header }, chunk⟩ rest released
          else released = []) →
        Released b ⟨FileDecryptor.new key, chunk⟩ (first :: rest) released := by
  have hlen : [first].length = (fileReader b).want ⟨FileDecryptor.new key, chunk⟩ := rfl
  by_cases hfirst : first = formatVersion
  · have hfeed := feed_version b key first chunk
    rw [if_pos hfirst] at hfeed
    have hsame : overwrite chunk chunk.toList = chunk :=
      Vector.toList_inj.mp (toList_overwrite_of_length _ (Vector.length_toList))
    have hok : (fileReader b).feed ⟨FileDecryptor.new key, chunk⟩ [first]
        = .ok ([], ⟨{ FileDecryptor.new key with state := .header }, chunk⟩) := by
      simp only [fileReader, hfeed, List.take_zero, hsame]
    rw [if_pos hfirst]
    constructor
    · rw [← List.singleton_append, Reader.read_of_ok _ hlen hok]
      cases (fileReader b).read _ rest <;> rfl
    · intro released hreleased
      rw [if_pos hfirst] at hreleased
      exact released_of_ok hlen hok hreleased
  · have hfeed := feed_version b key first chunk
    rw [if_neg hfirst] at hfeed
    have herr : (fileReader b).feed ⟨FileDecryptor.new key, chunk⟩ [first]
        = .error (.unsupportedVersion first) := by
      simp only [fileReader, hfeed]
    have hread : (fileReader b).read ⟨FileDecryptor.new key, chunk⟩ (first :: rest)
        = .error (.unsupportedVersion first) := Reader.read_of_error _ hlen herr
    rw [if_neg hfirst]
    constructor
    · exact hread
    · intro released hreleased
      rw [if_neg hfirst] at hreleased
      rw [hreleased]
      exact released_of_error hread

/-- `decrypt` from the version byte on is `open_all` from there on. -/
theorem decryptAfterVersion_eq (hsrc : src.Faultless) (hw : w.Collects written)
    (key : Vector UInt8 32) (first : UInt8) (s : σ) (out : ω) :
    ∃ dec' s' out' released, decryptAfterVersion b src source w key first s out
        = (ofOpen (openAll b (FileDecryptor.new key) (first :: src.rest s)), dec', s', out')
      ∧ written out' = written out ++ released
      ∧ Released b ⟨FileDecryptor.new key, Vector.replicate chunkBytes 0⟩ (first :: src.rest s)
          released := by
  obtain ⟨hread, hreleased⟩ :=
    read_version (b := b) key first (Vector.replicate chunkBytes 0) (src.rest s)
  have hfeed := feed_version b key first (Vector.replicate chunkBytes 0)
  rw [Vector.toList_replicate] at hfeed
  unfold decryptAfterVersion
  rw [openAll, hread]
  simp only [hfeed]
  by_cases hfirst : first = formatVersion
  · simp only [if_pos hfirst] at hreleased ⊢
    have hinv : FileDecryptor.Inv { FileDecryptor.new key with state := .header } := trivial
    obtain ⟨dec', s', out', released, hloop, hwritten, hrest⟩ :=
      decryptStreamRecords_eq (b := b) source hsrc hw hinv s out
    exact ⟨dec', s', out', released, hloop, hwritten, hreleased released hrest⟩
  · simp only [if_neg hfirst] at hreleased ⊢
    exact ⟨_, s, out, [], rfl, (List.append_nil _).symm, hreleased [] rfl⟩

end

/-! ## What is written before an error -/

/-- `released` is the plaintext of whole verified records at the front of `file`, none of
them `Final`. -/
def VerifiedRecords (b : Build) (key : Vector UInt8 32) (file released : List UInt8) : Prop :=
  released = [] ∨ ∃ header chunks records enc tail,
    (∀ chunk ∈ chunks, chunk.1 ≠ .final ∧ chunk.2.length = chunkBytes)
      ∧ Runs.runAll (FileEncryptor.emit b) (FileEncryptor.init b key header).1 chunks
        = some (records, enc)
      ∧ file = (FileEncryptor.init b key header).2.toList ++ records.flatten ++ tail
      ∧ released = plaintextOf chunks

section

variable {b : Build}

/-- After the `Final` record nothing more is taken. -/
theorem reads_afterFinal {s s' : Opening} {file outs : List UInt8}
    (h : (fileReader b).Reads s file outs s') (hstate : s.dec.state = .afterFinal) :
    outs = [] := by
  cases h with
  | nil s => rfl
  | cons hlen hfeed hrest =>
    have hone : (fileReader b).want s = 1 := by
      show s.dec.nextLen = 1
      rw [FileDecryptor.nextLen, hstate]
    rw [feed_afterFinal hstate (hlen.trans hone)] at hfeed
    cases hfeed

/-- What the reader gives out between records, record by record. -/
theorem records_of_reads {dec : FileDecryptor} {chunk : Vector UInt8 chunkBytes}
    {pull : PullState} (hat : AtRecord dec pull) {consumed released : List UInt8} {s' : Opening}
    (h : (fileReader b).Reads ⟨dec, chunk⟩ consumed released s') :
    ∃ chunks records enc tail,
      (∀ chunk ∈ chunks, chunk.1 ≠ .final ∧ chunk.2.length = chunkBytes)
        ∧ Runs.runAll (FileEncryptor.emit b) ⟨pull.toPush⟩ chunks = some (records, enc)
        ∧ consumed = records.flatten ++ tail ∧ released = plaintextOf chunks := by
  -- on what was consumed: a whole record is never empty
  induction hn : consumed.length using Nat.strongRecOn
    generalizing dec chunk pull consumed released with
  | ind n ih =>
    have hnone : released = [] → ∃ chunks records enc tail,
        (∀ chunk ∈ chunks, chunk.1 ≠ .final ∧ chunk.2.length = chunkBytes)
          ∧ Runs.runAll (FileEncryptor.emit b) ⟨pull.toPush⟩ chunks = some (records, enc)
          ∧ consumed = records.flatten ++ tail ∧ released = plaintextOf chunks :=
      fun hreleased => ⟨[], [], _, consumed, by simp, rfl, rfl, hreleased⟩
    cases h with
    | nil s => exact hnone rfl
    | @cons _ s₁ _ head file₁ out₁ outs₁ hlen₁ hfeed₁ hrest₁ =>
      have hhead := accepts_of_feed_eq_ok hat.inv hfeed₁
      have hinv₁ := hhead.inv hat.inv
      obtain ⟨dec₁, chunk₁⟩ := s₁
      obtain ⟨tag₀, len, rfl, rfl, hle, hfull, rfl⟩ := hhead.at_recordHead hat.state_eq
      cases hrest₁ with
      | nil s => exact hnone rfl
      | @cons _ s₂ _ body file₂ out₂ outs₂ hlen₂ hfeed₂ hrest₂ =>
        have hbody := accepts_of_feed_eq_ok hinv₁ hfeed₂
        have hinv₂ := hbody.inv hinv₁
        obtain ⟨dec₂, chunk₂⟩ := s₂
        obtain ⟨wire, tag, piece, pull₀, pull', rfl, hbyte, rfl, hpull, hopen, hcase⟩ :=
          hbody.at_recordBody rfl
        obtain rfl : pull = pull₀ := Option.some.inj (hat.pull_eq.symm.trans hpull)
        obtain rfl : tag = tag₀ :=
          Tag.toByte_inj ((FileDecryptor.tag_of_pullChunk hopen).symm.trans hbyte)
        have hct : piece.length = wire.ciphertext.length := length_eq_of_pullChunk b hopen
        rcases hcase with ⟨htag, rfl, rfl⟩ | ⟨rfl, rfl, rfl⟩
        · obtain ⟨pull₂, hpull₂, hnot⟩ := hinv₂
          obtain rfl : pull' = pull₂ := Option.some.inj hpull₂
          have hpiece : out₂.length = chunkBytes := by rw [hct, hfull htag]
          have hshort : file₂.length < n := by
            rw [← hn, List.length_append, List.length_append, length_recordHead, recordHeadBytes]
            omega
          obtain ⟨chunks, records, enc, tail, hchunks, hrun, rfl, rfl⟩ :=
            ih _ hshort ⟨rfl, rfl, hnot⟩ hrest₂ rfl
          have hemit : FileEncryptor.emit b ⟨pull.toPush⟩ (tag, out₂)
              = some (wire.frame, ⟨pull'.toPush⟩) :=
            (FileEncryptor.emit_eq_some_iff b).mpr ⟨Nat.le_of_eq hpiece, wire,
              (pullChunk_eq_some_iff b).mp hopen, rfl⟩
          refine ⟨(tag, out₂) :: chunks, wire.frame :: records, enc, tail, ?_, ?_, ?_, rfl⟩
          · rintro c hc
            rcases List.mem_cons.mp hc with rfl | hc
            · exact ⟨htag, hpiece⟩
            · exact hchunks c hc
          · exact Runs.runAll_cons_eq_some.mpr ⟨_, _, records, hemit, hrun, rfl⟩
          · rw [List.flatten_cons, Wire.frame, hbyte]
            simp only [List.append_assoc]
        · have hnil := reads_afterFinal hrest₂ rfl
          exact hnone (by rw [hnil]; rfl)

/-- Whatever the reader has given out, it gave out for whole verified records. -/
theorem verifiedRecords_of_reads {key : Vector UInt8 32} {chunk : Vector UInt8 chunkBytes}
    {consumed released : List UInt8} {s' : Opening}
    (h : (fileReader b).Reads ⟨FileDecryptor.new key, chunk⟩ consumed released s') :
    VerifiedRecords b key consumed released := by
  have hinv := FileDecryptor.inv_new key
  cases h with
  | nil s => exact Or.inl rfl
  | @cons _ s₁ _ version file₁ out₁ outs₁ hlen₁ hfeed₁ hrest₁ =>
    have hversion := accepts_of_feed_eq_ok hinv hfeed₁
    have hinv₁ := hversion.inv hinv
    obtain ⟨dec₁, chunk₁⟩ := s₁
    obtain ⟨rfl, rfl, rfl⟩ := hversion.at_version rfl
    cases hrest₁ with
    | nil s => exact Or.inl rfl
    | @cons _ s₂ _ input file₂ out₂ outs₂ hlen₂ hfeed₂ hrest₂ =>
      have hheader := accepts_of_feed_eq_ok hinv₁ hfeed₂
      obtain ⟨dec₂, chunk₂⟩ := s₂
      obtain ⟨header, rfl, rfl, rfl⟩ := hheader.at_header rfl
      have hat : AtRecord { FileDecryptor.new key with
          pull := some (PullState.init b key header)
          key := Vector.replicate 32 0
          state := .recordHead } (PullState.init b key header) := ⟨rfl, rfl, rfl⟩
      obtain ⟨chunks, records, enc, tail, hchunks, hrun, rfl, rfl⟩ := records_of_reads hat hrest₂
      refine Or.inr ⟨header, chunks, records, enc, tail, hchunks, hrun, ?_, rfl⟩
      rw [FileEncryptor.toList_init_snd]
      simp only [List.append_assoc, List.cons_append, List.nil_append]

end

end UaCrypt.Cli
