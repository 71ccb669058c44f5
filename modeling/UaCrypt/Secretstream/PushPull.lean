import UaCrypt.Hazmat.KalynaGcm
import UaCrypt.Hazmat.KupynaKmac
import UaCrypt.Lib.Runs

/-!
# Push and pull (`crypto_secretstream.rs`)

The two halves of a secretstream session: `PushState.push` seals a chunk,
`PullState.pull` opens one, each advancing its own copy of subkey, counter and
finalized flag. A mutating method takes the state and returns the new one; an
`unreachable!` that a caller can in fact reach is the outcome `panic`.

- `push_eq_ok_iff`: exactly when a push succeeds, and with what; `push_of_not_ready`,
  `pull_cases`: what refused calls leave behind.
- `pull_eq_ok_iff_push`: **pull accepts exactly what push emits** from the same
  session, and moves to the same next session.
-/

namespace UaCrypt.Secretstream

open LittleEndian Hazmat Hazmat.ColumnState Hazmat.Kalyna Hazmat.KalynaGcm Hazmat.KupynaKmac

/-- What a call can come to: a value, an error value, or an `unreachable!` reached. -/
inductive Outcome (ε α : Type) where
  | ok (a : α)
  | err (e : ε)
  | panic
  deriving DecidableEq, Repr

inductive SecretstreamError where
  | invalidLength
  | tagMismatch
  | unknownTag
  | streamFinalized
  | counterExhausted
  deriving DecidableEq, Repr

/-- A chunk's role in the stream. -/
inductive Tag where
  | message
  | push
  | rekey
  | final
  deriving DecidableEq, Repr

namespace Tag

def toByte : Tag → UInt8
  | .message => 0x00
  | .push => 0x01
  | .rekey => 0x02
  | .final => 0x03

def fromByte (byte : UInt8) : Option Tag :=
  if byte = 0x00 then some .message
  else if byte = 0x01 then some .push
  else if byte = 0x02 then some .rekey
  else if byte = 0x03 then some .final
  else none

@[simp] theorem fromByte_toByte (tag : Tag) : fromByte tag.toByte = some tag := by
  cases tag <;> decide

/-- `from_byte` is the partial inverse of `to_byte`. -/
theorem fromByte_eq_some_iff {byte : UInt8} {tag : Tag} :
    fromByte byte = some tag ↔ byte = tag.toByte := by
  constructor
  · intro h
    rw [fromByte] at h
    split at h
    · cases h
      assumption
    · split at h
      · cases h
        assumption
      · split at h
        · cases h
          assumption
        · split at h
          · cases h
            assumption
          · cases h
  · rintro rfl
    exact fromByte_toByte tag

theorem toByte_inj {a b : Tag} (h : a.toByte = b.toByte) : a = b := by
  have ha := fromByte_toByte a
  rw [h, fromByte_toByte] at ha
  exact (Option.some.inj ha).symm

end Tag

/-! ## Keys, IVs and AADs -/

/-- The bytes of an ASCII literal. -/
def ascii (text : String) : List UInt8 := text.toList.map fun c => UInt8.ofNat c.toNat

/-- `INITIAL_SUBKEY_LABEL`. -/
def initialSubkeyLabel : List UInt8 := ascii "DSTU-secretstream-v2"

/-- `REKEY_CONTEXT`. -/
def rekeyContext : List UInt8 := ascii "DSTU-secretstream-rekey"

/-- A MAC under a 32-byte key, where the crate's `unreachable!` is right: the key
has the length `mac` asks for. -/
def macOf (p : Tables.Profile) (key : Vector UInt8 32) (message : List UInt8) : Vector UInt8 32 :=
  match h : Kupyna256Kmac.mac p key.toList message with
  | .ok subkey => subkey
  | .error e => absurd (((kmacGeneric_eq_error_iff _ _ _ _ _ _ e).mp h).1) (by simp)

/-- `Kupyna256Kmac(key, INITIAL_SUBKEY_LABEL || header)`. -/
def initialSubkey (b : Build) (key header : Vector UInt8 32) : Vector UInt8 32 :=
  macOf b.profile key (initialSubkeyLabel ++ header.toList)

def rekey (b : Build) (subkey : Vector UInt8 32) : Vector UInt8 32 :=
  macOf b.profile subkey rekeyContext

/-- Zero but for the low 8 bytes, which hold the counter. -/
def chunkIv (counter : UInt64) : Vector UInt8 32 :=
  Vector.ofFn fun i : Fin 32 => if h : i.val < 8 then (toLeBytes counter)[i.val] else 0

/-- `counter LE || tag_byte || ciphertext_len as u64 LE`. -/
def chunkAad (counter : UInt64) (tagByte : UInt8) (ciphertextLen : Nat) : Vector UInt8 17 :=
  (toLeBytes counter ++ #v[tagByte]) ++ toLeBytes (UInt64.ofNat ciphertextLen)

/-- `counter.checked_add(1)`. -/
def checkedSucc (counter : UInt64) : Option UInt64 :=
  if counter.toNat + 1 < 2 ^ 64 then some (counter + 1) else none

/-- `Kalyna256_256Gcm::new(subkey).encrypt(iv, aad, ..)`. -/
def gcmEncrypt (b : Build) (subkey iv : Vector UInt8 32) (aad plaintext out : List UInt8) :
    Except GcmError (Vector UInt8 32) × List UInt8 :=
  (Gcm.new b .kalyna256_256 subkey).encrypt b iv aad plaintext out

/-- `Kalyna256_256Gcm::new(subkey).decrypt(iv, aad, ..)`. -/
def gcmDecrypt (b : Build) (subkey iv : Vector UInt8 32) (aad ciphertext tag out : List UInt8) :
    Except GcmError Unit × List UInt8 :=
  (Gcm.new b .kalyna256_256 subkey).decrypt b iv aad ciphertext tag out

/-! ## The two states -/

/-- The encrypting half. -/
structure PushState where
  subkey : Vector UInt8 32
  counter : UInt64
  finalized : Bool
  deriving DecidableEq

/-- The decrypting half. -/
structure PullState where
  subkey : Vector UInt8 32
  counter : UInt64
  finalized : Bool
  deriving DecidableEq

/-- `PushState::init` after its header is drawn. -/
def PushState.start (b : Build) (key header : Vector UInt8 32) : PushState :=
  { subkey := initialSubkey b key header, counter := 0, finalized := false }

def PullState.init (b : Build) (key header : Vector UInt8 32) : PullState :=
  { subkey := initialSubkey b key header, counter := 0, finalized := false }

/-- Seals one chunk into `ciphertextOut` and returns its 16-byte tag. -/
def PushState.push (b : Build) (st : PushState) (tag : Tag) (plaintext ciphertextOut : List UInt8) :
    Outcome SecretstreamError (Vector UInt8 16) × PushState × List UInt8 :=
  if st.finalized then (.err .streamFinalized, st, ciphertextOut)
  else if ciphertextOut.length ≠ plaintext.length then (.err .invalidLength, st, ciphertextOut)
  else
    match checkedSucc st.counter with
    | none => (.err .counterExhausted, st, ciphertextOut)
    | some nextCounter =>
      let iv := chunkIv st.counter
      let aad := chunkAad st.counter tag.toByte plaintext.length
      match gcmEncrypt b st.subkey iv aad.toList plaintext ciphertextOut with
      -- `unreachable!`, though a chunk of 2^61 bytes or more gets here
      | (.error _, ciphertextOut) => (.panic, st, ciphertextOut)
      | (.ok fullTag, ciphertextOut) =>
        let st := { st with counter := nextCounter }
        let st :=
          match tag with
          | .rekey => { st with subkey := rekey b st.subkey }
          | .final => { st with finalized := true }
          | .message | .push => st
        (.ok (slice fullTag 0 16 (by decide)), st, ciphertextOut)

/-- Verifies and opens one chunk into `plaintextOut`. -/
def PullState.pull (b : Build) (st : PullState) (tagByte : UInt8)
    (ciphertext authTag plaintextOut : List UInt8) :
    Except SecretstreamError Tag × PullState × List UInt8 :=
  if st.finalized then (.error .streamFinalized, st, plaintextOut)
  else
    match Tag.fromByte tagByte with
    | none => (.error .unknownTag, st, plaintextOut)
    | some tag =>
      if plaintextOut.length ≠ ciphertext.length ∨ authTag.length ≠ 16 then
        (.error .invalidLength, st, plaintextOut)
      else
        match checkedSucc st.counter with
        | none => (.error .counterExhausted, st, plaintextOut)
        | some nextCounter =>
          let iv := chunkIv st.counter
          let aad := chunkAad st.counter tagByte ciphertext.length
          match gcmDecrypt b st.subkey iv aad.toList ciphertext authTag plaintextOut with
          | (.error .tagMismatch, plaintextOut) => (.error .tagMismatch, st, plaintextOut)
          | (.error .invalidLength, plaintextOut) => (.error .invalidLength, st, plaintextOut)
          | (.error .emptyInput, plaintextOut) => (.error .invalidLength, st, plaintextOut)
          | (.ok (), plaintextOut) =>
            let st := { st with counter := nextCounter }
            let st :=
              match tag with
              | .rekey => { st with subkey := rekey b st.subkey }
              | .final => { st with finalized := true }
              | .message | .push => st
            (.ok tag, st, plaintextOut)

/-! ## What push and pull do -/

/-- The session after a chunk: counter up by one, `rekey` and `final` applied. -/
def PushState.next (b : Build) (st : PushState) (tag : Tag) : PushState :=
  { subkey := if tag = .rekey then rekey b st.subkey else st.subkey
    counter := st.counter + 1
    finalized := if tag = .final then true else st.finalized }

/-- The push state in step with a pull state. -/
def PullState.toPush (st : PullState) : PushState :=
  { subkey := st.subkey, counter := st.counter, finalized := st.finalized }

/-- The pull state in step with a push state. -/
def PushState.toPull (st : PushState) : PullState :=
  { subkey := st.subkey, counter := st.counter, finalized := st.finalized }

@[simp] theorem toPush_toPull (st : PullState) : st.toPush.toPull = st := rfl

theorem checkedSucc_eq_some {counter : UInt64} (h : counter.toNat + 1 < 2 ^ 64) :
    checkedSucc counter = some (counter + 1) := if_pos h

theorem checkedSucc_eq_none {counter : UInt64} (h : ¬counter.toNat + 1 < 2 ^ 64) :
    checkedSucc counter = none := if_neg h

/-- Below the limit the successor does not wrap. -/
theorem toNat_succ {counter : UInt64} (h : counter.toNat + 1 < 2 ^ 64) :
    (counter + 1).toNat = counter.toNat + 1 := by
  rw [UInt64.toNat_add]
  exact Nat.mod_eq_of_lt h

theorem admissible_chunkAad (counter : UInt64) (tagByte : UInt8) (len : Nat) {data : List UInt8}
    (h : data.length * 8 < 2 ^ 64) : Admissible (chunkAad counter tagByte len).toList data where
  not_both_empty := fun hboth => by
    have hlen := congrArg List.length hboth.1
    rw [Vector.length_toList, List.length_nil] at hlen
    exact absurd hlen (by decide)
  aad_fits := by
    rw [Vector.length_toList]
    decide
  data_fits := h

/-- A session can take a chunk: it is open, has a next counter, and the buffer fits. -/
structure PushState.Ready (st : PushState) (plaintext out : List UInt8) : Prop where
  not_finalized : st.finalized = false
  length_eq : out.length = plaintext.length
  counter_lt : st.counter.toNat + 1 < 2 ^ 64

section

variable (b : Build)

/-- The ciphertext of a chunk. -/
def chunkCiphertext (st : PushState) (plaintext : List UInt8) : List UInt8 :=
  (Gcm.new b .kalyna256_256 st.subkey).applyKeystream b (chunkIv st.counter) plaintext

/-- The 16-byte tag of a chunk. -/
def chunkTag (st : PushState) (tag : Tag) (plaintext : List UInt8) : Vector UInt8 16 :=
  slice ((Gcm.new b .kalyna256_256 st.subkey).fullTag b
    (chunkAad st.counter tag.toByte plaintext.length).toList (chunkCiphertext b st plaintext))
    0 16 (by decide)

@[simp] theorem length_chunkCiphertext (st : PushState) (plaintext : List UInt8) :
    (chunkCiphertext b st plaintext).length = plaintext.length :=
  Gcm.length_applyKeystream b _ _ plaintext

variable {st : PushState} {tag : Tag} {plaintext out : List UInt8}

/-- A push that goes through. -/
theorem push_of_ready (hready : st.Ready plaintext out) (hlen : plaintext.length * 8 < 2 ^ 64) :
    st.push b tag plaintext out
      = (.ok (chunkTag b st tag plaintext), st.next b tag, chunkCiphertext b st plaintext) := by
  have hfin : ¬st.finalized = true := by simp [hready.not_finalized]
  have henc := Gcm.encrypt_of_admissible b (Gcm.new b .kalyna256_256 st.subkey)
    (chunkIv st.counter) hready.length_eq
    (admissible_chunkAad st.counter tag.toByte plaintext.length hlen)
  rw [PushState.push, if_neg hfin, if_neg (not_not_intro hready.length_eq),
    checkedSucc_eq_some hready.counter_lt]
  simp only [gcmEncrypt, henc]
  cases tag <;> rfl

/-- A push that is refused, by an error or by the `unreachable!`, changes nothing. -/
theorem push_of_not_ready (tag : Tag)
    (h : ¬(st.Ready plaintext out ∧ plaintext.length * 8 < 2 ^ 64)) :
    ∃ r, (∀ a, r ≠ .ok a) ∧ st.push b tag plaintext out = (r, st, out) := by
  by_cases hfin : st.finalized = true
  · exact ⟨.err .streamFinalized, by simp, by rw [PushState.push, if_pos hfin]⟩
  · by_cases hlen : out.length = plaintext.length
    · by_cases hctr : st.counter.toNat + 1 < 2 ^ 64
      · have hbits : ¬plaintext.length * 8 < 2 ^ 64 := fun hbits =>
          h ⟨⟨by simpa using hfin, hlen, hctr⟩, hbits⟩
        have hbad : ¬(out.length = plaintext.length ∧ Admissible
            (chunkAad st.counter tag.toByte plaintext.length).toList plaintext) :=
          fun hadm => hbits hadm.2.data_fits
        obtain ⟨e, -, henc⟩ := Gcm.encrypt_of_not_admissible b
          (Gcm.new b .kalyna256_256 st.subkey) (chunkIv st.counter) hbad
        refine ⟨.panic, by simp, ?_⟩
        rw [PushState.push, if_neg hfin, if_neg (not_not_intro hlen), checkedSucc_eq_some hctr]
        simp only [gcmEncrypt, henc]
      · refine ⟨.err .counterExhausted, by simp, ?_⟩
        rw [PushState.push, if_neg hfin, if_neg (not_not_intro hlen), checkedSucc_eq_none hctr]
    · exact ⟨.err .invalidLength, by simp, by rw [PushState.push, if_neg hfin, if_pos hlen]⟩

/-- Exactly when a push succeeds, and with what. -/
theorem push_eq_ok_iff {auth : Vector UInt8 16} {st' : PushState} {ciphertext : List UInt8} :
    st.push b tag plaintext out = (.ok auth, st', ciphertext)
      ↔ (st.Ready plaintext out ∧ plaintext.length * 8 < 2 ^ 64)
        ∧ auth = chunkTag b st tag plaintext ∧ st' = st.next b tag
        ∧ ciphertext = chunkCiphertext b st plaintext := by
  by_cases h : st.Ready plaintext out ∧ plaintext.length * 8 < 2 ^ 64
  · rw [push_of_ready b h.1 h.2]
    constructor
    · intro heq
      cases heq
      exact ⟨h, rfl, rfl, rfl⟩
    · rintro ⟨-, rfl, rfl, rfl⟩
      rfl
  · obtain ⟨r, hr, hpush⟩ := push_of_not_ready b tag h
    rw [hpush]
    constructor
    · intro heq
      cases heq
      exact absurd rfl (hr auth)
    · rintro ⟨hok, -⟩
      exact absurd hok h

end

section

variable (b : Build) {st st' : PullState} {tag : Tag} {tagByte : UInt8}
  {ciphertext authTag out plaintext : List UInt8}

/-- A pull past its own checks is decided by the cipher. -/
theorem pull_of_ready (tag : Tag) (hfin : st.finalized = false)
    (hlens : out.length = ciphertext.length ∧ authTag.length = 16)
    (hctr : st.counter.toNat + 1 < 2 ^ 64) :
    st.pull b tag.toByte ciphertext authTag out
      = match gcmDecrypt b st.subkey (chunkIv st.counter)
          (chunkAad st.counter tag.toByte ciphertext.length).toList ciphertext authTag out with
        | (.error .tagMismatch, out) => (.error .tagMismatch, st, out)
        | (.error .invalidLength, out) => (.error .invalidLength, st, out)
        | (.error .emptyInput, out) => (.error .invalidLength, st, out)
        | (.ok (), out) => (.ok tag, (st.toPush.next b tag).toPull, out) := by
  have hfin : ¬st.finalized = true := by simp [hfin]
  have hpass : ¬(out.length ≠ ciphertext.length ∨ authTag.length ≠ 16) := by
    rw [not_or, not_not, not_not]
    exact hlens
  rw [PullState.pull, if_neg hfin, Tag.fromByte_toByte]
  simp only
  rw [if_neg hpass, checkedSucc_eq_some hctr]
  cases tag <;> rfl

/-- A pull past its own checks, on a session without a counter left. -/
theorem pull_of_exhausted (tag : Tag) (hfin : st.finalized = false)
    (hlens : out.length = ciphertext.length ∧ authTag.length = 16)
    (hctr : ¬st.counter.toNat + 1 < 2 ^ 64) :
    st.pull b tag.toByte ciphertext authTag out = (.error .counterExhausted, st, out) := by
  have hfin : ¬st.finalized = true := by simp [hfin]
  have hpass : ¬(out.length ≠ ciphertext.length ∨ authTag.length ≠ 16) := by
    rw [not_or, not_not, not_not]
    exact hlens
  rw [PullState.pull, if_neg hfin, Tag.fromByte_toByte]
  simp only
  rw [if_neg hpass, checkedSucc_eq_none hctr]

/-- What a refused pull leaves in the buffer: zeros after a tag mismatch, else the
old contents. -/
def refusedBuffer (e : SecretstreamError) (out : List UInt8) : List UInt8 :=
  if e = .tagMismatch then List.replicate out.length 0 else out

/-- A pull either opens the chunk and advances, or is refused and changes nothing
but the buffer. -/
theorem pull_cases (st : PullState) (tagByte : UInt8) (ciphertext authTag out : List UInt8) :
    (∃ tag out', tagByte = tag.toByte ∧ st.finalized = false ∧ st.counter.toNat + 1 < 2 ^ 64
        ∧ authTag.length = 16
        ∧ gcmDecrypt b st.subkey (chunkIv st.counter)
            (chunkAad st.counter tag.toByte ciphertext.length).toList ciphertext authTag out
          = (.ok (), out')
        ∧ st.pull b tagByte ciphertext authTag out
          = (.ok tag, (st.toPush.next b tag).toPull, out'))
      ∨ ∃ e, st.pull b tagByte ciphertext authTag out = (.error e, st, refusedBuffer e out) := by
  by_cases hfin : st.finalized = true
  · exact Or.inr ⟨.streamFinalized, by rw [PullState.pull, if_pos hfin]; rfl⟩
  · cases htag : Tag.fromByte tagByte with
    | none =>
      refine Or.inr ⟨.unknownTag, ?_⟩
      rw [PullState.pull, if_neg hfin, htag]
      rfl
    | some tag =>
      obtain rfl := Tag.fromByte_eq_some_iff.mp htag
      by_cases hlens : out.length = ciphertext.length ∧ authTag.length = 16
      · by_cases hctr : st.counter.toNat + 1 < 2 ^ 64
        · have hready := pull_of_ready b tag (by simpa using hfin) hlens hctr
          rcases hdec : gcmDecrypt b st.subkey (chunkIv st.counter)
            (chunkAad st.counter tag.toByte ciphertext.length).toList ciphertext authTag out
            with ⟨r, out'⟩
          have hbuffer : ∀ e, r = .error e → out' = if e = .tagMismatch then
              List.replicate out.length 0 else out := by
            rintro e rfl
            exact Gcm.decrypt_error_buffer b _ _ hdec
          rw [hdec] at hready
          match r with
          | .ok () =>
            exact Or.inl ⟨tag, out', rfl, by simpa using hfin, hctr, hlens.2, hdec, hready⟩
          | .error .tagMismatch =>
            exact Or.inr ⟨.tagMismatch, by rw [hready, hbuffer _ rfl]; rfl⟩
          | .error .invalidLength =>
            exact Or.inr ⟨.invalidLength, by rw [hready, hbuffer _ rfl]; rfl⟩
          | .error .emptyInput =>
            exact Or.inr ⟨.invalidLength, by rw [hready, hbuffer _ rfl]; rfl⟩
        · exact Or.inr ⟨.counterExhausted, pull_of_exhausted b tag (by simpa using hfin) hlens hctr⟩
      · refine Or.inr ⟨.invalidLength, ?_⟩
        rw [PullState.pull, if_neg hfin, Tag.fromByte_toByte]
        simp only
        rw [if_pos (by rwa [Decidable.not_and_iff_or_not] at hlens)]
        rfl

/-- An open session refuses a chunk of the right shape for its tag only, or for want of
a counter. -/
theorem pull_error_of_open {e : SecretstreamError} (hfin : st.finalized = false)
    (hlens : out.length = ciphertext.length ∧ authTag.length = 16)
    (hbits : ciphertext.length * 8 < 2 ^ 64)
    (h : (st.pull b tag.toByte ciphertext authTag out).1 = .error e) :
    e = .tagMismatch ∨ e = .counterExhausted := by
  by_cases hctr : st.counter.toNat + 1 < 2 ^ 64
  · have htag : 8 ≤ authTag.length ∧ authTag.length ≤ Variant.blockBytes .kalyna256_256 := by
      rw [hlens.2]
      decide
    have hdec := Gcm.decrypt_of_admissible b (Gcm.new b .kalyna256_256 st.subkey)
      (chunkIv st.counter) htag hlens.1
      (admissible_chunkAad st.counter tag.toByte ciphertext.length hbits)
    rw [pull_of_ready b tag hfin hlens hctr, gcmDecrypt, hdec] at h
    split at h
    · cases h
      exact Or.inl rfl
    · rename_i heq
      split at heq <;> cases heq
    · rename_i heq
      split at heq <;> cases heq
    · cases h
  · right
    rw [pull_of_exhausted b tag hfin hlens hctr] at h
    cases h
    rfl

/-- **Pull accepts exactly what push emits** from the same session, and goes where
push goes. -/
theorem pull_eq_ok_iff_push :
    st.pull b tagByte ciphertext authTag out = (.ok tag, st', plaintext)
      ↔ tagByte = tag.toByte ∧ ∃ auth : Vector UInt8 16, authTag = auth.toList
        ∧ st.toPush.push b tag plaintext out = (.ok auth, st'.toPush, ciphertext) := by
  constructor
  · intro hpull
    rcases pull_cases b st tagByte ciphertext authTag out with
      ⟨tag', out', rfl, hfin, hctr, hauth, hdec, heq⟩ | ⟨e, he⟩
    · rw [hpull] at heq
      cases heq
      obtain ⟨-, full, henc, htrunc⟩ := (Gcm.decrypt_eq_ok_iff_encrypt b _ _).mp hdec
      obtain ⟨⟨hlen, hadm⟩, hct, hfull⟩ := (Gcm.encrypt_eq_ok_iff b _ _).mp henc
      have hlen' : ciphertext.length = plaintext.length := by
        rw [hct, Gcm.length_applyKeystream]
      refine ⟨rfl, slice full 0 16 (by decide), ?_, ?_⟩
      · rw [htrunc, hauth, toList_slice, List.drop_zero]
      · refine (push_eq_ok_iff b).mpr ⟨⟨⟨hfin, hlen, hctr⟩, hadm.data_fits⟩, ?_, rfl, hct⟩
        rw [hfull, hlen', hct]
        rfl
    · rw [hpull] at he
      cases he
  · rintro ⟨rfl, auth, rfl, hpush⟩
    obtain ⟨⟨hready, hbits⟩, hauth, hnext, hct⟩ := (push_eq_ok_iff b).mp hpush
    have hlen' : ciphertext.length = plaintext.length := by
      rw [hct, length_chunkCiphertext]
    have henc := Gcm.encrypt_of_admissible b (Gcm.new b .kalyna256_256 st.subkey)
      (chunkIv st.counter) hready.length_eq
      (admissible_chunkAad st.counter tag.toByte plaintext.length hbits)
    have hbuf : out.length = ((Gcm.new b .kalyna256_256 st.subkey).applyKeystream b
        (chunkIv st.counter) plaintext).length := by
      rw [Gcm.length_applyKeystream, hready.length_eq]
    have hdec := Gcm.decrypt_of_encrypt b _ _ henc (q := 16) (by decide) hbuf
    have hdec' : gcmDecrypt b st.subkey (chunkIv st.counter)
        (chunkAad st.counter tag.toByte ciphertext.length).toList ciphertext auth.toList out
        = (.ok (), plaintext) := by
      rw [hlen', hct, hauth, chunkTag, toList_slice, List.drop_zero]
      exact hdec
    rw [pull_of_ready b tag hready.not_finalized ⟨by rw [hlen', hready.length_eq], by simp⟩
      hready.counter_lt, hdec', ← hnext, toPush_toPull]

end

end UaCrypt.Secretstream
