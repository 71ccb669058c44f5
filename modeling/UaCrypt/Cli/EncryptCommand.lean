import UaCrypt.Cli.BoxOpen
import UaCrypt.CryptoPwhash.PassphraseFile

/-!
# Encrypting under a key or a passphrase (`run_secretstream_encrypt`, `run_secretstream_decrypt`)

`encrypt` writes a stream file, behind the header of a passphrase file where the secret is a
passphrase. `decrypt` tells the two apart by the first byte. Both are modelled up to the result
that `Output::finish` gets, with the output that was reserved by then, if any.

- `startDecrypt_eq`: reading piece by piece what the whole file says.
- `decrypt_command_exact`: the files that `decrypt` accepts, and the secrets it refuses before
  it reserves an output.
- `encrypt_decrypt`: what `encrypt` wrote, `decrypt` reads, however the bytes arrive.
-/

namespace UaCrypt.Cli

open LittleEndian Chunks Framing ShortReads FileTree Hazmat Secretstream CryptoPwhash

/-- The errors that only these commands report. -/
inductive StreamError where
  | cli (e : CliError)
  | passphraseFormatUnsupported (version kdf : UInt8)
  | passphraseParamsUnsupported (mCost tCost : UInt32) (pCost : UInt8)
  | passphraseEmpty
  | passphraseDerive (e : PwHashError)
  | passphraseWrong
  | passphraseMismatch
  | passphraseNoTerminal
  | passphraseMintty
  | decryptKeyForPassphraseFile
  | decryptNeedsKey
  deriving DecidableEq, Repr

/-- `passphrase::cli_error`. -/
def passphraseError : PassphraseFileError → StreamError
  | .unsupportedFormat version kdf => .passphraseFormatUnsupported version kdf
  | .unsupportedParams mCost tCost pCost => .passphraseParamsUnsupported mCost tCost pCost
  | .emptyPassphrase => .passphraseEmpty
  | .pwHash (.random message) => .cli (.random message)
  | .pwHash e => .passphraseDerive e
  | .notPassphraseFile => .cli (.secretstreamUnsupportedVersion containerType)

/-- The outcome with its error in these commands' words. -/
def reportAs (f : CliError → StreamError) : Outcome CliError Unit → Outcome StreamError Unit
  | .ok () => .ok ()
  | .err e => .err (f e)
  | .panic => .panic

/-! ## The passphrase -/

/-- The terminal: what is known of it, and what is typed at the two prompts. -/
structure Terminal where
  stderrIsTerminal : Bool
  windows : Bool
  mintty : Bool
  first : Except IoError (List UInt8)
  second : Except IoError (List UInt8)

/-- `can_prompt`. -/
def canPrompt (stderrIsTerminal windows mintty : Bool) : Except StreamError Unit :=
  if ¬stderrIsTerminal then .error .passphraseNoTerminal
  else if windows ∧ mintty then .error .passphraseMintty
  else .ok ()

/-- What `ask` returns. An interrupted prompt ends the process and is left out. -/
def ask : Except IoError (List UInt8) → Except StreamError (List UInt8)
  | .ok answer => .ok answer
  | .error e => .error (.cli (.io ["<terminal>"] e.message))

/-- `from_terminal`. -/
def fromTerminal (terminal : Terminal) (confirm : Bool) : Except StreamError (List UInt8) :=
  match canPrompt terminal.stderrIsTerminal terminal.windows terminal.mintty with
  | .error e => .error e
  | .ok () =>
    match ask terminal.first with
    | .error e => .error e
    | .ok first =>
      if first = [] then .error .passphraseEmpty
      else if confirm then
        match ask terminal.second with
        | .error e => .error e
        | .ok second => if first ≠ second then .error .passphraseMismatch else .ok first
      else .ok first

/-- `StreamSecret`. -/
inductive StreamSecret where
  | key (key : Vector UInt8 32)
  | passphrase (given : Option (List UInt8))
  deriving DecidableEq

/-- The passphrase that is used: the one given, or what the terminal answers. -/
def phraseOf (terminal : Terminal) (confirm : Bool) :
    Option (List UInt8) → Except StreamError (List UInt8)
  | some phrase => .ok phrase
  | none => fromTerminal terminal confirm

/-- What a run gets from outside: Argon2, its memory, the terminal, and what is drawn for the
salt and the stream's header. -/
structure Surroundings where
  argon2 : Argon2
  reserve : Nat → Bool
  terminal : Terminal
  salt : Except String (Vector UInt8 saltBytes)
  header : Except String (Vector UInt8 32)

section

variable {σ ω : Type} (b : Build) (env : Surroundings) (src : Source σ IoError UInt8)
  (source : PathName) (w : WriteOutput ω)

/-! ## Encrypting -/

/-- The encryptor and the prefix to write first. -/
def startEncrypt : StreamSecret → Except StreamError (FileEncryptor × List UInt8)
  | .key key =>
    match env.header with
    | .error message => .error (.cli (.random message))
    | .ok header =>
      let (enc, filePrefix) := FileEncryptor.init b key header
      .ok (enc, filePrefix.toList)
  | .passphrase given =>
    match phraseOf env.terminal true given with
    | .error e => .error e
    | .ok phrase =>
      match sealStream env.argon2 env.reserve b env.salt env.header phrase with
      | .error e => .error (passphraseError e)
      | .ok (enc, filePrefix) => .ok (enc, filePrefix.toList)

/-- `run_secretstream_encrypt`, with what opening the input and `create` answer. -/
def encryptStream (secret : StreamSecret) (opened : Except CliError σ) (create : Except CliError ω) :
    Outcome StreamError Unit × Option ω :=
  match opened with
  | .error e => (.err (.cli e), none)
  | .ok s =>
    match startEncrypt b env secret with
    | .error e => (.err e, none)
    | .ok (enc, filePrefix) =>
      match create with
      | .error e => (.err (.cli e), none)
      | .ok out =>
        match w.writeAll out filePrefix with
        | (.error e, out) => (.err (.cli e), some out)
        | (.ok (), out) =>
          let (result, _, _, out) := writeStreamRecords b src source w enc s out
          (reportAs .cli result, some out)

/-! ## Decrypting -/

/-- `read_exact_or_truncated` into a buffer of `n` bytes. -/
def readExactOrTruncated (s : σ) (n : Nat) : Except StreamError (List UInt8) × σ :=
  match src.fill s (List.replicate n 0) with
  | (.error e, _, s') => (.error (.cli (.io source e.message)), s')
  | (.ok got, buf, s') =>
    if got < n then (.error (.cli .secretstreamTruncated), s') else (.ok buf, s')

/-- The `match` on the first byte and the secret: the decryptor, whether a passphrase made its
key, and the byte to feed it first. -/
def startWith (first : UInt8) (secret : StreamSecret) (s : σ) :
    Except StreamError (FileDecryptor × Bool × UInt8) × σ :=
  match secret with
  | .key key =>
    if first = containerType then (.error .decryptKeyForPassphraseFile, s)
    else (.ok (FileDecryptor.new key, false, first), s)
  | .passphrase given =>
    if first = containerType then
      match readExactOrTruncated src source s (CryptoPwhash.headerBytes - 1) with
      | (.error e, s) => (.error e, s)
      | (.ok rest, s) =>
        match Header.parse
          (overwrite (Vector.replicate CryptoPwhash.headerBytes 0) (first :: rest)) with
        | .error e => (.error (passphraseError e), s)
        | .ok header =>
          match phraseOf env.terminal false given with
          | .error e => (.error e, s)
          | .ok phrase =>
            match header.openStream env.argon2 env.reserve phrase with
            | .error e => (.error (passphraseError e), s)
            | .ok dec =>
              match readExactOrTruncated src source s 1 with
              | (.error e, s) => (.error e, s)
              | (.ok first, s) => (.ok (dec, true, first.headD 0), s)
    else if first = formatVersion then (.error .decryptNeedsKey, s)
    else (.error (.cli (.secretstreamUnsupportedVersion first)), s)

def startDecrypt (secret : StreamSecret) (s : σ) :
    Except StreamError (FileDecryptor × Bool × UInt8) × σ :=
  match readExactOrTruncated src source s 1 with
  | (.error e, s) => (.error e, s)
  | (.ok first, s) => startWith env src source (first.headD 0) secret s

/-- A failed tag under a passphrase is a wrong passphrase. -/
def decryptError (byPassphrase : Bool) (e : CliError) : StreamError :=
  if e = .secretstreamVerifyFailed ∧ byPassphrase then .passphraseWrong else .cli e

/-- The first byte fed, the rest streamed. -/
def decryptFrom (dec : FileDecryptor) (first : UInt8) (s : σ) (out : ω) :
    Outcome CliError Unit × FileDecryptor × σ × ω :=
  match dec.feed b [first] (List.replicate chunkBytes 0) with
  | (.error e, dec, _) => (CliError.ofFile e, dec, s, out)
  | (.ok _, dec, _) => decryptStreamRecords b src source w dec s out

/-- `run_secretstream_decrypt`, with what opening the input and `create` answer. -/
def decryptStream (secret : StreamSecret) (opened : Except CliError σ) (create : Except CliError ω) :
    Outcome StreamError Unit × Option ω :=
  match opened with
  | .error e => (.err (.cli e), none)
  | .ok s =>
    match startDecrypt env src source secret s with
    | (.error e, _) => (.err e, none)
    | (.ok (dec, byPassphrase, first), s) =>
      match create with
      | .error e => (.err (.cli e), none)
      | .ok out =>
        let (result, _, _, out) := decryptFrom b src source w dec first s out
        (reportAs (decryptError byPassphrase) result, some out)

end

/-! ## The file as a whole -/

/-- What `decrypt` makes of a whole file before it decrypts: the stream's key, whether it came
from a passphrase, and the stream file. -/
def startWhole (env : Surroundings) (secret : StreamSecret) (file : List UInt8) :
    Except StreamError (Vector UInt8 32 × Bool × List UInt8) :=
  match file with
  | [] => .error (.cli .secretstreamTruncated)
  | first :: rest =>
    match secret with
    | .key key =>
      if first = containerType then .error .decryptKeyForPassphraseFile
      else .ok (key, false, first :: rest)
    | .passphrase given =>
      if first = containerType then
        if rest.length < CryptoPwhash.headerBytes - 1 then .error (.cli .secretstreamTruncated)
        else
          match Header.parse (overwrite (Vector.replicate CryptoPwhash.headerBytes 0)
            (first :: rest.take (CryptoPwhash.headerBytes - 1))) with
          | .error e => .error (passphraseError e)
          | .ok header =>
            match phraseOf env.terminal false given with
            | .error e => .error e
            | .ok phrase =>
              match streamKey env.argon2 env.reserve phrase header.salt with
              | .error e => .error (passphraseError e)
              | .ok key =>
                match rest.drop (CryptoPwhash.headerBytes - 1) with
                | [] => .error (.cli .secretstreamTruncated)
                | first :: rest => .ok (key, true, first :: rest)
      else if first = formatVersion then .error .decryptNeedsKey
      else .error (.cli (.secretstreamUnsupportedVersion first))

section

variable {σ ω : Type} {b : Build} {env : Surroundings} {src : Source σ IoError UInt8}
  (source : PathName) {w : WriteOutput ω} {written : ω → List UInt8}

theorem readExactOrTruncated_eq (hsrc : src.Faultless) (s : σ) (n : Nat) :
    ∃ s', readExactOrTruncated src source s n
        = (if (src.rest s).length < n then .error (.cli .secretstreamTruncated)
          else .ok ((src.rest s).take n), s')
      ∧ src.rest s' = (src.rest s).drop n := by
  obtain ⟨got, buf, s', hfill, hgot, hlen, htake, hrest, hshort, -⟩ :=
    fill_chunk_eq hsrc s (List.length_replicate (n := n) (a := (0 : UInt8)))
  refine ⟨s', ?_, hrest⟩
  simp only [readExactOrTruncated, hfill]
  by_cases hend : (src.rest s).length < n
  · rw [if_pos (hshort.mpr hend), if_pos hend]
  · have hfull : got = n := by
      have hnot := mt hshort.mp hend
      omega
    rw [if_neg (mt hshort.mp hend), if_neg hend, ← htake, hfull,
      List.take_of_length_le (Nat.le_of_eq hlen)]

/-- The first byte. -/
theorem readFirst_eq (hsrc : src.Faultless) (s : σ) :
    match src.rest s with
    | [] => ∃ s', readExactOrTruncated src source s 1 = (.error (.cli .secretstreamTruncated), s')
    | first :: rest => ∃ s', readExactOrTruncated src source s 1 = (.ok [first], s')
      ∧ src.rest s' = rest := by
  obtain ⟨s', hread, hrest⟩ := readExactOrTruncated_eq source hsrc s 1
  cases hfile : src.rest s with
  | nil =>
    rw [hfile, if_pos (by decide)] at hread
    exact ⟨s', hread⟩
  | cons first rest =>
    rw [hfile, if_neg (by simp)] at hread
    rw [hfile] at hrest
    exact ⟨s', hread, hrest⟩

variable (env) in
theorem startWith_eq (hsrc : src.Faultless) (secret : StreamSecret) (first : UInt8) (s : σ) :
    match startWhole env secret (first :: src.rest s) with
    | .error e => ∃ s', startWith env src source first secret s = (.error e, s')
    | .ok (key, byPassphrase, stream) => ∃ first' s', startWith env src source first secret s
        = (.ok (FileDecryptor.new key, byPassphrase, first'), s')
      ∧ stream = first' :: src.rest s' := by
  cases secret with
  | key key =>
    simp only [startWhole, startWith]
    by_cases hkind : first = containerType
    · rw [if_pos hkind, if_pos hkind]
      exact ⟨s, rfl⟩
    · rw [if_neg hkind, if_neg hkind]
      exact ⟨first, s, rfl, rfl⟩
  | passphrase given =>
    simp only [startWhole, startWith]
    by_cases hkind : first = containerType
    · rw [if_pos hkind, if_pos hkind]
      obtain ⟨s₁, hread, hrest⟩ :=
        readExactOrTruncated_eq source hsrc s (CryptoPwhash.headerBytes - 1)
      by_cases hshort : (src.rest s).length < CryptoPwhash.headerBytes - 1
      · rw [if_pos hshort] at hread ⊢
        rw [hread]
        exact ⟨s₁, rfl⟩
      · rw [if_neg hshort] at hread ⊢
        rw [hread]
        dsimp only
        cases Header.parse (overwrite (Vector.replicate CryptoPwhash.headerBytes 0)
          (first :: (src.rest s).take (CryptoPwhash.headerBytes - 1))) with
        | error e => exact ⟨s₁, rfl⟩
        | ok header =>
          dsimp only
          cases phraseOf env.terminal false given with
          | error e => exact ⟨s₁, rfl⟩
          | ok phrase =>
            dsimp only [Header.openStream]
            cases streamKey env.argon2 env.reserve phrase header.salt with
            | error e => exact ⟨s₁, rfl⟩
            | ok key =>
              have hnext := readFirst_eq source hsrc s₁
              rw [hrest] at hnext
              dsimp only
              cases hstream : (src.rest s).drop (CryptoPwhash.headerBytes - 1) with
              | nil =>
                rw [hstream] at hnext
                obtain ⟨s₂, hread₂⟩ := hnext
                exact ⟨s₂, by rw [hread₂]⟩
              | cons version stream =>
                rw [hstream] at hnext
                obtain ⟨s₂, hread₂, hrest₂⟩ := hnext
                exact ⟨version, s₂, by rw [hread₂]; rfl, by rw [hrest₂]⟩
    · rw [if_neg hkind, if_neg hkind]
      by_cases hversion : first = formatVersion
      · rw [if_pos hversion, if_pos hversion]
        exact ⟨s, rfl⟩
      · rw [if_neg hversion, if_neg hversion]
        exact ⟨s, rfl⟩

variable (env) in
/-- Reading piece by piece what the whole file says. -/
theorem startDecrypt_eq (hsrc : src.Faultless) (secret : StreamSecret) (s : σ) :
    match startWhole env secret (src.rest s) with
    | .error e => ∃ s', startDecrypt env src source secret s = (.error e, s')
    | .ok (key, byPassphrase, stream) => ∃ first s', startDecrypt env src source secret s
        = (.ok (FileDecryptor.new key, byPassphrase, first), s')
      ∧ stream = first :: src.rest s' := by
  have hfirst := readFirst_eq source hsrc s
  cases hfile : src.rest s with
  | nil =>
    rw [hfile] at hfirst
    obtain ⟨s', hread⟩ := hfirst
    exact ⟨s', by rw [startDecrypt, hread]⟩
  | cons first rest =>
    rw [hfile] at hfirst
    obtain ⟨s', hread, rfl⟩ := hfirst
    rw [startDecrypt, hread]
    exact startWith_eq env source hsrc secret first s'

/-! ## What `decrypt` accepts -/

/-- The files that hold `p` for a secret: a stream file, or one behind a header that was
written for some salt. -/
def Accepted (b : Build) (env : Surroundings) (secret : StreamSecret) (file p : List UInt8) : Prop :=
  match secret with
  | .key key => openAll b (FileDecryptor.new key) file = .ok p
  | .passphrase given => ∃ phrase salt key stream, phraseOf env.terminal false given = .ok phrase
    ∧ streamKey env.argon2 env.reserve phrase salt = .ok key
    ∧ file = (headerOf salt).toList ++ stream
    ∧ openAll b (FileDecryptor.new key) stream = .ok p

/-- Where a header is read, the file begins with it. -/
theorem eq_headerOf_append {first : UInt8} {rest : List UInt8} {header : Header}
    (hlong : ¬rest.length < CryptoPwhash.headerBytes - 1)
    (h : Header.parse (overwrite (Vector.replicate CryptoPwhash.headerBytes 0)
      (first :: rest.take (CryptoPwhash.headerBytes - 1))) = .ok header) :
    first :: rest = (headerOf header.salt).toList ++ rest.drop (CryptoPwhash.headerBytes - 1) := by
  have hlen : (first :: rest.take (CryptoPwhash.headerBytes - 1)).length
      = CryptoPwhash.headerBytes := by
    rw [List.length_cons, List.length_take_of_le (Nat.le_of_not_lt hlong)]
    rfl
  have hparse := congrArg Vector.toList (parse_eq_ok_iff.mp h)
  rw [toList_overwrite_of_length _ hlen] at hparse
  rw [← hparse, List.cons_append, List.take_append_drop]

/-- Where a file begins with a header, it is read. -/
theorem parse_headerOf {first : UInt8} {rest stream : List UInt8} {salt : Vector UInt8 saltBytes}
    (hfile : first :: rest = (headerOf salt).toList ++ stream) :
    first = containerType ∧ ¬rest.length < CryptoPwhash.headerBytes - 1
      ∧ Header.parse (overwrite (Vector.replicate CryptoPwhash.headerBytes 0)
        (first :: rest.take (CryptoPwhash.headerBytes - 1))) = .ok ⟨salt⟩
      ∧ rest.drop (CryptoPwhash.headerBytes - 1) = stream := by
  have hlen : (headerOf salt).toList.length = CryptoPwhash.headerBytes := Vector.length_toList
  obtain ⟨header, hheader⟩ : ∃ header, (headerOf salt).toList = containerType :: header := by
    rw [headerOf, toList_headerWith]
    exact ⟨_, rfl⟩
  rw [hheader, List.length_cons] at hlen
  have hlen' : header.length = CryptoPwhash.headerBytes - 1 := by omega
  rw [hheader, List.cons_append, List.cons.injEq] at hfile
  obtain ⟨rfl, rfl⟩ := hfile
  refine ⟨rfl, ?_, ?_, ?_⟩
  · rw [List.length_append]
    omega
  · rw [← hlen', List.take_left, ← hheader, parse_eq_ok_iff]
    exact Vector.toList_inj.mp (toList_overwrite_of_length _ Vector.length_toList)
  · rw [← hlen', List.drop_left]

/-- An accepted stream file begins with its version. -/
theorem version_of_openAll {key : Vector UInt8 32} {file p : List UInt8}
    (h : openAll b (FileDecryptor.new key) file = .ok p) :
    ∃ rest, file = formatVersion :: rest := by
  obtain ⟨header, chunks, ⟨-, records, enc, -, rfl⟩, -⟩ := openAll_eq_ok_iff_isFile.mp h
  rw [FileEncryptor.toList_init_snd, List.cons_append]
  exact ⟨_, rfl⟩

/-- The start of a passphrase file. -/
theorem startWhole_headerOf {given : Option (List UInt8)} {phrase : List UInt8}
    {salt : Vector UInt8 saltBytes} {key : Vector UInt8 32}
    (hphrase : phraseOf env.terminal false given = .ok phrase)
    (hkey : streamKey env.argon2 env.reserve phrase salt = .ok key) (version : UInt8)
    (stream : List UInt8) :
    startWhole env (.passphrase given) ((headerOf salt).toList ++ version :: stream)
      = .ok (key, true, version :: stream) := by
  obtain ⟨first, rest, hfile⟩ : ∃ first rest,
      (headerOf salt).toList ++ version :: stream = first :: rest := by
    rw [headerOf, toList_headerWith]
    exact ⟨_, _, rfl⟩
  obtain ⟨hfirst, hlong, hparse, hdrop⟩ := parse_headerOf hfile.symm
  rw [hfile]
  simp only [startWhole, if_pos hfirst, if_neg hlong, hparse, hphrase, hkey, hdrop]

def StreamSecret.isPassphrase : StreamSecret → Bool
  | .key _ => false
  | .passphrase _ => true

theorem headerOf_inj {salt salt' : Vector UInt8 saltBytes} (h : headerOf salt = headerOf salt') :
    salt = salt' := by
  have hparse : Header.parse (headerOf salt) = .ok ⟨salt⟩ := parse_eq_ok_iff.mpr rfl
  rw [h, show Header.parse (headerOf salt') = .ok ⟨salt'⟩ from parse_eq_ok_iff.mpr rfl] at hparse
  cases hparse
  rfl

/-- Behind the same header, the same key. -/
theorem accepted_headerOf_iff {given : Option (List UInt8)} {phrase : List UInt8}
    {salt : Vector UInt8 saltBytes} {key : Vector UInt8 32}
    (hphrase : phraseOf env.terminal false given = .ok phrase)
    (hkey : streamKey env.argon2 env.reserve phrase salt = .ok key) (stream p : List UInt8) :
    Accepted b env (.passphrase given) ((headerOf salt).toList ++ stream) p
      ↔ openAll b (FileDecryptor.new key) stream = .ok p := by
  constructor
  · rintro ⟨phrase', salt', key', stream', hphrase', hkey', hfile, hopen⟩
    obtain ⟨hheader, rfl⟩ := List.append_inj hfile (by rw [Vector.length_toList, Vector.length_toList])
    obtain rfl := headerOf_inj (Vector.toList_inj.mp hheader)
    obtain rfl : phrase = phrase' := Except.ok.inj (hphrase.symm.trans hphrase')
    obtain rfl : key = key' := Except.ok.inj (hkey.symm.trans hkey')
    exact hopen
  · intro hopen
    exact ⟨phrase, salt, key, stream, hphrase, hkey, rfl, hopen⟩

/-- A passphrase starts nothing but a stream file behind a header that is read. -/
theorem startWhole_passphrase_eq_ok {given : Option (List UInt8)} {file stream : List UInt8}
    {key : Vector UInt8 32} {byPassphrase : Bool}
    (h : startWhole env (.passphrase given) file = .ok (key, byPassphrase, stream)) :
    byPassphrase = true ∧ ∃ phrase salt, phraseOf env.terminal false given = .ok phrase
      ∧ streamKey env.argon2 env.reserve phrase salt = .ok key
      ∧ file = (headerOf salt).toList ++ stream := by
  cases file with
  | nil => cases h
  | cons first rest =>
    by_cases hfirst : first = containerType
    · by_cases hlong : rest.length < CryptoPwhash.headerBytes - 1
      · simp only [startWhole, if_pos hfirst, if_pos hlong, reduceCtorEq] at h
      · simp only [startWhole, if_pos hfirst, if_neg hlong] at h
        -- the parts follow in the order in which the command asks for them
        cases hparse : Header.parse (overwrite (Vector.replicate CryptoPwhash.headerBytes 0)
            (first :: rest.take (CryptoPwhash.headerBytes - 1))) with
        | error e => rw [hparse] at h; cases h
        | ok header =>
          rw [hparse] at h
          cases hphrase : phraseOf env.terminal false given with
          | error e => rw [hphrase] at h; cases h
          | ok phrase =>
            rw [hphrase] at h
            cases hkey : streamKey env.argon2 env.reserve phrase header.salt with
            | error e => simp only [hkey, reduceCtorEq] at h
            | ok key' =>
              simp only [hkey] at h
              have hfile := eq_headerOf_append hlong hparse
              cases hdrop : rest.drop (CryptoPwhash.headerBytes - 1) with
              | nil => rw [hdrop] at h; cases h
              | cons version stream' =>
                rw [hdrop] at h hfile
                cases h
                exact ⟨rfl, phrase, header.salt, rfl, hkey, hfile⟩
    · simp only [startWhole, if_neg hfirst] at h
      split at h <;> cases h

/-- What is started is a front that settles the key, and a stream file. -/
theorem startWhole_eq_ok {secret : StreamSecret} {file stream : List UInt8} {key : Vector UInt8 32}
    {byPassphrase : Bool} (h : startWhole env secret file = .ok (key, byPassphrase, stream)) :
    byPassphrase = secret.isPassphrase ∧ ∃ front, file = front ++ stream
      ∧ ∀ stream p, Accepted b env secret (front ++ stream) p
        ↔ openAll b (FileDecryptor.new key) stream = .ok p := by
  cases secret with
  | key key' =>
    cases file with
    | nil => cases h
    | cons first rest =>
      simp only [startWhole] at h
      split at h
      · cases h
      · cases h
        exact ⟨rfl, [], rfl, fun stream p => Iff.rfl⟩
  | passphrase given =>
    obtain ⟨rfl, phrase, salt, hphrase, hkey, hfile⟩ := startWhole_passphrase_eq_ok h
    exact ⟨rfl, (headerOf salt).toList, hfile, accepted_headerOf_iff hphrase hkey⟩

/-- What is started and opens is accepted, and conversely. -/
theorem accepted_iff {secret : StreamSecret} {file p : List UInt8} :
    Accepted b env secret file p ↔ ∃ key byPassphrase stream,
      startWhole env secret file = .ok (key, byPassphrase, stream)
        ∧ openAll b (FileDecryptor.new key) stream = .ok p := by
  constructor
  · intro h
    cases secret with
    | key key =>
      obtain ⟨rest, rfl⟩ := version_of_openAll h
      have hkind : formatVersion ≠ containerType := by decide
      exact ⟨key, false, _, by simp only [startWhole, if_neg hkind], h⟩
    | passphrase given =>
      obtain ⟨phrase, salt, key, stream, hphrase, hkey, hfile, hopen⟩ := h
      obtain ⟨rest, rfl⟩ := version_of_openAll hopen
      -- the header stays folded: its 28 bytes are of no interest here
      rw [hfile]
      exact ⟨key, true, _, startWhole_headerOf hphrase hkey _ _, hopen⟩
  · rintro ⟨key, byPassphrase, stream, hstart, hopen⟩
    obtain ⟨-, front, rfl, haccepted⟩ := startWhole_eq_ok (b := b) hstart
    exact (haccepted stream p).mpr hopen

theorem decryptFrom_new (key : Vector UInt8 32) (first : UInt8) (s : σ) (out : ω) :
    decryptFrom b src source w (FileDecryptor.new key) first s out
      = decryptAfterVersion b src source w key first s out := by
  unfold decryptFrom decryptAfterVersion
  generalize (FileDecryptor.new key).feed b [first] (List.replicate chunkBytes 0) = fed
  obtain ⟨result, dec, opened⟩ := fed
  cases result with
  | error e => rfl
  | ok n => rfl

variable (env) in
/-- `decrypt` is `startWhole`, and from there on the reading of a stream file. -/
theorem decryptStream_eq (hsrc : src.Faultless) (hw : w.Collects written) (secret : StreamSecret)
    (s : σ) (out : ω) :
    match startWhole env secret (src.rest s) with
    | .error e => ∀ create : Except CliError ω,
      decryptStream b env src source w secret (.ok s) create = (.err e, none)
    | .ok (key, byPassphrase, stream) => ∃ result out',
      decryptStream b env src source w secret (.ok s) (.ok out)
          = (reportAs (decryptError byPassphrase) result, some out')
        ∧ StreamedAs b key stream (written out) (written out') result := by
  have hstart := startDecrypt_eq env source hsrc secret s
  cases hwhole : startWhole env secret (src.rest s) with
  | error e =>
    rw [hwhole] at hstart
    obtain ⟨s', hstart⟩ := hstart
    intro create
    rw [decryptStream]
    dsimp only
    rw [hstart]
  | ok started =>
    obtain ⟨key, byPassphrase, stream⟩ := started
    rw [hwhole] at hstart
    obtain ⟨first, s', hstart, rfl⟩ := hstart
    obtain ⟨dec', s'', out', released, hrun, hwritten, hreleased⟩ :=
      decryptAfterVersion_eq (b := b) source hsrc hw key first s' out
    refine ⟨ofOpen (openAll b (FileDecryptor.new key) (first :: src.rest s')), out', ?_,
      streamedAs_of_released rfl hwritten hreleased⟩
    rw [decryptStream]
    dsimp only
    rw [hstart]
    dsimp only
    rw [decryptFrom_new, hrun]

/-- The kinds of file that a secret of the other kind does not open. -/
theorem startWhole_of_other_kind (rest : List UInt8) :
    (∀ key, startWhole env (.key key) (containerType :: rest) = .error .decryptKeyForPassphraseFile)
      ∧ ∀ given, startWhole env (.passphrase given) (formatVersion :: rest)
        = .error .decryptNeedsKey := by
  refine ⟨fun key => ?_, fun given => ?_⟩
  · simp only [startWhole, if_true]
  · simp only [startWhole, if_neg (show formatVersion ≠ containerType by decide), if_true]

/-! ## Round trip -/

/-- `encrypt`'s secret as `decrypt` is given it: the same key, or one passphrase on both
sides, from a file or from the terminal. -/
def SameSecret (env env' : Surroundings) (secret secret' : StreamSecret) : Prop :=
  match secret, secret' with
  | .key key, .key key' => key = key'
  | .passphrase given, .passphrase given' => ∃ phrase,
    phraseOf env.terminal true given = .ok phrase ∧ phraseOf env'.terminal false given' = .ok phrase
  | _, _ => False

/-- What `encrypt` starts is a key, a header and what comes before the stream file. -/
theorem startEncrypt_eq_ok {secret : StreamSecret} {enc : FileEncryptor} {pre : List UInt8}
    (h : startEncrypt b env secret = .ok (enc, pre)) :
    ∃ key header front, enc = (FileEncryptor.init b key header).1
      ∧ pre = front ++ (FileEncryptor.init b key header).2.toList
      ∧ ∀ env' secret' stream p, SameSecret env env' secret secret' → env'.argon2 = env.argon2 →
        env'.reserve (env.argon2.blockCount strength.params) = true →
        openAll b (FileDecryptor.new key) stream = .ok p →
          Accepted b env' secret' (front ++ stream) p := by
  cases secret with
  | key key =>
    rw [startEncrypt] at h
    split at h
    · cases h
    · rename_i header hheader
      cases h
      refine ⟨key, header, [], rfl, rfl, fun env' secret' stream p hsame _ _ hopen => ?_⟩
      cases secret' with
      | key key' =>
        cases hsame
        exact hopen
      | passphrase given => exact hsame.elim
  | passphrase given =>
    rw [startEncrypt] at h
    split at h
    · cases h
    · rename_i phrase hphrase
      cases hseal : sealStream env.argon2 env.reserve b env.salt env.header phrase with
      | error e =>
        rw [hseal] at h
        cases h
      | ok sealed =>
        obtain ⟨enc', filePrefix⟩ := sealed
        rw [hseal] at h
        cases h
        obtain ⟨salt, header, key, -, -, hkey, rfl, hpre⟩ := sealStream_eq_ok hseal
        refine ⟨key, header, (headerOf salt).toList, rfl, hpre,
          fun env' secret' stream p hsame hargon2 hreserve hopen => ?_⟩
        cases secret' with
        | key key' => exact hsame.elim
        | passphrase given' =>
          obtain ⟨phrase', hphrase', hother⟩ := hsame
          obtain rfl : phrase = phrase' := Except.ok.inj (hphrase.symm.trans hphrase')
          exact ⟨phrase, salt, key, stream, hother,
            hargon2 ▸ streamKey_of_ok hkey hreserve, rfl, hopen⟩

/-! ## The commands -/

/-- How a run that has reserved its output fails: the stream file does not open under the key
that the secret and the front of the file settle, and what was written is the plaintext of
verified records, with which every accepted file begins that begins like this one. -/
def FailedWith (b : Build) (env : Surroundings) (secret : StreamSecret)
    (file before after : List UInt8) (e : StreamError) : Prop :=
  ∃ front key consumed tail released fileError, file = front ++ (consumed ++ tail)
    ∧ (∀ stream p, Accepted b env secret (front ++ stream) p
      ↔ openAll b (FileDecryptor.new key) stream = .ok p)
    ∧ openAll b (FileDecryptor.new key) (consumed ++ tail) = .error fileError
    ∧ reportAs (decryptError secret.isPassphrase) (CliError.ofFile fileError) = .err e
    ∧ after = before ++ released ∧ VerifiedRecords b key consumed released
    ∧ ∀ tail' p, Accepted b env secret (front ++ (consumed ++ tail')) p → released <+: p

variable (env) in
theorem decryptStream_ok_iff (hsrc : src.Faultless) (hw : w.Collects written) (secret : StreamSecret)
    (s : σ) (out : ω) (p : List UInt8) :
    (∃ out', decryptStream b env src source w secret (.ok s) (.ok out) = (.ok (), some out')
        ∧ written out' = written out ++ p) ↔ Accepted b env secret (src.rest s) p := by
  have hrun := decryptStream_eq (b := b) env source hsrc hw secret s out
  rw [accepted_iff]
  cases hwhole : startWhole env secret (src.rest s) with
  | error e =>
    rw [hwhole] at hrun
    constructor
    · rintro ⟨out', hdecrypt, -⟩
      rw [hrun] at hdecrypt
      cases hdecrypt
    · rintro ⟨key, byPassphrase, stream, hstart, -⟩
      cases hstart
  | ok started =>
    obtain ⟨key, byPassphrase, stream⟩ := started
    rw [hwhole] at hrun
    obtain ⟨result, out', hdecrypt, hstreamed⟩ := hrun
    rw [hdecrypt]
    constructor
    · rintro ⟨out'', hok, hwritten⟩
      cases result with
      | ok u =>
        cases hok
        exact ⟨key, byPassphrase, stream, rfl, (hstreamed.ok_iff p).mp ⟨rfl, hwritten⟩⟩
      | err e => cases hok
      | panic => cases hok
    · rintro ⟨key', byPassphrase', stream', hstart, hopen⟩
      cases hstart
      obtain ⟨rfl, hwritten⟩ := (hstreamed.ok_iff p).mpr hopen
      exact ⟨out', rfl, hwritten⟩

/-- After the output has been reserved, `decrypt` fails only as a stream file does. -/
theorem failedWith_of_decryptStream (hsrc : src.Faultless) (hw : w.Collects written)
    {secret : StreamSecret} {s : σ} {out out' : ω} {e : StreamError}
    (h : decryptStream b env src source w secret (.ok s) (.ok out) = (.err e, some out')) :
    FailedWith b env secret (src.rest s) (written out) (written out') e := by
  have hrun := decryptStream_eq (b := b) env source hsrc hw secret s out
  cases hwhole : startWhole env secret (src.rest s) with
  | error e' =>
    -- refused before: there is no output
    rw [hwhole] at hrun
    rw [hrun] at h
    cases h
  | ok started =>
    obtain ⟨key, byPassphrase, stream⟩ := started
    rw [hwhole] at hrun
    obtain ⟨rfl, front, hfile, haccepted⟩ := startWhole_eq_ok (b := b) hwhole
    obtain ⟨result, out'', hrun, hstreamed⟩ := hrun
    rw [hrun] at h
    cases hopen : openAll b (FileDecryptor.new key) stream with
    | ok p =>
      obtain ⟨rfl, -⟩ := (hstreamed.ok_iff p).mpr hopen
      cases h
    | error fileError =>
      obtain ⟨rfl, -, consumed, tail, released, rfl, hafter, hverified, hprefix⟩ :=
        hstreamed.error fileError hopen
      rw [Prod.mk.injEq, Option.some.injEq] at h
      obtain ⟨hreport, rfl⟩ := h
      exact ⟨front, key, consumed, tail, released, fileError, hfile, haccepted, hopen, hreport,
        hafter, hverified, fun tail' p h => hprefix tail' p ((haccepted _ p).mp h)⟩

/-- A file of less than `2^64` bytes uses up no record counter, so no `unreachable!` is reached. -/
theorem decryptStream_ne_panic (hsrc : src.Faultless) (hw : w.Collects written)
    (secret : StreamSecret) {s : σ} (hlen : (src.rest s).length < 2 ^ 64) (out : ω) :
    (decryptStream b env src source w secret (.ok s) (.ok out)).1 ≠ .panic := by
  have hrun := decryptStream_eq (b := b) env source hsrc hw secret s out
  intro hpanic
  cases hwhole : startWhole env secret (src.rest s) with
  | error e =>
    rw [hwhole] at hrun
    rw [hrun] at hpanic
    cases hpanic
  | ok started =>
    obtain ⟨key, byPassphrase, stream⟩ := started
    rw [hwhole] at hrun
    obtain ⟨-, front, hfile, -⟩ := startWhole_eq_ok (b := b) hwhole
    obtain ⟨result, out', hdecrypt, hstreamed⟩ := hrun
    rw [hdecrypt] at hpanic
    have hshort : stream.length < 2 ^ 64 := by
      rw [hfile, List.length_append] at hlen
      omega
    cases hopen : openAll b (FileDecryptor.new key) stream with
    | ok p =>
      obtain ⟨rfl, -⟩ := (hstreamed.ok_iff p).mpr hopen
      cases hpanic
    | error fileError =>
      obtain ⟨-, herror, -⟩ := hstreamed.error fileError hopen
      obtain ⟨e', rfl⟩ := herror hshort
      cases hpanic

variable (env) in
/-- **`decrypt`.** However the file arrives, it is written out exactly when it is accepted; a
secret of the wrong kind is refused before an output is reserved; a failure after that leaves
only verified plaintext; and no file of less than `2^64` bytes reaches an `unreachable!`. -/
theorem decrypt_command_exact (hsrc : src.Faultless) (hw : w.Collects written)
    (secret : StreamSecret) (s : σ) (out : ω) :
    (∀ p, (∃ out', decryptStream b env src source w secret (.ok s) (.ok out) = (.ok (), some out')
        ∧ written out' = written out ++ p) ↔ Accepted b env secret (src.rest s) p)
      ∧ (∀ key rest, secret = .key key → src.rest s = containerType :: rest →
        ∀ create : Except CliError ω, decryptStream b env src source w secret (.ok s) create
          = (.err .decryptKeyForPassphraseFile, none))
      ∧ (∀ given rest, secret = .passphrase given → src.rest s = formatVersion :: rest →
        ∀ create : Except CliError ω, decryptStream b env src source w secret (.ok s) create
          = (.err .decryptNeedsKey, none))
      ∧ (∀ e out', decryptStream b env src source w secret (.ok s) (.ok out) = (.err e, some out') →
        FailedWith b env secret (src.rest s) (written out) (written out') e)
      ∧ ((src.rest s).length < 2 ^ 64 →
        (decryptStream b env src source w secret (.ok s) (.ok out)).1 ≠ .panic) := by
  have hrun := decryptStream_eq (b := b) env source hsrc hw secret s out
  refine ⟨decryptStream_ok_iff env source hsrc hw secret s out, ?_, ?_, ?_, ?_⟩
  · rintro key rest rfl hfile create
    rw [hfile, (startWhole_of_other_kind rest).1] at hrun
    exact hrun create
  · rintro given rest rfl hfile create
    rw [hfile, (startWhole_of_other_kind rest).2] at hrun
    exact hrun create
  · intro e out' hdecrypt
    exact failedWith_of_decryptStream source hsrc hw hdecrypt
  · intro hlen
    exact decryptStream_ne_panic source hsrc hw secret hlen out

/-- The passphrase of the test vectors. -/
def vectorSurroundings : Surroundings where
  argon2 := vectorArgon2
  reserve _ := true
  terminal := ⟨false, false, false, .ok [], .ok []⟩
  salt := .ok vectorSalt
  header := .ok (Vector.replicate 32 1)

/-- A passphrase file is not decrypted with a key, however short it is. -/
theorem decrypt_command_exact_key :
    decryptStream ⟨.fused, false⟩ vectorSurroundings (scheduled IoError UInt8) ["-"] vecOutput
        (.key vectorKey) (.ok ([0x50, 0x01], [none, some 1])) (.ok [])
      = (.err .decryptKeyForPassphraseFile, none) := by
  obtain ⟨-, hkey, -⟩ := decrypt_command_exact (b := ⟨.fused, false⟩) vectorSurroundings
    ["-"] (faultless_scheduled IoError UInt8) collects_vecOutput (.key vectorKey)
    ([0x50, 0x01], [none, some 1]) []
  exact hkey vectorKey [0x01] rfl rfl (.ok [])

variable (env) in
/-- **`encrypt`, then `decrypt`.** What `encrypt` writes under a secret, `decrypt` gives back
under the same one, however input and file arrive. -/
theorem encrypt_decrypt {σ' ω' : Type} {src' : Source σ' IoError UInt8} {w' : WriteOutput ω'}
    {written' : ω' → List UInt8} (hsrc : src.Faultless) (hsrc' : src'.Faultless)
    (hw : w.Collects written) (hw' : w'.Collects written') (env' : Surroundings)
    (secret secret' : StreamSecret) (hsame : SameSecret env env' secret secret')
    (hargon2 : env'.argon2 = env.argon2)
    (hreserve : env'.reserve (env.argon2.blockCount strength.params) = true) (s : σ) (out : ω)
    (hcount : recordCount (src.rest s).length < 2 ^ 64) (enc : FileEncryptor) (pre : List UInt8)
    (hstart : startEncrypt b env secret = .ok (enc, pre)) :
    ∃ out' file, encryptStream b env src source w secret (.ok s) (.ok out) = (.ok (), some out')
      ∧ written out' = written out ++ file
      ∧ ∀ s' out₀, src'.rest s' = file → ∃ out'',
        decryptStream b env' src' source w' secret' (.ok s') (.ok out₀) = (.ok (), some out'')
          ∧ written' out'' = written' out₀ ++ src.rest s := by
  obtain ⟨key, header, front, rfl, rfl, haccepted⟩ := startEncrypt_eq_ok hstart
  obtain ⟨out₁, hwrite, hwritten₁⟩ := hw out (front ++ (FileEncryptor.init b key header).2.toList)
  obtain ⟨s', out', hrecords, hwritten'⟩ :=
    writeStreamRecords_eq b source hsrc hw (FileEncryptor.init b key header).1 s out₁
  obtain ⟨enc', stream, hall, hfile⟩ :=
    isFile_sealAll_append b key header (src.rest s) (written out ++ front) hcount
  rw [hwritten₁, ← List.append_assoc, hall] at hrecords hwritten'
  have hopen : openAll b (FileDecryptor.new key) stream = .ok (src.rest s) :=
    openAll_eq_ok_iff_isFile.mpr ⟨header, _, hfile, by rw [plaintextOf_chunksOf]⟩
  refine ⟨out', front ++ stream, ?_, ?_, ?_⟩
  · rw [encryptStream]
    dsimp only
    rw [hstart]
    dsimp only
    rw [hwrite]
    dsimp only
    rw [hrecords]
    rfl
  · rw [hwritten', List.append_assoc]
  · intro s' out₀ hrest
    refine (decryptStream_ok_iff env' source hsrc' hw' secret' s' out₀ (src.rest s)).mpr ?_
    rw [hrest]
    exact haccepted env' secret' stream _ hsame hargon2 hreserve hopen

theorem streamKey_vector :
    streamKey vectorArgon2 (fun _ => true) vectorPassword vectorSalt = .ok vectorKey :=
  streamKey_eq_ok_iff.mpr ⟨by decide, rfl, hashInto_vector⟩

/-- Three bytes under the passphrase of the test vectors. -/
theorem encrypt_decrypt_vector :
    ∃ file, (encryptStream ⟨.fused, false⟩ vectorSurroundings (scheduled IoError UInt8) ["-"]
        vecOutput (.passphrase (some vectorPassword)) (.ok ([1, 2, 3], [some 1, none])) (.ok []))
        = (.ok (), some file)
      ∧ (decryptStream ⟨.fused, false⟩ vectorSurroundings (scheduled IoError UInt8) ["-"] vecOutput
        (.passphrase (some vectorPassword)) (.ok (file, [some 7])) (.ok []))
        = (.ok (), some [1, 2, 3]) := by
  obtain ⟨enc, pre, hstart⟩ : ∃ enc pre, startEncrypt ⟨.fused, false⟩ vectorSurroundings
      (.passphrase (some vectorPassword)) = .ok (enc, pre) := by
    refine ⟨(FileEncryptor.init ⟨.fused, false⟩ vectorKey (Vector.replicate 32 1)).1,
      (headerOf vectorSalt ++
        (FileEncryptor.init ⟨.fused, false⟩ vectorKey (Vector.replicate 32 1)).2).toList, ?_⟩
    simp only [startEncrypt, phraseOf, vectorSurroundings, sealStream, streamKey_vector]
  obtain ⟨out', file, hencrypt, hfile, hdecrypt⟩ := encrypt_decrypt vectorSurroundings ["-"]
    (faultless_scheduled IoError UInt8) (faultless_scheduled IoError UInt8) collects_vecOutput
    collects_vecOutput vectorSurroundings (.passphrase (some vectorPassword))
    (.passphrase (some vectorPassword)) ⟨vectorPassword, rfl, rfl⟩ rfl rfl
    ([1, 2, 3], [some 1, none]) [] (by decide) enc pre hstart
  obtain ⟨out'', hrun, hwritten⟩ := hdecrypt (file, [some 7]) [] rfl
  obtain rfl : out' = file := hfile
  obtain rfl : out'' = [1, 2, 3] := hwritten
  exact ⟨out', hencrypt, hrun⟩

end

end UaCrypt.Cli
