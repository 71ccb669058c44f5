import UaCrypt.Cli.CheckOutputs
import UaCrypt.Cli.Interrupt
import UaCrypt.Hazmat.KalynaCcm

/-!
# `kalyna-ccm encrypt` and `kalyna-gcm encrypt` (`run_ccm_command`, `run_gcm_command`)

Three outputs, `--out`, `--nonce` and `--tag`, are reserved before anything is read but the
key, and committed one after the other once the input is sealed. Whatever fails, the outputs
that are still there are dropped.

The command is a machine over its outputs that takes at most one system call a step; a
step's `World` is what the system answers.

- `aead_breaks_pair`: when `--tag` cannot be renamed, `--out` has already been replaced.
- `aead_error_cases`: **a command that returns an error has changed nothing, or it was a
  write, a sync or a rename of `--tag` or `--nonce` that failed**; then the outputs committed
  before it are whole, and they are all that has changed.
-/

namespace UaCrypt.Cli

open FileTree FileTree.Files Secretstream Hazmat Hazmat.Kalyna

/-! ## Sealing -/

/-- `impl From<CcmError> for CliError`. -/
def CliError.ofCcm : KalynaCcm.CcmError → CliError
  | .emptyPlaintext => .emptyInput "kalyna-ccm"
  | .plaintextTooLong => .plaintextTooLong
  | .aadTooLong => .aadTooLong
  | .tagMismatch => .ccmVerifyFailed

/-- `impl From<GcmError> for CliError`. -/
def CliError.ofGcm : KalynaGcm.GcmError → CliError
  | .emptyInput => .emptyInput "kalyna-gcm"
  | .invalidLength => .gcmVerifyFailed
  | .tagMismatch => .gcmVerifyFailed

/-- `for _ in 0..iterations`, until a turn fails. -/
def iterate {ε σ : Type} (turn : σ → Outcome ε σ) : Nat → σ → Outcome ε σ
  | 0, state => .ok state
  | n + 1, state =>
    match turn state with
    | .ok state => iterate turn n state
    | .err e => .err e
    | .panic => .panic

/-- `copy_from_slice` into an array of `n` bytes; lengths that differ panic. -/
def copyFromSlice (n : Nat) (bytes : List UInt8) : Option (Vector UInt8 n) :=
  if h : bytes.length = n then some ⟨bytes.toArray, by rw [List.size_toArray]; exact h⟩ else none

/-- The two commands. -/
inductive Aead where
  | ccm
  | gcm
  deriving DecidableEq, Repr

/-- A turn of `run_ccm_variant!`: the buffer is a fresh copy of the input each time. -/
def ccmTurn (p : Tables.Profile) {v : Variant} (cipher : KalynaCcm.Ccm v)
    (nonce : Vector UInt8 v.blockBytes) (aad input : List UInt8)
    (_ : List UInt8 × List UInt8) : Outcome CliError (List UInt8 × List UInt8) :=
  match cipher.sealInPlace p nonce aad input with
  | none => .panic
  | some (.error e, _) => .err (.ofCcm e)
  | some (.ok tag, buf) => .ok (buf, tag.toList)

/-- A turn of `run_gcm_variant!`: the buffer is the one of the turn before. -/
def gcmTurn (b : Build) {v : Variant} (cipher : KalynaGcm.Gcm v)
    (nonce : Vector UInt8 v.blockBytes) (aad input : List UInt8)
    (state : List UInt8 × List UInt8) : Outcome CliError (List UInt8 × List UInt8) :=
  match cipher.encrypt b nonce aad input state.1 with
  | (.error e, _) => .err (.ofGcm e)
  | (.ok tag, buf) => .ok (buf, tag.toList)

/-- `run_ccm_variant!` and `run_gcm_variant!` on encrypt: the output and the tag. -/
def Aead.encrypt (b : Build) (v : Variant) (iterations : Nat) (key nonce aad input : List UInt8) :
    Aead → Outcome CliError (List UInt8 × List UInt8)
  | .ccm =>
    match copyFromSlice v.keyBytes key, copyFromSlice v.blockBytes nonce with
    | some key, some nonce =>
      iterate (ccmTurn b.profile (KalynaCcm.Ccm.new b.profile v key) nonce aad input)
        (max iterations 1) (input, [])
    | _, _ => .panic
  | .gcm =>
    match copyFromSlice v.keyBytes key, copyFromSlice v.blockBytes nonce with
    | some key, some nonce =>
      iterate (gcmTurn b (KalynaGcm.Gcm.new b v key) nonce aad input) (max iterations 1)
        (List.replicate input.length 0, List.replicate v.blockBytes 0)
    | _, _ => .panic

/-! ## The command -/

inductive AeadOutput where
  | out
  | nonce
  | tag
  deriving DecidableEq, Repr

/-- `CcmArgs`, `GcmArgs`. -/
structure AeadArgs where
  variant : Variant
  keyPath : PathName
  noncePath : PathName
  aadPath : Option PathName
  inPath : PathName
  outPath : PathName
  tagPath : PathName
  iterations : Nat
  force : Bool

def AeadArgs.path (args : AeadArgs) : AeadOutput → PathName
  | .out => args.outPath
  | .nonce => args.noncePath
  | .tag => args.tagPath

/-- What the system answers to the call of a step: a failure, also of the read in
`refuse_key_file`, how much of a failing write arrives, and random bytes. -/
structure World where
  fault : Option Errno
  readFault : Option Errno
  count : Nat
  random : Except String (Nat → UInt8)

/-- Where the code is. -/
inductive Phase where
  | readKey
  | checkOutputs
  | create (name : AeadOutput)
  | drawNonce
  | readAad
  | readInput
  | encrypt
  /-- `write_all_and_commit`: the write -/
  | write (name : AeadOutput)
  /-- `write_all_and_commit`: the rest -/
  | commit (name : AeadOutput)
  | done
  deriving DecidableEq, Repr

/-- The locals that own an output when a `?` of the phase returns, as they are dropped: the
last one declared first. -/
def Phase.owned : Phase → List AeadOutput
  | .create .nonce => [.out]
  | .create .tag => [.nonce, .out]
  | .drawNonce | .readAad | .readInput | .encrypt => [.tag, .nonce, .out]
  | .write .out | .commit .out => [.tag, .nonce]
  | .write .tag | .commit .tag => [.nonce]
  | _ => []

inductive Status where
  | running
  /-- an error is being returned; these outputs are still to be dropped -/
  | unwinding (e : CliError) (names : List AeadOutput)
  | returned (result : Except CliError Unit)
  | panicked
  deriving DecidableEq, Repr

/-- A command on its way, with the values of its variables once they are set. -/
structure Command where
  crew : Crew AeadOutput
  phase : Phase
  status : Status
  key : List UInt8
  nonce : List UInt8
  aad : List UInt8
  input : List UInt8
  sealed : List UInt8 × List UInt8

def Command.start (disk : Disk) (args : AeadArgs) : Command where
  crew := Crew.start disk args.path (some args.inPath) args.force
  phase := .readKey
  status := .running
  key := []
  nonce := []
  aad := []
  input := []
  sealed := ([], [])

/-- What is written to an output. -/
def Command.bytes (s : Command) : AeadOutput → List UInt8
  | .out => s.sealed.1
  | .tag => s.sealed.2
  | .nonce => s.nonce

/-- `std::fs::read`. -/
def readFile (cwd : Loc) (fault : Option Errno) (disk : Disk) (path : PathName) :
    Except CliError (List UInt8) :=
  match fault with
  | some e => .error (.io path (IoError.ofErrno e).message)
  | none =>
    match disk.resolve cwd path with
    | .error e => .error (.io path (IoError.ofErrno e).message)
    | .ok l =>
      match disk.node l with
      | some (.file data) => .ok data
      | _ => .error (.io path (IoError.ofErrno .isdir).message)

/-- `read_exact_file`. -/
def readExactFile (cwd : Loc) (fault : Option Errno) (disk : Disk) (path : PathName)
    (what : LengthOf) (expectedLen : Nat) : Except CliError (List UInt8) :=
  match readFile cwd fault disk path with
  | .error e => .error e
  | .ok bytes =>
    if bytes.length ≠ expectedLen then .error (.wrongLength what expectedLen bytes.length)
    else .ok bytes

/-- `?`: the error is returned once the outputs are dropped. -/
def Command.fail (s : Command) (e : CliError) : Command :=
  { s with status := .unwinding e s.phase.owned }

/-- What follows an output that has been reserved. -/
def Phase.afterCreate : AeadOutput → Phase
  | .out => .create .nonce
  | .nonce => .create .tag
  | .tag => .drawNonce

/-- What follows an output that has been committed. -/
def Phase.afterCommit : AeadOutput → Phase
  | .out => .write .tag
  | .tag => .write .nonce
  | .nonce => .done

/-- A write is one call. -/
def Phase.afterMove : Phase → Phase
  | .write name => .commit name
  | phase => phase

section

variable (cwd : Loc) (b : Build) (aead : Aead) (args : AeadArgs) (world : World)

/-- What the command does with an output at this step, if anything. -/
def Command.move (s : Command) : Option (AeadOutput × Choice) :=
  match s.status with
  | .unwinding e (name :: _) =>
    match (s.crew.life name).point with
    | .finished _ => none
    | .opened => some (name, .abandon (some e))
    | _ => some (name, .call world.fault none)
  | .running =>
    match s.phase with
    | .create name =>
      match (s.crew.life name).point with
      | .opened | .finished _ => none
      | .drawName => some (name, .draw (world.random.map fun random => Vector.ofFn (random ·)))
      | _ => some (name, .call world.fault world.readFault)
    | .write name => some (name, .write (s.bytes name) (world.fault.map fun e => (e, world.count)))
    | .commit name =>
      match (s.crew.life name).point with
      | .finished _ => none
      | .opened => some (name, .commit world.fault)
      | _ => some (name, .call world.fault none)
    | _ => none
  | _ => none

/-- What else happens at a step that leaves the outputs alone. -/
def Command.advance (s : Command) : Command :=
  match s.status with
  | .unwinding e [] => { s with status := .returned (.error e) }
  | .unwinding e (_ :: names) => { s with status := .unwinding e names }
  | .running =>
    match s.phase with
    | .readKey =>
      match readExactFile cwd world.fault s.crew.disk args.keyPath .key args.variant.keyBytes with
      | .error e => s.fail e
      | .ok key => { s with key := key, phase := .checkOutputs }
    | .checkOutputs =>
      match UaCrypt.Cli.checkOutputs cwd s.crew.disk
          [("--nonce", args.noncePath), ("--out", args.outPath), ("--tag", args.tagPath)]
          [("--key", args.keyPath)] with
      | .error e => s.fail e
      | .ok () => { s with phase := .create .out }
    | .create name =>
      match (s.crew.life name).point with
      | .finished (some e) => s.fail e
      | _ => { s with phase := .afterCreate name }
    | .drawNonce =>
      match world.random with
      | .error message => s.fail (.random message)
      | .ok random =>
        { s with nonce := (List.range args.variant.blockBytes).map random, phase := .readAad }
    | .readAad =>
      match args.aadPath with
      | none => { s with phase := .readInput }
      | some path =>
        match readFile cwd world.fault s.crew.disk path with
        | .error e => s.fail e
        | .ok aad => { s with aad := aad, phase := .readInput }
    | .readInput =>
      match readFile cwd world.fault s.crew.disk args.inPath with
      | .error e => s.fail e
      | .ok input => { s with input := input, phase := .encrypt }
    | .encrypt =>
      match aead.encrypt b args.variant args.iterations s.key s.nonce s.aad s.input with
      | .err e => s.fail e
      | .panic => { s with status := .panicked }
      | .ok sealed => { s with sealed := sealed, phase := .write .out }
    | .write _ => s
    | .commit name =>
      match (s.crew.life name).point with
      | .finished (some e) => s.fail e
      | _ => { s with phase := .afterCommit name }
    | .done => { s with status := .returned (.ok ()) }
  | _ => s

/-- One step of the command. -/
def Command.step (s : Command) : Command :=
  match s.move world with
  | some (name, choice) =>
    { s with crew := s.crew.next cwd name choice, phase := s.phase.afterMove }
  | none => s.advance cwd b aead args world

end

/-! ## What becomes of an output -/

/-- The output has not been written to, and it will be opened or dropped with an error. -/
def Life.Early (life : Life) : Prop :=
  life.output.committed = false ∧ life.written = [] ∧
    match life.point with
    | .synced | .holding | .held | .renamed _ => False
    | .dropping none | .tempRemoved none | .releasing none | .releasingTemp none
    | .finished none => False
    | _ => True

/-- The output has been given its bytes, and it will be committed or dropped with an error. -/
def Life.Saving (bytes : List UInt8) (life : Life) : Prop :=
  match life.point with
  | .opened | .synced | .holding | .held | .renamed (.ok ()) =>
    life.output.committed = false ∧ life.written = bytes
  | .renamed (.error _) | .dropping (some _) | .tempRemoved (some _) | .releasing (some _)
  | .releasingTemp (some _) | .finished (some _) => life.output.committed = false
  | .releasing none | .releasingTemp none | .finished none =>
    life.output.committed = true ∧ life.written = bytes
  | _ => False

def Life.Saved (bytes : List UInt8) (life : Life) : Prop :=
  life.point = .finished none ∧ life.output.committed = true ∧ life.written = bytes

/-- The output was not begun, or it is gone again. -/
def Life.Absent (life : Life) : Prop :=
  life.output.committed = false ∧ (life.point = .create ∨ ∃ result, life.point = .finished result)

section

variable {cwd : Loc} {choice : Choice} {disk disk' : Disk} {c c' : Cleanup} {life life' : Life}
  {bytes : List UInt8}

theorem Moves.early (hmove : Moves cwd choice disk c life disk' c' life') (h : life.Early)
    (hopened : life.point ≠ .opened) : life'.Early := by
  obtain ⟨hcommitted, hwritten, hpoint'⟩ := h
  cases hmove with
  | stay => exact ⟨hcommitted, hwritten, hpoint'⟩
  | write hpoint => exact absurd hpoint hopened
  | writeFail hpoint => exact absurd hpoint hopened
  | sync hpoint => exact absurd hpoint hopened
  | leave hpoint => exact absurd hpoint hopened
  | @removeTemp result _ hpoint _ =>
    cases result <;> simp_all [Life.Early]
  | @skipTemp result hpoint _ =>
    cases result <;> simp_all [Life.Early]
  | @removePlaceholder result hpoint _ =>
    cases result <;> simp_all [Life.Early]
  | @skipPlaceholder result hpoint _ =>
    cases result <;> simp_all [Life.Early]
  | @release result hpoint =>
    cases result <;> simp_all [Life.Early]
  | @releaseTemp result hpoint =>
    cases result <;> simp_all [Life.Early]
  | _ => simp_all [Life.Early]

theorem Moves.saving (hmove : Moves cwd choice disk c life disk' c' life') (h : life.Saving bytes)
    (hopened : life.point ≠ .opened) : life'.Saving bytes := by
  rw [Life.Saving] at h
  cases hmove with
  | stay => exact h
  | @removeTemp result _ hpoint _ =>
    cases result <;> simp_all [Life.Saving]
  | @skipTemp result hpoint _ =>
    cases result <;> simp_all [Life.Saving]
  | @removePlaceholder result hpoint _ =>
    cases result <;> simp_all [Life.Saving]
  | @skipPlaceholder result hpoint _ =>
    cases result <;> simp_all [Life.Saving]
  | @release result hpoint =>
    cases result <;> simp_all [Life.Saving]
  | @releaseTemp result hpoint =>
    cases result <;> simp_all [Life.Saving]
  | _ => simp_all [Life.Saving]

end

/-! ## What the command knows of its outputs -/

/-- The outputs committed before a phase. -/
def Phase.committed : Phase → List AeadOutput
  | .write .tag | .commit .tag => [.out]
  | .write .nonce | .commit .nonce => [.out, .tag]
  | .done => [.out, .tag, .nonce]
  | _ => []

/-- The output a phase is about. -/
def Phase.current : Phase → Option AeadOutput
  | .create name | .commit name => some name
  | _ => none

def Phase.reserving : Phase → Bool
  | .create _ => true
  | _ => false

/-- An output while the command is running: committed before; held by a local, open and
empty, or about to be written; the one the phase is about; or not begun. -/
def Phase.Fits (phase : Phase) (bytes : List UInt8) (name : AeadOutput) (life : Life) : Prop :=
  if name ∈ phase.committed then life.Saved bytes
  else if phase.current = some name then
    if phase.reserving then life.Early else life.Saving bytes
  else if name ∈ phase.owned ∨ phase = .write name then life.point = .opened ∧ life.Early
  else life.point = .create ∧ life.Early

/-- The error came from an output that is not the first to be committed. -/
def LateError (crew : Crew AeadOutput) (phase : Phase) (e : CliError) : Prop :=
  ∃ name, name ≠ .out ∧ phase = .commit name ∧ (crew.life name).point = .finished (some e)

/-- What is known while an error is returned and these outputs are still to be dropped. -/
structure Unwinds (crew : Crew AeadOutput) (phase : Phase) (bytes : AeadOutput → List UInt8)
    (e : CliError) (names : List AeadOutput) : Prop where
  not_write : ∀ name, phase ≠ .write name
  cause : phase.committed = [] ∨ LateError crew phase e
  left : ∀ name ∈ names, name ∉ phase.committed ∧ phase.current ≠ some name
    ∧ (crew.life name).Early
  rest : ∀ name, name ∉ names → if name ∈ phase.committed
    then (crew.life name).Saved (bytes name) else (crew.life name).Absent

/-- What the command knows. -/
def Command.Knows (s : Command) : Prop :=
  match s.status with
  | .running => ∀ name, s.phase.Fits (s.bytes name) name (s.crew.life name)
  | .unwinding e names => Unwinds s.crew s.phase s.bytes e names
  | .returned (.error e) => Unwinds s.crew s.phase s.bytes e []
  | .returned (.ok ()) => ∀ name, (s.crew.life name).Saved (s.bytes name)
  | .panicked => True

theorem knows_start (disk : Disk) (args : AeadArgs) : (Command.start disk args).Knows := by
  intro name
  exact ⟨rfl, rfl, rfl, trivial⟩

theorem Phase.apart {phase : Phase} {name : AeadOutput} (h : name ∈ phase.owned) :
    name ∉ phase.committed ∧ phase.current ≠ some name := by
  revert h
  cases phase with
  | create other => cases other <;> cases name <;> decide
  | write other => cases other <;> cases name <;> decide
  | commit other => cases other <;> cases name <;> decide
  | _ => cases name <;> decide

theorem Phase.current_of_committed {phase : Phase} (hwrite : ∀ name, phase ≠ .write name)
    (hdone : phase ≠ .done) (h : phase.committed ≠ []) :
    ∃ name, name ≠ .out ∧ phase = .commit name := by
  cases phase with
  | commit name =>
    refine ⟨name, ?_, rfl⟩
    rintro rfl
    exact h rfl
  | write name => exact absurd rfl (hwrite name)
  | done => exact absurd rfl hdone
  | _ => exact absurd rfl h

theorem Life.Early.absent {life : Life} (h : life.Early)
    (hpoint : life.point = .create ∨ ∃ result, life.point = .finished result) : life.Absent :=
  ⟨h.1, hpoint⟩

/-- `?` lets go of all that is held. -/
theorem Command.Knows.fail {s : Command} {e : CliError} (hstatus : s.status = .running)
    (h : s.Knows) (hwrite : ∀ name, s.phase ≠ .write name) (hdone : s.phase ≠ .done)
    (hcurrent : ∀ name, s.phase.current = some name →
      (s.crew.life name).point = .finished (some e)) : (s.fail e).Knows := by
  simp only [Command.Knows, hstatus] at h
  refine ⟨hwrite, ?_, ?_, ?_⟩
  · by_cases hnone : s.phase.committed = []
    · exact Or.inl hnone
    · obtain ⟨name, hout, hphase⟩ := Phase.current_of_committed hwrite hdone hnone
      exact Or.inr ⟨name, hout, hphase, hcurrent name (by rw [hphase]; rfl)⟩
  · intro name hname
    obtain ⟨hcommitted, hnot⟩ := Phase.apart hname
    have hfits := h name
    rw [Phase.Fits, if_neg hcommitted, if_neg hnot, if_pos (Or.inl hname)] at hfits
    exact ⟨hcommitted, hnot, hfits.2⟩
  · intro name hname
    have hfits := h name
    rw [Phase.Fits] at hfits
    change if name ∈ s.phase.committed then (s.crew.life name).Saved (s.bytes name)
      else (s.crew.life name).Absent
    by_cases hcommitted : name ∈ s.phase.committed
    · rw [if_pos hcommitted] at hfits ⊢
      exact hfits
    · rw [if_neg hcommitted] at hfits ⊢
      split at hfits
      · rename_i hname'
        have hpoint := hcurrent name hname'
        split at hfits
        · exact hfits.absent (Or.inr ⟨_, hpoint⟩)
        · rw [Life.Saving, hpoint] at hfits
          exact ⟨hfits, Or.inr ⟨_, hpoint⟩⟩
      · rw [if_neg (not_or_intro hname (hwrite name))] at hfits
        exact hfits.2.absent (Or.inl hfits.1)

section

variable {cwd : Loc} {b : Build} {aead : Aead} {args : AeadArgs} {world : World} {s : Command}

theorem Phase.fits_create {name : AeadOutput} {bytes : List UInt8} {life : Life} :
    (Phase.create name).Fits bytes name life ↔ life.Early := by
  cases name <;> exact Iff.rfl

theorem Phase.fits_commit {name : AeadOutput} {bytes : List UInt8} {life : Life} :
    (Phase.commit name).Fits bytes name life ↔ life.Saving bytes := by
  cases name <;> exact Iff.rfl

theorem Phase.fits_write {name : AeadOutput} {bytes : List UInt8} {life : Life} :
    (Phase.write name).Fits bytes name life ↔ life.point = .opened ∧ life.Early := by
  cases name <;> exact Iff.rfl

/-- A reserved output is open. -/
theorem Command.Knows.afterCreate {name : AeadOutput} (hstatus : s.status = .running)
    (h : s.Knows) (hphase : s.phase = .create name) (hpoint : (s.crew.life name).point = .opened) :
    { s with phase := Phase.afterCreate name }.Knows := by
  simp only [Command.Knows, hstatus, hphase] at h ⊢
  have hname := Phase.fits_create.mp (h name)
  intro other
  have hfits := h other
  cases name <;> cases other <;> first | exact hfits | exact ⟨hpoint, hname⟩ | exact hfits.2

theorem Command.Knows.afterCommit {name : AeadOutput} (hstatus : s.status = .running)
    (h : s.Knows) (hphase : s.phase = .commit name)
    (hpoint : (s.crew.life name).point = .finished none) :
    { s with phase := Phase.afterCommit name }.Knows := by
  simp only [Command.Knows, hstatus, hphase] at h ⊢
  have hname : (s.crew.life name).Saved (s.bytes name) := by
    have hsaving := Phase.fits_commit.mp (h name)
    rw [Life.Saving, hpoint] at hsaving
    exact ⟨hpoint, hsaving⟩
  intro other
  have hfits := h other
  cases name <;> cases other <;> first | exact hfits | exact hname

/-- On to the next phase. -/
theorem Command.Knows.pass {s' : Command} (hstatus : s.status = .running) (h : s.Knows)
    (hstatus' : s'.status = .running) (hcrew : s'.crew = s.crew)
    (hfits : ∀ name life, s.phase.Fits (s.bytes name) name life →
      s'.phase.Fits (s'.bytes name) name life) : s'.Knows := by
  simp only [Command.Knows, hstatus, hstatus'] at h ⊢
  intro name
  rw [hcrew]
  exact hfits name _ (h name)

theorem Unwinds.pop {crew : Crew AeadOutput} {phase : Phase} {bytes : AeadOutput → List UInt8}
    {e : CliError} {name : AeadOutput} {names : List AeadOutput}
    (h : Unwinds crew phase bytes e (name :: names)) {result : Option CliError}
    (hpoint : (crew.life name).point = .finished result) : Unwinds crew phase bytes e names := by
  refine ⟨h.not_write, h.cause, fun other hother => h.left other (List.mem_cons_of_mem _ hother), ?_⟩
  intro other hother
  by_cases hname : other = name
  · subst hname
    obtain ⟨hcommitted, -, hearly⟩ := h.left other List.mem_cons_self
    rw [if_neg hcommitted]
    exact hearly.absent (Or.inr ⟨_, hpoint⟩)
  · exact h.rest other (fun hmem => hother ((List.mem_cons.mp hmem).resolve_left hname))

theorem Command.Knows.advance (h : s.Knows) (hmove : s.move world = none) :
    (s.advance cwd b aead args world).Knows := by
  have hfail : ∀ e, s.status = .running → (∀ name, s.phase ≠ .write name) → s.phase ≠ .done →
      s.phase.current = none → (s.fail e).Knows := by
    intro e hstatus hwrite hdone hcurrent
    refine h.fail hstatus hwrite hdone ?_
    intro name hname
    rw [hcurrent] at hname
    cases hname
  rw [Command.move] at hmove
  rw [Command.advance]
  split
  · rename_i e hstatus
    simp only [Command.Knows, hstatus] at h
    exact h
  · rename_i e name names hstatus
    simp only [hstatus] at hmove
    simp only [Command.Knows, hstatus] at h
    split at hmove
    · rename_i result hpoint
      exact h.pop hpoint
    · cases hmove
    · cases hmove
  · rename_i hstatus
    simp only [hstatus] at hmove
    cases hphase : s.phase with
    | readKey =>
      dsimp only
      split
      · exact hfail _ hstatus (by simp [hphase]) (by simp [hphase]) (by rw [hphase]; rfl)
      · exact h.pass hstatus hstatus rfl fun name life hname => by rw [hphase] at hname; exact hname
    | checkOutputs =>
      dsimp only
      split
      · exact hfail _ hstatus (by simp [hphase]) (by simp [hphase]) (by rw [hphase]; rfl)
      · refine h.pass hstatus hstatus rfl fun name life hname => ?_
        rw [hphase] at hname
        cases name with
        | out => exact hname.2
        | _ => exact hname
    | create name =>
      simp only [hphase] at hmove ⊢
      have hearly : (s.crew.life name).Early := by
        simp only [Command.Knows, hstatus, hphase] at h
        exact Phase.fits_create.mp (h name)
      split at hmove
      · rename_i hpoint
        rw [hpoint]
        exact h.afterCreate hstatus hphase hpoint
      · rename_i result hpoint
        rw [hpoint]
        cases result with
        | none =>
          rw [Life.Early, hpoint] at hearly
          exact absurd hearly.2.2 id
        | some e =>
          refine h.fail hstatus (by simp [hphase]) (by simp [hphase]) ?_
          intro other hother
          rw [hphase] at hother
          cases hother
          exact hpoint
      · cases hmove
      · cases hmove
    | drawNonce =>
      dsimp only
      split
      · exact hfail _ hstatus (by simp [hphase]) (by simp [hphase]) (by rw [hphase]; rfl)
      · refine h.pass hstatus hstatus rfl fun name life hname => ?_
        rw [hphase] at hname
        cases name <;> exact hname
    | readAad =>
      dsimp only
      split
      · refine h.pass hstatus hstatus rfl fun name life hname => ?_
        rw [hphase] at hname
        cases name <;> exact hname
      · split
        · exact hfail _ hstatus (by simp [hphase]) (by simp [hphase]) (by rw [hphase]; rfl)
        · refine h.pass hstatus hstatus rfl fun name life hname => ?_
          rw [hphase] at hname
          cases name <;> exact hname
    | readInput =>
      dsimp only
      split
      · exact hfail _ hstatus (by simp [hphase]) (by simp [hphase]) (by rw [hphase]; rfl)
      · refine h.pass hstatus hstatus rfl fun name life hname => ?_
        rw [hphase] at hname
        cases name <;> exact hname
    | encrypt =>
      dsimp only
      split
      · exact hfail _ hstatus (by simp [hphase]) (by simp [hphase]) (by rw [hphase]; rfl)
      · trivial
      · refine h.pass hstatus hstatus rfl fun name life hname => ?_
        rw [hphase] at hname
        cases name <;> exact hname
    | write name =>
      simp only [hphase] at hmove
      cases hmove
    | commit name =>
      simp only [hphase] at hmove ⊢
      split at hmove
      · rename_i result hpoint
        rw [hpoint]
        cases result with
        | none => exact h.afterCommit hstatus hphase hpoint
        | some e =>
          refine h.fail hstatus (by simp [hphase]) (by simp [hphase]) ?_
          intro other hother
          rw [hphase] at hother
          cases hother
          exact hpoint
      · cases hmove
      · cases hmove
    | done =>
      simp only [Command.Knows, hstatus, hphase] at h
      intro name
      have hname := h name
      cases name <;> exact hname
  · exact h

theorem Crew.life_next_opened {ι : Type} [DecidableEq ι] {s : Crew ι} {i : ι} {choice : Choice}
    (hpoint : (s.life i).point = .opened) :
    (s.next cwd i choice).life i = (stepOpened s.disk s.cleanup (s.life i) choice).2.2 := by
  rw [Crew.next]
  simp only [Function.update_self, step, hpoint]

/-- A step of an output that is being dropped. -/
theorem Unwinds.next {crew : Crew AeadOutput} {phase : Phase} {bytes : AeadOutput → List UInt8}
    {e : CliError} {name : AeadOutput} {names : List AeadOutput} {choice : Choice}
    (h : Unwinds crew phase bytes e (name :: names))
    (hearly : ((crew.next cwd name choice).life name).Early) :
    Unwinds (crew.next cwd name choice) phase bytes e (name :: names) := by
  have hcurrent := (h.left name List.mem_cons_self).2.1
  refine ⟨h.not_write, ?_, ?_, ?_⟩
  · rcases h.cause with hnone | ⟨late, hout, hphase, hpoint⟩
    · exact Or.inl hnone
    · refine Or.inr ⟨late, hout, hphase, ?_⟩
      have hlate : late ≠ name := by
        rintro rfl
        exact hcurrent (by rw [hphase]; rfl)
      rw [Crew.life_next_of_ne hlate]
      exact hpoint
  · intro other hother
    obtain ⟨hcommitted, hnot, hother'⟩ := h.left other hother
    refine ⟨hcommitted, hnot, ?_⟩
    by_cases hname : other = name
    · subst hname
      exact hearly
    · rw [Crew.life_next_of_ne hname]
      exact hother'
  · intro other hother
    have hne : other ≠ name := fun heq => hother (heq ▸ List.mem_cons_self)
    rw [Crew.life_next_of_ne hne]
    exact h.rest other hother

/-- A step of the output a phase is about. -/
theorem Command.Knows.act {name : AeadOutput} {choice : Choice} (hstatus : s.status = .running)
    (h : s.Knows)
    (hname : s.phase.Fits (s.bytes name) name (s.crew.life name) →
      s.phase.afterMove.Fits (s.bytes name) name ((s.crew.next cwd name choice).life name))
    (hrest : ∀ other life, other ≠ name → s.phase.Fits (s.bytes other) other life →
      s.phase.afterMove.Fits (s.bytes other) other life) :
    { s with crew := s.crew.next cwd name choice, phase := s.phase.afterMove }.Knows := by
  simp only [Command.Knows, hstatus] at h ⊢
  intro other
  by_cases heq : other = name
  · subst heq
    exact hname (h other)
  · rw [Crew.life_next_of_ne heq]
    exact hrest other _ heq (h other)

theorem Phase.fits_after_write {name other : AeadOutput} {bytes : List UInt8} {life : Life}
    (hne : other ≠ name) (h : (Phase.write name).Fits bytes other life) :
    (Phase.commit name).Fits bytes other life := by
  cases name <;> cases other <;> first | exact absurd rfl hne | exact h

/-- A write leaves the output open, with its bytes, or drops it. -/
theorem Life.Early.write {life : Life} {bytes : List UInt8} {fault : Option (Errno × Nat)}
    {disk : Disk} {c : Cleanup} (h : life.Early) (hok : life.Ok) (hpoint : life.point = .opened) :
    (stepOpened disk c life (.write bytes fault)).2.2.Saving bytes := by
  simp only [Life.Ok, hpoint] at hok
  obtain ⟨τ, hfile⟩ := Option.isSome_iff_exists.mp hok.1
  cases fault with
  | none =>
    simp only [stepOpened, hfile, Life.Saving, hpoint, h.2.1]
    exact ⟨h.1, rfl⟩
  | some err =>
    simp only [stepOpened, hfile, Life.Saving]
    exact h.1

/-- `sync_all` goes on to the rename, or drops the output. -/
theorem Life.Saving.sync {life : Life} {bytes : List UInt8} {fault : Option Errno}
    {disk : Disk} {c : Cleanup} (h : life.Saving bytes) (hpoint : life.point = .opened) :
    (stepOpened disk c life (.commit fault)).2.2.Saving bytes := by
  simp only [Life.Saving, hpoint] at h
  cases fault with
  | none => exact h
  | some err => exact h.1

theorem Command.Knows.step (h : s.Knows) (hok : ∀ name, (s.crew.life name).Ok) :
    (s.step cwd b aead args world).Knows := by
  rw [Command.step]
  split
  · rename_i name choice hmove
    have hmoves := s.crew.moves cwd name choice
    rw [Command.move] at hmove
    split at hmove
    · rename_i e name' names hstatus
      simp only [Command.Knows, hstatus] at h ⊢
      have hearly := (h.left name' List.mem_cons_self).2.2
      have hphase : s.phase.afterMove = s.phase := by
        cases hphase : s.phase with
        | write name => exact absurd hphase (h.not_write name)
        | _ => rfl
      rw [hphase]
      split at hmove
      · cases hmove
      · rename_i hpoint
        cases hmove
        refine h.next ?_
        rw [Crew.life_next_opened hpoint]
        exact ⟨hearly.1, hearly.2.1, trivial⟩
      · rename_i hpoint
        cases hmove
        exact h.next (hmoves.early hearly hpoint)
    · rename_i hstatus
      cases hphase : s.phase with
      | create name' =>
        have hstep : ∀ choice, (s.crew.life name').point ≠ .opened →
            { s with crew := s.crew.next cwd name' choice, phase := s.phase.afterMove }.Knows := by
          intro choice hpoint
          refine h.act hstatus ?_ fun other life _ hother => ?_
          · rw [hphase]
            intro hname
            have hearly := Phase.fits_create.mp hname
            exact Phase.fits_create.mpr ((s.crew.moves cwd name' choice).early hearly hpoint)
          · rw [hphase] at hother ⊢
            exact hother
        simp only [hphase] at hmove
        rw [← hphase]
        split at hmove
        · cases hmove
        · cases hmove
        · rename_i hpoint
          cases hmove
          exact hstep _ (by rw [hpoint]; exact nofun)
        · rename_i hpoint _ _
          cases hmove
          exact hstep _ hpoint
      | write name' =>
        simp only [hphase] at hmove
        cases hmove
        rw [← hphase]
        refine h.act hstatus ?_ ?_
        · rw [hphase, Phase.fits_write]
          rintro ⟨hpoint, hearly⟩
          rw [Crew.life_next_opened hpoint]
          exact Phase.fits_commit.mpr (hearly.write (hok _) hpoint)
        · intro other life hne
          rw [hphase]
          exact Phase.fits_after_write hne
      | commit name' =>
        have hstep : ∀ choice, ((s.crew.life name').Saving (s.bytes name') →
              ((s.crew.next cwd name' choice).life name').Saving (s.bytes name')) →
            { s with crew := s.crew.next cwd name' choice, phase := s.phase.afterMove }.Knows := by
          intro choice hsaving
          refine h.act hstatus ?_ fun other life _ hother => ?_
          · rw [hphase]
            intro hname
            exact Phase.fits_commit.mpr (hsaving (Phase.fits_commit.mp hname))
          · rw [hphase] at hother ⊢
            exact hother
        simp only [hphase] at hmove
        rw [← hphase]
        split at hmove
        · cases hmove
        · rename_i hpoint
          cases hmove
          refine hstep _ fun hsaving => ?_
          rw [Crew.life_next_opened hpoint]
          exact hsaving.sync hpoint
        · rename_i hpoint
          cases hmove
          exact hstep _ fun hsaving => (s.crew.moves cwd _ _).saving hsaving hpoint
      | _ =>
        simp only [hphase] at hmove
        cases hmove
    · cases hmove
  · exact h.advance ‹_›

theorem Command.crew_advance (s : Command) : (s.advance cwd b aead args world).crew = s.crew := by
  rw [Command.advance]
  split
  · rfl
  · rfl
  · split
    · split <;> rfl
    · split <;> rfl
    · split <;> rfl
    · split <;> rfl
    · split
      · rfl
      · split <;> rfl
    · split <;> rfl
    · split <;> rfl
    · rfl
    · split <;> rfl
    · rfl
  · rfl

/-- What the outputs' steps keep, the command keeps. -/
theorem Command.crew_step {Q : Crew AeadOutput → Prop} (hQ : Q s.crew)
    (hnext : ∀ name choice, s.move world = some (name, choice) → Q (s.crew.next cwd name choice)) :
    Q (s.step cwd b aead args world).crew := by
  rw [Command.step]
  split
  · exact hnext _ _ ‹_›
  · rw [Command.crew_advance]
    exact hQ

end

/-! ## Whole commands -/

/-- `s'` is reached from `s`; `P` holds at every step of an output. -/
def AeadRun (cwd : Loc) (b : Build) (aead : Aead) (args : AeadArgs)
    (P : Crew AeadOutput → AeadOutput → Choice → Prop) : Command → Command → Prop :=
  Relation.ReflTransGen fun s s' => ∃ world,
    (∀ name choice, s.move world = some (name, choice) → P s.crew name choice)
      ∧ s' = s.step cwd b aead args world

section

variable {cwd : Loc} {disk₀ : Disk} {b : Build} {aead : Aead} {args : AeadArgs} {s : Command}

/-- **What was there is safe, and the command knows its outputs**, in every state of a run. -/
theorem knows_of_run (hrun : AeadRun cwd b aead args
      (fun crew name _ => FreshRename cwd disk₀ args.path crew name) (Command.start disk₀ args) s) :
    CrewSafe cwd disk₀ args.path args.force s.crew ∧ s.Knows := by
  induction hrun with
  | refl => exact ⟨crewSafe_start _, knows_start disk₀ args⟩
  | tail _ hstep ih =>
    obtain ⟨world, hfresh, rfl⟩ := hstep
    obtain ⟨hsafe, hknows⟩ := ih
    refine ⟨Command.crew_step hsafe fun name choice hmove => ?_, hknows.step hsafe.ok⟩
    exact hsafe.next (hfresh name choice hmove)

theorem crewInv_of_aeadRun (hsteady : Steady cwd disk₀ args.path)
    (hrun : AeadRun cwd b aead args (Regular cwd disk₀ args.path) (Command.start disk₀ args) s) :
    CrewInv cwd disk₀ args.path args.force s.crew := by
  induction hrun with
  | refl => exact crewInv_start _
  | tail _ hstep ih =>
    obtain ⟨world, hregular, rfl⟩ := hstep
    exact Command.crew_step ih fun name choice hmove => ih.next hsteady (hregular name choice hmove)

theorem Life.Saved.published {life : Life} {bytes : List UInt8} (h : life.Saved bytes) :
    life.published = true := by
  rw [Life.published, h.1]
  exact h.2.1

/-- An output that is not there has nothing on the disk. -/
theorem Life.Absent.holding {life : Life} (h : life.Absent) :
    life.holding.temp = none ∧ life.holding.placeholder = false ∧ life.published = false := by
  obtain ⟨hcommitted, hpoint | ⟨result, hpoint⟩⟩ := h
  · simp [Life.holding, Life.temp, Life.holdsPlaceholder, Life.published, hpoint, hcommitted]
  · simp [Life.holding, Life.temp, Life.holdsPlaceholder, Life.published, hpoint, hcommitted]

end

/-- **What an error leaves behind.** The outputs committed by then are `--out` and `--tag` at
most, none unless the error came from `--tag` or `--nonce` itself; they are whole; and all else
that was there is as it was. When the removals of `Drop` succeed too, nothing else has changed
at all. -/
theorem aead_error_cases (cwd : Loc) (disk₀ : Disk) (b : Build) (aead : Aead) (args : AeadArgs)
    (s : Command) (e : CliError)
    (hrun : AeadRun cwd b aead args (fun crew name _ => FreshRename cwd disk₀ args.path crew name)
      (Command.start disk₀ args) s)
    (herror : s.status = .returned (.error e)) :
    (s.phase.committed = []
      ∨ ∃ name, name ≠ .out ∧ s.phase = .commit name
        ∧ (s.crew.life name).point = .finished (some e))
    ∧ (∀ name ∈ s.phase.committed, ∃ entry, disk₀.entry cwd (args.path name) = .ok entry
      ∧ ∃ other ∈ s.phase.committed, disk₀.entry cwd (args.path other) = .ok entry
        ∧ s.crew.disk.node entry.loc = some (.file (s.bytes other)))
    ∧ (∀ l n, disk₀.node l = some n → s.crew.disk.node l = some n
      ∨ ∃ name ∈ s.phase.committed, ∃ entry, disk₀.entry cwd (args.path name) = .ok entry
        ∧ l = entry.loc)
    ∧ (Steady cwd disk₀ args.path →
      AeadRun cwd b aead args (Regular cwd disk₀ args.path) (Command.start disk₀ args) s →
      ∀ l, s.crew.disk.node l = disk₀.node l
        ∨ ∃ name ∈ s.phase.committed, ∃ entry, disk₀.entry cwd (args.path name) = .ok entry
          ∧ l = entry.loc) := by
  obtain ⟨hsafe, hknows⟩ := knows_of_run hrun
  simp only [Command.Knows, herror] at hknows
  have hsaved : ∀ name ∈ s.phase.committed, (s.crew.life name).Saved (s.bytes name) := by
    intro name hname
    have hrest := hknows.rest name List.not_mem_nil
    rw [if_pos hname] at hrest
    exact hrest
  have habsent : ∀ name, name ∉ s.phase.committed → (s.crew.life name).Absent := by
    intro name hname
    have hrest := hknows.rest name List.not_mem_nil
    rw [if_neg hname] at hrest
    exact hrest
  have hcommitted : ∀ {name}, (s.crew.life name).published = true → name ∈ s.phase.committed := by
    intro name hpub
    by_contra hname
    rw [(habsent name hname).holding.2.2] at hpub
    cases hpub
  refine ⟨hknows.cause, ?_, ?_, ?_⟩
  · intro name hname
    obtain ⟨entry, other, hentry, hother, -, hpub, hdata⟩ :=
      hsafe.sound.published (i := name) (hsaved name hname).published
    refine ⟨entry, hentry, other, hcommitted hpub, hother, ?_⟩
    rw [hdata]
    exact congrArg (fun data => some (Node.file data)) (hsaved other (hcommitted hpub)).2.2
  · intro l n hn
    rcases hsafe.preserved.kept hn with hsame | ⟨name, entry, hpub, hentry, hl⟩
    · exact Or.inl hsame
    · exact Or.inr ⟨name, hcommitted hpub, entry, hentry, hl⟩
  · intro hsteady hregular l
    have hinv := crewInv_of_aeadRun hsteady hregular
    rcases hinv.accounted.rest l with hsame | ⟨name, tmp, τ, htemp, -⟩
      | ⟨name, entry, hp | hpub, hentry, hl⟩
    · exact Or.inl hsame
    · by_cases hname : name ∈ s.phase.committed
      · have hdone := (hinv.sound.own name).done (hsaved name hname).published
        rw [hdone.1] at htemp
        cases htemp
      · rw [Crew.holding, (habsent name hname).holding.1] at htemp
        cases htemp
    · by_cases hname : name ∈ s.phase.committed
      · exact Or.inr ⟨name, hname, entry, hentry, hl⟩
      · rw [Crew.holding, (habsent name hname).holding.2.1] at hp
        cases hp
    · exact Or.inr ⟨name, hcommitted hpub, entry, hentry, hl⟩

/-! ## Two commands that fail -/

section

variable (cwd : Loc) (b : Build) (aead : Aead) (args : AeadArgs)

/-- `check` passes at every step of an output. -/
def Command.along (check : Crew AeadOutput → AeadOutput → Choice → Bool) :
    Command → List World → Bool
  | _, [] => true
  | s, world :: worlds =>
    (s.move world).all (fun move => check s.crew move.1 move.2)
      && Command.along check (s.step cwd b aead args world) worlds

/-- The command in one world after the other. -/
def Command.runs (s : Command) (worlds : List World) : Command :=
  worlds.foldl (fun s world => s.step cwd b aead args world) s

end

section

variable {cwd : Loc} {b : Build} {aead : Aead} {args : AeadArgs}

theorem aeadRun_of_along {check : Crew AeadOutput → AeadOutput → Choice → Bool}
    {P : Crew AeadOutput → AeadOutput → Choice → Prop}
    (hcheck : ∀ crew name choice, check crew name choice = true → P crew name choice)
    {s : Command} {worlds : List World} (h : s.along cwd b aead args check worlds = true) :
    AeadRun cwd b aead args P s (s.runs cwd b aead args worlds) := by
  induction worlds generalizing s with
  | nil => exact .refl
  | cons world worlds ih =>
    rw [Command.along, Bool.and_eq_true] at h
    refine .head ⟨world, ?_, rfl⟩ (ih h.2)
    intro name choice hmove
    rw [hmove] at h
    exact hcheck _ _ _ h.1

/-- The conditions of `Regular`, checked. -/
def regularCheck (cwd : Loc) (disk₀ : Disk) (path : AeadOutput → PathName)
    (crew : Crew AeadOutput) (name : AeadOutput) (choice : Choice) : Bool :=
  (match (crew.life name).point with
    | .dropping _ | .tempRemoved _ => choice.faultless
    | _ => true)
  && [.out, .nonce, .tag].all fun other => other = name || (crew.life other).temp.all fun temp =>
    disk₀.entry cwd (path name) ≠ .ok temp.2

theorem freshRename_of_check {disk₀ : Disk} {path : AeadOutput → PathName}
    {crew : Crew AeadOutput} {name : AeadOutput} (choice : Choice)
    (h : regularCheck cwd disk₀ path crew name choice = true) :
    FreshRename cwd disk₀ path crew name := by
  rw [regularCheck, Bool.and_eq_true, List.all_eq_true] at h
  rintro _ _ e he other hne tmp τ htemp rfl
  have hother := h.2 other (by cases other <;> simp)
  rw [htemp] at hother
  simp [hne, he] at hother

theorem regular_of_check {disk₀ : Disk} {path : AeadOutput → PathName} {crew : Crew AeadOutput}
    {name : AeadOutput} {choice : Choice} (h : regularCheck cwd disk₀ path crew name choice = true) :
    Regular cwd disk₀ path crew name choice := by
  refine ⟨?_, freshRename_of_check choice h⟩
  rw [regularCheck, Bool.and_eq_true] at h
  cases choice with
  | call fault readFault =>
    rw [RemovalSucceeds]
    have hfault := h.1
    split
    · rename_i hpoint
      rw [hpoint] at hfault
      exact Option.isNone_iff_eq_none.mp hfault
    · rename_i hpoint
      rw [hpoint] at hfault
      exact Option.isNone_iff_eq_none.mp hfault
    · trivial
  | _ => trivial

end

/-- A key, a message and an old ciphertext. -/
def aeadDisk : Disk :=
  (((Files.onlyRoot _).set ⟨[], "k"⟩ (some (.file (List.replicate 16 0)))).set ⟨[], "m"⟩
    (some (.file [1]))).set ⟨[], "c"⟩ (some (.file [2, 3]))

/-- A new ciphertext, nonce and tag, from an input that is not there. -/
def noInput : AeadArgs where
  variant := .kalyna128_128
  keyPath := ["k"]
  noncePath := ["n"]
  aadPath := none
  inPath := ["x"]
  outPath := ["d"]
  tagPath := ["t"]
  iterations := 1
  force := false

/-- The old ciphertext is to be replaced. -/
def replaceOld : AeadArgs := { noInput with inPath := ["m"], outPath := ["c"], force := true }

/-- A system where nothing fails. -/
def calm : World := ⟨none, none, 0, .ok fun _ => 7⟩

/-- The rename of `--tag` fails. -/
def tagFails : List World :=
  List.replicate 34 calm ++ [{ calm with fault := some (.other 5) }] ++ List.replicate 15 calm

theorem aead_error_cases_no_input :
    let s := (Command.start aeadDisk noInput).runs [] ⟨.fused, false⟩ .ccm noInput
      (List.replicate 45 calm)
    s.status = .returned (.error (.io ["x"] "No such file or directory (os error 2)"))
      ∧ s.phase.committed = []
      ∧ ∀ l n, aeadDisk.node l = some n → s.crew.disk.node l = some n
        ∨ ∃ name ∈ s.phase.committed, ∃ entry, aeadDisk.entry [] (noInput.path name) = .ok entry
          ∧ l = entry.loc := by
  have herror : ((Command.start aeadDisk noInput).runs [] ⟨.fused, false⟩ .ccm noInput
      (List.replicate 45 calm)).status
      = .returned (.error (.io ["x"] "No such file or directory (os error 2)")) := by
    decide +kernel
  refine ⟨herror, by decide +kernel, ?_⟩
  refine (aead_error_cases [] aeadDisk ⟨.fused, false⟩ .ccm noInput _ _ ?_ herror).2.2.1
  exact aeadRun_of_along (fun _ _ choice => freshRename_of_check choice) (by decide +kernel)

/-- The length of a file. -/
def fileLength : Node (List UInt8) → Nat
  | .file data => data.length
  | _ => 0

/-- `--out` has been replaced, while neither the tag nor the nonce is stored. -/
theorem aead_breaks_pair :
    let s := (Command.start aeadDisk replaceOld).runs [] ⟨.fused, false⟩ .ccm replaceOld tagFails
    (s.status = .returned (.error (.io ["t"] "os error 5"))
      ∧ s.crew.disk.node ["t"] = none ∧ s.crew.disk.node ["n"] = none)
    ∧ ¬∀ (cwd : Loc) (disk₀ : Disk) (b : Build) (aead : Aead) (args : AeadArgs) (s : Command)
        (e : CliError),
      AeadRun cwd b aead args (Regular cwd disk₀ args.path) (Command.start disk₀ args) s →
      s.status = .returned (.error e) → ∀ name entry,
      disk₀.entry cwd (args.path name) = .ok entry →
      s.crew.disk.node entry.loc = disk₀.node entry.loc := by
  have herror : ((Command.start aeadDisk replaceOld).runs [] ⟨.fused, false⟩ .ccm replaceOld
      tagFails).status = .returned (.error (.io ["t"] "os error 5")) := by
    decide +kernel
  refine ⟨⟨herror, by decide +kernel, by decide +kernel⟩, ?_⟩
  intro h
  have hsame := h [] aeadDisk ⟨.fused, false⟩ .ccm replaceOld _ _
    (aeadRun_of_along (fun _ _ _ => regular_of_check) (by decide +kernel)) herror .out ⟨[], "c"⟩
    (by decide +kernel)
  -- the new ciphertext is as long as the message
  have hlen := congrArg (fun n => n.map fileLength) hsame
  exact absurd hlen (by decide +kernel)

end UaCrypt.Cli
