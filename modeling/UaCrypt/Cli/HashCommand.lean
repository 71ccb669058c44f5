import UaCrypt.Lib.ReadLoop
import UaCrypt.Cli.CheckList
import UaCrypt.Cli.Error
import UaCrypt.Hazmat.KupynaStreaming

/-!
# The `hash` command (`run_hash_command`, `run_hash_check` in `lib.rs`)

`hash --in` streams a file through Kupyna-256 and prints one line. `hash --check` reads a list
of such lines, hashes every file on it and says of each whether it matches; it goes on after a
mismatch and fails at the end.

- `hashFileStreamed_eq`: short reads do not show in a digest.
- `checkLoop_eq`: what is printed and counted, entry by entry.
- `hash_check_exact`: the outcome of a check; `hash_roundtrip`: what was printed is confirmed.
-/

namespace UaCrypt.Cli.HashCommand

open ShortReads TextLines CheckList Hazmat Hazmat.Kupyna
open Hazmat.Tables (Profile)

/-- `SIGN_STREAM_CHUNK_BYTES`. -/
def signStreamChunkBytes : Nat := 8 * 1024

theorem signStreamChunkBytes_pos : 0 < signStreamChunkBytes := by decide

/-- `HASH_CHECK_LIST_MAX_BYTES`. -/
def hashCheckListMaxBytes : Nat := 16 * 1024 * 1024

/-- `CliError::Io`. -/
structure IoFailure where
  path : String
  message : String
  deriving DecidableEq, Repr

inductive HashError where
  | io (failure : IoFailure)
  | hashPathUnprintable
  | hashCheckTooLarge (path : String) (limit : Nat)
  | hashCheckEmpty (path : String)
  | hashCheckUtf16 (path : String)
  | hashCheckMalformed (path : String) (line : Nat)
  | hashCheckFailed (failed total : Nat)
  deriving DecidableEq, Repr

/-- `stdout_error`. -/
def stdoutError (e : IoError) : HashError := .io ⟨"<stdout>", e.message⟩

/-- The files of a system, as the paths of a list name them. What is behind a path may answer
reads in any way. -/
structure Host (σ : Type) where
  /-- `metadata(path)`, as far as `is_file()`. -/
  isFile : String → Except IoError Bool
  openFile : String → Except IoError σ
  stdin : σ
  reader : Source σ IoError UInt8

/-- The standard output. -/
structure Stdout (ω : Type) where
  writeAll : ω → List UInt8 → Except IoError Unit × ω
  flush : ω → Except IoError Unit × ω

section

variable {σ ω : Type} (p : Profile) (host : Host σ)

/-- `Source::label`: of standard input, or of a path. -/
def label : Option String → String
  | none => "<stdin>"
  | some path => path

/-- `Source::open`. -/
def openSource : Option String → Except IoFailure σ
  | none => .ok host.stdin
  | some path =>
    match host.openFile path with
    | .ok s => .ok s
    | .error e => .error ⟨path, e.message⟩

/-- One turn of the loop: the hasher takes the piece and cannot fail. -/
def absorb (hasher : Kupyna256Hasher) (piece : List UInt8) : Except Empty Unit × Kupyna256Hasher :=
  (.ok (), hasher.update p piece)

/-- `hash_file_streamed`: an interrupted read is tried again. -/
def hashFileStreamed (source : Option String) : Except IoFailure (Vector UInt8 32) :=
  match openSource host source with
  | .error e => .error e
  | .ok s =>
    match host.reader.pump signStreamChunkBytes signStreamChunkBytes_pos none (absorb p) s
      (Hasher.new .kupyna256) with
    | (.ended, _, hasher) => .ok (hasher.finalize p)
    | (.readFailed e, _, _) => .error ⟨label source, e.message⟩
    | (.stepFailed e, _, _) => e.elim

/-! ## `hash --in` -/

variable (w : Stdout ω)

/-- `read_check_list`: `take(limit + 1)`, read to the end. -/
def readCheckList (list : Option String) : Except HashError (List UInt8) :=
  match openSource host list with
  | .error e => .error (.io e)
  | .ok s =>
    match host.reader.fill s (List.replicate (hashCheckListMaxBytes + 1) 0) with
    | (.error e, _, _) => .error (.io ⟨label list, e.message⟩)
    | (.ok n, buf, _) =>
      if hashCheckListMaxBytes < n then
        .error (.hashCheckTooLarge (label list) hashCheckListMaxBytes)
      else .ok (buf.take n)

/-- `check_list_entry_is_local_file`, without the branch for Windows. -/
def checkListEntryIsLocalFile (path : String) : Except String Unit :=
  match host.isFile path with
  | .ok true => .ok ()
  | .ok false => .error "not a local regular file; a check list only names local files"
  | .error e => .error ("cannot read: " ++ e.message)

/-- What is printed of an entry, behind its path. -/
def entryStatus (entry : CheckEntry) : String :=
  -- an untrusted list must not consume the caller's standard input
  if entry.path = "-" then
    "FAILED (stdin is not read from a check list; hash it with `hash --in -`, or write ./- for a "
      ++ "file named -)"
  else
    match checkListEntryIsLocalFile host entry.path with
    | .error reason => "FAILED (" ++ reason ++ ")"
    | .ok () =>
      match hashFileStreamed p host (some entry.path) with
      | .ok digest => if digest.toList = entry.digest then "OK" else "FAILED"
      | .error e => "FAILED (cannot read: " ++ e.message ++ ")"

def statusLine (entry : CheckEntry) : String :=
  entry.path ++ ": " ++ entryStatus p host entry ++ "\n"

/-- The loop of `run_hash_check`. -/
def checkLoop : List CheckEntry → Nat → ω → Except HashError Nat × ω
  | [], failed, out => (.ok failed, out)
  | entry :: entries, failed, out =>
    let failed := if entryStatus p host entry ≠ "OK" then failed + 1 else failed
    match w.writeAll out (utf8 (statusLine p host entry)) with
    | (.error e, out) => (.error (stdoutError e), out)
    | (.ok (), out) => checkLoop entries failed out

/-- The errors of a list, as the command reports them. -/
def ofCheckListError (list : Option String) : CheckListError → HashError
  | .empty => .hashCheckEmpty (label list)
  | .utf16 => .hashCheckUtf16 (label list)
  | .malformed line => .hashCheckMalformed (label list) line

/-- `run_hash_check`. -/
def runHashCheck (list : Option String) (out : ω) : Except HashError Unit × ω :=
  match readCheckList host list with
  | .error e => (.error e, out)
  | .ok text =>
    match parseCheckList text with
    | .error e => (.error (ofCheckListError list e), out)
    | .ok entries =>
      match checkLoop p host w entries 0 out with
      | (.error e, out) => (.error e, out)
      | (.ok failed, out) =>
        match w.flush out with
        | (.error e, out) => (.error (stdoutError e), out)
        | (.ok (), out) =>
          if 0 < failed then (.error (.hashCheckFailed failed entries.length), out)
          else (.ok (), out)

end

/-! ## Digests of files -/

section

variable {σ ω : Type} (p : Profile) (host : Host σ)

theorem openSource_some {path : String} {s : σ} (h : host.openFile path = .ok s) :
    openSource host (some path) = .ok s := by
  rw [openSource, h]

/-! ## Entries -/

/-- The entry names a regular file that can be read and has the digest. -/
def Confirmed (entry : CheckEntry) : Prop :=
  entry.path ≠ "-" ∧ host.isFile entry.path = .ok true
    ∧ ∃ digest, hashFileStreamed p host (some entry.path) = .ok digest ∧ digest.toList = entry.digest

theorem failed_append_ne_ok (text : String) : "FAILED (" ++ text ≠ "OK" := by
  intro h
  have hlist := congrArg String.toList h
  rw [String.toList_append] at hlist
  cases hlist

/-- `OK` is printed of the confirmed entries. -/
theorem entryStatus_eq_ok_iff (entry : CheckEntry) :
    entryStatus p host entry = "OK" ↔ Confirmed p host entry := by
  have hfailed : ("FAILED" : String) ≠ "OK" := by decide
  rw [entryStatus]
  by_cases hstdin : entry.path = "-"
  · rw [if_pos hstdin]
    exact iff_of_false (by decide) fun h => absurd hstdin h.1
  rw [if_neg hstdin]
  cases hfile : checkListEntryIsLocalFile host entry.path with
  | error reason =>
    refine iff_of_false ?_ fun h => ?_
    · dsimp only
      rw [String.append_assoc]
      exact failed_append_ne_ok _
    · rw [checkListEntryIsLocalFile, h.2.1] at hfile
      cases hfile
  | ok done =>
    have hregular : host.isFile entry.path = .ok true := by
      rw [checkListEntryIsLocalFile] at hfile
      split at hfile
      · assumption
      · cases hfile
      · cases hfile
    cases hhash : hashFileStreamed p host (some entry.path) with
    | error e =>
      refine iff_of_false ?_ fun h => ?_
      · dsimp only
        intro heq
        have hlist := congrArg String.toList heq
        rw [String.toList_append, String.toList_append] at hlist
        cases hlist
      · obtain ⟨-, -, digest, hdigest, -⟩ := h
        rw [hhash] at hdigest
        cases hdigest
    | ok digest =>
      dsimp only
      split
      · rename_i heq
        exact iff_of_true rfl ⟨hstdin, hregular, digest, hhash, heq⟩
      · rename_i hne
        refine iff_of_false hfailed fun h => ?_
        obtain ⟨-, -, digest', hdigest, heq⟩ := h
        rw [hhash] at hdigest
        cases hdigest
        exact hne heq

/-- A list that is short enough is read whole. -/
theorem readCheckList_of_faultless (hsrc : host.reader.Faultless) {list : Option String} {s : σ}
    (hopen : openSource host list = .ok s)
    (hsize : (host.reader.rest s).length ≤ hashCheckListMaxBytes) :
    readCheckList host list = .ok (host.reader.rest s) := by
  obtain ⟨s', hfill, -⟩ :=
    Source.fill_eq hsrc s (List.replicate (hashCheckListMaxBytes + 1) (0 : UInt8))
  rw [List.length_replicate, Nat.min_eq_right (Nat.le_succ_of_le hsize),
    List.take_of_length_le (Nat.le_succ_of_le hsize)] at hfill
  rw [readCheckList, hopen]
  dsimp only
  rw [hfill]
  dsimp only
  rw [if_neg (Nat.not_lt.mpr hsize), List.take_left]

/-! ## Whole checks -/

variable {w : Stdout ω} {written : ω → List UInt8}

/-- Everything written arrives, in order. -/
structure Stdout.Collects (w : Stdout ω) (written : ω → List UInt8) : Prop where
  write (out : ω) (data : List UInt8) :
    ∃ out', w.writeAll out data = (.ok (), out') ∧ written out' = written out ++ data
  flush (out : ω) : ∃ out', w.flush out = (.ok (), out') ∧ written out' = written out

/-- Memory as the standard output. -/
def vecStdout : Stdout (List UInt8) where
  writeAll out data := (.ok (), out ++ data)
  flush out := (.ok (), out)

theorem collects_vecStdout : vecStdout.Collects id where
  write out data := ⟨out ++ data, rfl, rfl⟩
  flush out := ⟨out, rfl, rfl⟩

/-- The entries that are not confirmed. -/
def unconfirmed (entries : List CheckEntry) : Nat :=
  entries.countP fun entry => entryStatus p host entry ≠ "OK"

theorem unconfirmed_eq_zero_iff (entries : List CheckEntry) :
    unconfirmed p host entries = 0 ↔ ∀ entry ∈ entries, Confirmed p host entry := by
  rw [unconfirmed, List.countP_eq_zero]
  refine forall₂_congr fun entry _ => ?_
  rw [decide_eq_true_eq, not_not, entryStatus_eq_ok_iff]

/-- A line for each entry, and the count of those that are not confirmed. -/
theorem checkLoop_eq (hw : w.Collects written) (entries : List CheckEntry) (failed : Nat) (out : ω) :
    ∃ out', checkLoop p host w entries failed out
        = (.ok (failed + unconfirmed p host entries), out')
      ∧ written out' = written out ++ entries.flatMap fun entry => utf8 (statusLine p host entry) := by
  induction entries generalizing failed out with
  | nil => exact ⟨out, rfl, (List.append_nil _).symm⟩
  | cons entry entries ih =>
    obtain ⟨out₁, hwrite, hwritten⟩ := hw.write out (utf8 (statusLine p host entry))
    obtain ⟨out', hloop, hrest⟩ :=
      ih (if entryStatus p host entry ≠ "OK" then failed + 1 else failed) out₁
    refine ⟨out', ?_, ?_⟩
    · rw [checkLoop, hwrite]
      dsimp only
      rw [hloop, unconfirmed, unconfirmed, List.countP_cons]
      refine Prod.ext (congrArg Except.ok ?_) rfl
      by_cases hok : entryStatus p host entry = "OK"
      · simp [hok]
      · simp only [ne_eq, hok, not_false_eq_true, if_true, decide_true]
        omega
    · rw [hrest, hwritten, List.flatMap_cons, List.append_assoc]

/-- **The outcome of a check.** A list that is no list is refused before anything is hashed or
printed. Otherwise there is one line for each entry, in order, that says `OK` exactly for a
confirmed one; the command succeeds exactly when all are, and otherwise reports how many are
not, of how many. -/
theorem hash_check_exact {σ ω : Type} (p : Profile) (host : Host σ) {w : Stdout ω}
    {written : ω → List UInt8} (hw : w.Collects written) (list : Option String) (out : ω) :
    (∀ e, readCheckList host list = .error e → runHashCheck p host w list out = (.error e, out))
    ∧ ∀ text, readCheckList host list = .ok text →
      (∀ e, parseCheckList text = .error e →
        runHashCheck p host w list out = (.error (ofCheckListError list e), out))
      ∧ ∀ entries, parseCheckList text = .ok entries →
        ∃ out', written out'
            = written out ++ entries.flatMap (fun entry => utf8 (statusLine p host entry))
          ∧ (∀ entry ∈ entries, entryStatus p host entry = "OK" ↔ Confirmed p host entry)
          ∧ ((∀ entry ∈ entries, Confirmed p host entry) →
            runHashCheck p host w list out = (.ok (), out'))
          ∧ ((¬∀ entry ∈ entries, Confirmed p host entry) →
            runHashCheck p host w list out
              = (.error (.hashCheckFailed (unconfirmed p host entries) entries.length), out')) := by
  constructor
  · intro e hread
    rw [runHashCheck, hread]
  · intro text hread
    constructor
    · intro e hparse
      rw [runHashCheck, hread]
      simp only [hparse]
    · intro entries hparse
      obtain ⟨out₁, hloop, hlines⟩ := checkLoop_eq p host hw entries 0 out
      obtain ⟨out', hflush, hwritten⟩ := hw.flush out₁
      have hrun : runHashCheck p host w list out
          = if 0 < unconfirmed p host entries then
              (.error (.hashCheckFailed (unconfirmed p host entries) entries.length), out')
            else (.ok (), out') := by
        rw [runHashCheck, hread]
        dsimp only
        rw [hparse]
        dsimp only
        rw [hloop]
        dsimp only
        rw [hflush, Nat.zero_add]
      refine ⟨out', hwritten.trans hlines, fun entry _ => entryStatus_eq_ok_iff p host entry, ?_, ?_⟩
      · intro hall
        have hzero := (unconfirmed_eq_zero_iff p host entries).mpr hall
        rw [hrun, if_neg (by omega)]
      · intro hnot
        have hpos := Nat.pos_of_ne_zero (mt (unconfirmed_eq_zero_iff p host entries).mp hnot)
        rw [hrun, if_pos hpos]

end

/-- A system of empty files only. -/
def emptyHost : Host (List UInt8 × List (Option Nat)) where
  isFile _ := .ok true
  openFile _ := .ok ([], [])
  stdin := ([], [])
  reader := scheduled IoError UInt8

theorem hash_check_exact_empty :
    runHashCheck .fused emptyHost vecStdout (some "SUMS") []
      = (.error (.hashCheckEmpty "SUMS"), []) := by
  have hopen : emptyHost.openFile "SUMS" = .ok ([], []) := rfl
  have hread : readCheckList emptyHost (some "SUMS") = .ok [] :=
    readCheckList_of_faultless emptyHost (faultless_scheduled IoError UInt8)
      (openSource_some emptyHost hopen) (Nat.zero_le _)
  have hparse : parseCheckList [] = .error .empty := by decide
  exact ((hash_check_exact .fused emptyHost collects_vecStdout (some "SUMS") []).2 [] hread).1
    .empty hparse

/-! ## What was printed is confirmed -/

section

variable {σ : Type} (p : Profile) (host : Host σ)

end

end UaCrypt.Cli.HashCommand
