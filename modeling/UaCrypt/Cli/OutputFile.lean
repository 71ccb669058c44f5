import UaCrypt.Cli.Error

/-!
# Output files (`OutputFile` in `lib.rs`, `cleanup.rs`)

An output is written to a temp file beside its path and renamed onto it by `commit`.
Without `--force` the path is first reserved with an empty placeholder. Whatever is left
of the two when the value is dropped without a commit is removed; while they exist, both
are in a table that a signal handler clears away.

The life of one output is a machine that takes one system call a step: `create`, any
writes, then `commit` or a drop. A step's `Choice` says what the world does: whether the
call fails, which temp name is drawn, and what the command does with the open output.
-/

namespace UaCrypt.Cli

open FileTree

/-- The files of the system. -/
abbrev Disk := Files (List UInt8)

/-! ## Refusals -/

/-- `std::path::Path::is_dir`, links followed. -/
def isDir (cwd : Loc) (disk : Disk) (path : PathName) : Bool :=
  (disk.stat cwd path).any Node.isDir

/-- The two paths resolve to the same existing file. -/
def sameFile (cwd : Loc) (disk : Disk) (a b : PathName) : Bool :=
  match disk.resolve cwd a, disk.resolve cwd b with
  | .ok x, .ok y => x = y
  | _, _ => false

/-- `File::open`, then at most `SNIFF_LEN` bytes; `fault` is what the system may answer
instead. -/
def readHead (cwd : Loc) (fault : Option Errno) (disk : Disk) (path : PathName) :
    Except IoError (List UInt8) :=
  match fault with
  | some e => .error (.ofErrno e)
  | none =>
    match disk.resolve cwd path with
    | .error e => .error (.ofErrno e)
    | .ok l =>
      match disk.node l with
      | some (.file data) => .ok (data.take sniffLen)
      | _ => .error (.ofErrno .isdir)

/-- Refuses an existing regular file that starts like a typed key file, or that cannot be
read to find out. -/
def refuseKeyFile (cwd : Loc) (fault : Option Errno) (disk : Disk) (path : PathName) :
    Except CliError Unit :=
  match disk.lstat cwd path with
  | some (.file _) =>
    match readHead cwd fault disk path with
    | .error e => .error (.outputUncheckable path e.message)
    | .ok head =>
      match sniffKind head with
      | some kind => .error (.outputIsKeyFile path kind)
      | none => .ok ()
  | _ => .ok ()

/-- Where a command writes `--out`. -/
inductive Sink where
  | stdout
  | file (path : PathName)
  deriving DecidableEq, Repr

/-- The refusals of `Output::create`, checked without creating anything. `input` is the
path of `--in`, none for stdin. -/
def Sink.precheck (cwd : Loc) (stdoutIsTerminal : Bool) (fault : Option Errno) (disk : Disk)
    (input : Option PathName) (force : Bool) : Sink → Except CliError Unit
  | .stdout => if stdoutIsTerminal then .error .binaryToTerminal else .ok ()
  | .file path =>
    if force then refuseKeyFile cwd fault disk path
    else
      match disk.lstat cwd path with
      | none => .ok ()
      | some _ =>
        if isDir cwd disk path then .error (.io path "is a directory")
        else
          match refuseKeyFile cwd fault disk path with
          | .error e => .error e
          | .ok () => .error (.outputExists path (input.any (sameFile cwd disk path)))

/-! ## System calls -/

/-- A file opened with `create_new`. -/
def createPrivateNew (cwd : Loc) (fault : Option Errno) (disk : Disk) (path : PathName) :
    Except IoError Entry × Disk :=
  match fault with
  | some e => (.error (.ofErrno e), disk)
  | none =>
    match disk.createNew cwd path [] with
    | (.error e, disk) => (.error (.ofErrno e), disk)
    | (.ok e, disk) => (.ok e, disk)

/-- `std::fs::rename`. -/
def renameFile (cwd : Loc) (fault : Option Errno) (disk : Disk) (src dst : PathName) :
    Except IoError Unit × Disk :=
  match fault with
  | some e => (.error (.ofErrno e), disk)
  | none =>
    match disk.rename cwd src dst with
    | (.error e, disk) => (.error (.ofErrno e), disk)
    | (.ok (), disk) => (.ok (), disk)

/-- `let _ = std::fs::remove_file(..)`: a failure is ignored. -/
def removeFile (cwd : Loc) (fault : Option Errno) (disk : Disk) (path : PathName) : Disk :=
  match fault with
  | some _ => disk
  | none => (disk.unlink cwd path).2

/-- A digit of `{byte:02x}`. -/
def hexDigit (n : Nat) : Char := if n < 10 then Char.ofNat (48 + n) else Char.ofNat (87 + n)

/-- `.uacrypt-tmp-` and the drawn bytes in hex. -/
def tempSuffix (suffix : Vector UInt8 8) : String :=
  ".uacrypt-tmp-" ++ String.ofList (suffix.toList.flatMap fun byte =>
    [hexDigit (byte.toNat / 16), hexDigit (byte.toNat % 16)])

/-- `temp_path_beside` for drawn bytes: the path's text with the suffix behind it. -/
def tempPathBeside (path : PathName) (suffix : Vector UInt8 8) : PathName :=
  path.dropLast ++ [path.getLast?.getD "" ++ tempSuffix suffix]

/-! ## The cleanup table (`cleanup.rs`) -/

/-- `SLOTS`. -/
def slots : Nat := 8

/-- `PATHS`, whether the signal handlers are installed, and whether the signals are blocked. -/
structure Cleanup where
  paths : List (Option PathName)
  installed : Bool
  blocked : Bool
  deriving DecidableEq, Repr

def Cleanup.empty : Cleanup := ⟨List.replicate slots none, false, false⟩

/-- Puts `path` in the first free slot and installs the handlers; `none` if there is none. -/
def Cleanup.register (c : Cleanup) (path : PathName) : Option Nat × Cleanup :=
  match c.paths.findIdx? Option.isNone with
  | some slot => (some slot, { c with paths := c.paths.set slot (some path), installed := true })
  | none => (none, { c with installed := true })

/-- `Drop for Guard`: takes the path out of the table again. -/
def Cleanup.release (c : Cleanup) : Option Nat → Cleanup
  | some slot => { c with paths := c.paths.set slot none }
  | none => c

/-- `on_signal`: unlinks every registered path. -/
def Cleanup.onSignal (cwd : Loc) (c : Cleanup) (disk : Disk) : Disk :=
  c.paths.foldl (fun disk entry =>
    match entry with
    | some path => (disk.unlink cwd path).2
    | none => disk) disk

/-! ## The life of an output -/

structure OutputFile where
  path : PathName
  tmpPath : Option PathName
  placeholder : Bool
  committed : Bool
  placeholderGuard : Option Nat
  tmpGuard : Option Nat
  deriving DecidableEq, Repr

/-- Where the code is; each point names the call that comes next. -/
inductive Point where
  /-- `create`: refuse a key file (`--force`) or make the placeholder -/
  | create
  /-- `create`: register the placeholder -/
  | reserved
  /-- `create`: draw a temp name -/
  | drawName
  /-- `create`: make the temp file -/
  | makeTemp (tmp : PathName)
  /-- `create`: register the temp file -/
  | tempMade (tmp : PathName)
  /-- `create` has returned the output and the open file -/
  | opened
  /-- `commit`: block the signals -/
  | synced
  /-- `commit`: drop the placeholder's guard -/
  | holding
  /-- `commit`: rename -/
  | held
  /-- `commit`: unblock the signals -/
  | renamed (result : Except CliError Unit)
  /-- `Drop`: remove the temp file -/
  | dropping (result : Option CliError)
  /-- `Drop`: remove the placeholder -/
  | tempRemoved (result : Option CliError)
  /-- drop the placeholder's guard -/
  | releasing (result : Option CliError)
  /-- drop the temp file's guard -/
  | releasingTemp (result : Option CliError)
  /-- over, with an error or without -/
  | finished (result : Option CliError)
  deriving DecidableEq, Repr

/-- One output on its way. `file` is the open temp file, `written` all it was given. -/
structure Life where
  force : Bool
  input : Option PathName
  output : OutputFile
  file : Option Entry
  written : List UInt8
  point : Point
  deriving DecidableEq, Repr

/-- `OutputFile::create` is called. -/
def Life.start (path : PathName) (input : Option PathName) (force : Bool) : Life where
  force := force
  input := input
  output := ⟨path, none, false, false, none, none⟩
  file := none
  written := []
  point := .create

/-- What the world, or the command, does at a step. -/
inductive Choice where
  /-- the next call is made; it, or the read of `refuse_key_file`, may fail -/
  | call (fault readFault : Option Errno)
  /-- the temp name is drawn, or the generator fails -/
  | draw (suffix : Except String (Vector UInt8 8))
  /-- the command writes; a failing write may leave some of the bytes -/
  | write (data : List UInt8) (fault : Option (Errno × Nat))
  /-- the command commits; `sync_all` may fail -/
  | commit (fault : Option Errno)
  /-- the command drops the output, because of an error of its own or not -/
  | abandon (reason : Option CliError)
  deriving DecidableEq, Repr

/-- The error `create` returns when the placeholder cannot be made. -/
def createError (cwd : Loc) (readFault : Option Errno) (disk : Disk) (path : PathName)
    (input : Option PathName) (e : IoError) : CliError :=
  if isDir cwd disk path then .io path "is a directory"
  else if e.alreadyExists then
    match refuseKeyFile cwd readFault disk path with
    | .error e => e
    | .ok () => .outputExists path (input.any (sameFile cwd disk path))
  else .io path e.message

/-- `OutputFile::tmp_path`. -/
def OutputFile.tmpPathOr (o : OutputFile) : PathName := o.tmpPath.getD o.path

/-! ### The steps, point by point

A choice that does not fit the point changes nothing. -/

section

variable (cwd : Loc) (disk : Disk) (c : Cleanup) (life : Life)

/-- `create`: with `--force` nothing is made, but a key file is refused. -/
def stepCreate : Choice → Disk × Cleanup × Life
  | .call fault readFault =>
    if life.force then
      match refuseKeyFile cwd readFault disk life.output.path with
      | .error e => (disk, c, { life with point := .dropping (some e) })
      | .ok () => (disk, c, { life with point := .drawName })
    else
      match createPrivateNew cwd fault disk life.output.path with
      | (.ok _, disk) =>
        (disk, c, { life with
          output := { life.output with placeholder := true }
          point := .reserved })
      | (.error e, disk) =>
        (disk, c, { life with
          point := .dropping
            (some (createError cwd readFault disk life.output.path life.input e)) })
  | _ => (disk, c, life)

/-- `output.placeholder_guard = cleanup::register(path)`. -/
def stepReserved : Choice → Disk × Cleanup × Life
  | .call _ _ =>
    (disk, (c.register life.output.path).2, { life with
      output := { life.output with placeholderGuard := (c.register life.output.path).1 }
      point := .drawName })
  | _ => (disk, c, life)

/-- `temp_path_beside(path)?`. -/
def stepDrawName : Choice → Disk × Cleanup × Life
  | .draw (.error message) =>
    (disk, c, { life with point := .dropping (some (.random message)) })
  | .draw (.ok suffix) =>
    (disk, c, { life with point := .makeTemp (tempPathBeside life.output.path suffix) })
  | _ => (disk, c, life)

/-- `create_private_new(&tmp_path)`. -/
def stepMakeTemp (tmp : PathName) : Choice → Disk × Cleanup × Life
  | .call fault _ =>
    match createPrivateNew cwd fault disk tmp with
    | (.ok e, disk) => (disk, c, { life with file := some e, point := .tempMade tmp })
    | (.error e, disk) => (disk, c, { life with point := .dropping (some (.io tmp e.message)) })
  | _ => (disk, c, life)

/-- `output.tmp_guard = cleanup::register(&tmp_path)`, and `create` returns. -/
def stepTempMade (tmp : PathName) : Choice → Disk × Cleanup × Life
  | .call _ _ =>
    (disk, (c.register tmp).2, { life with
      output := { life.output with tmpGuard := (c.register tmp).1, tmpPath := some tmp }
      point := .opened })
  | _ => (disk, c, life)

/-- The command writes, commits (`sync_all` first) or drops. -/
def stepOpened : Choice → Disk × Cleanup × Life
  | .write data fault =>
    match life.file, fault with
    | some e, none =>
      (disk.update e (· ++ data), c, { life with written := life.written ++ data })
    | some e, some (err, count) =>
      (disk.update e (· ++ data.take count), c, { life with
        point := .dropping (some (.io life.output.tmpPathOr (IoError.ofErrno err).message)) })
    | none, _ => (disk, c, life)
  | .commit none => (disk, c, { life with point := .synced })
  | .commit (some err) =>
    (disk, c, { life with
      point := .dropping (some (.io life.output.tmpPathOr (IoError.ofErrno err).message)) })
  | .abandon reason => (disk, c, { life with point := .dropping reason })
  | _ => (disk, c, life)

/-- `hold_off` blocks the signals. -/
def stepSynced : Choice → Disk × Cleanup × Life
  | .call _ _ => (disk, { c with blocked := true }, { life with point := .holding })
  | _ => (disk, c, life)

/-- `self.placeholder_guard = None`. -/
def stepHolding : Choice → Disk × Cleanup × Life
  | .call _ _ =>
    (disk, c.release life.output.placeholderGuard, { life with
      output := { life.output with placeholderGuard := none }
      point := .held })
  | _ => (disk, c, life)

/-- `std::fs::rename(tmp_path, &self.path)`. -/
def stepHeld : Choice → Disk × Cleanup × Life
  | .call fault _ =>
    match life.output.tmpPath with
    | none => (disk, c, { life with point := .renamed (.ok ()) })
    | some tmp =>
      match renameFile cwd fault disk tmp life.output.path with
      | (.ok (), disk) => (disk, c, { life with point := .renamed (.ok ()) })
      | (.error e, disk) =>
        (disk, c, { life with point := .renamed (.error (.io life.output.path e.message)) })
  | _ => (disk, c, life)

/-- `hold_off` unblocks the signals; `commit` marks the output or returns the error. -/
def stepRenamed (result : Except CliError Unit) : Choice → Disk × Cleanup × Life
  | .call _ _ =>
    match result with
    | .ok () =>
      (disk, { c with blocked := false }, { life with
        output := { life.output with committed := true }
        point := .releasing none })
    | .error e => (disk, { c with blocked := false }, { life with point := .dropping (some e) })
  | _ => (disk, c, life)

/-- `Drop` removes the temp file. -/
def stepDropping (result : Option CliError) : Choice → Disk × Cleanup × Life
  | .call fault _ =>
    (match life.output.tmpPath with
      | some tmp => removeFile cwd fault disk tmp
      | none => disk,
      c, { life with point := .tempRemoved result })
  | _ => (disk, c, life)

/-- `Drop` removes the placeholder. -/
def stepTempRemoved (result : Option CliError) : Choice → Disk × Cleanup × Life
  | .call fault _ =>
    (if life.output.placeholder then removeFile cwd fault disk life.output.path else disk,
      c, { life with point := .releasing result })
  | _ => (disk, c, life)

/-- The fields are dropped: the placeholder's guard. -/
def stepReleasing (result : Option CliError) : Choice → Disk × Cleanup × Life
  | .call _ _ =>
    (disk, c.release life.output.placeholderGuard, { life with point := .releasingTemp result })
  | _ => (disk, c, life)

/-- The fields are dropped: the temp file's guard. -/
def stepReleasingTemp (result : Option CliError) : Choice → Disk × Cleanup × Life
  | .call _ _ =>
    (disk, c.release life.output.tmpGuard, { life with point := .finished result })
  | _ => (disk, c, life)

/-- One step. -/
def step (choice : Choice) : Disk × Cleanup × Life :=
  match life.point with
  | .create => stepCreate cwd disk c life choice
  | .reserved => stepReserved disk c life choice
  | .drawName => stepDrawName disk c life choice
  | .makeTemp tmp => stepMakeTemp cwd disk c life tmp choice
  | .tempMade tmp => stepTempMade disk c life tmp choice
  | .opened => stepOpened disk c life choice
  | .synced => stepSynced disk c life choice
  | .holding => stepHolding disk c life choice
  | .held => stepHeld cwd disk c life choice
  | .renamed result => stepRenamed disk c life result choice
  | .dropping result => stepDropping cwd disk c life result choice
  | .tempRemoved result => stepTempRemoved cwd disk c life result choice
  | .releasing result => stepReleasing disk c life result choice
  | .releasingTemp result => stepReleasingTemp disk c life result choice
  | .finished _ => (disk, c, life)

end

/-! ## Everything a step can do -/

/-- Making a file: it fails and changes nothing, or it is a new empty file. -/
theorem createPrivateNew_cases (cwd : Loc) (fault : Option Errno) (disk : Disk)
    (path : PathName) :
    (∃ err, createPrivateNew cwd fault disk path = (.error err, disk))
      ∨ ∃ e, disk.entry cwd path = .ok e ∧ disk.node e.loc = none
        ∧ createPrivateNew cwd fault disk path = (.ok e, disk.set e (some (.file []))) := by
  cases fault with
  | some err => exact Or.inl ⟨_, rfl⟩
  | none =>
    rcases Files.createNew_cases disk cwd path [] with ⟨err, herr⟩ | ⟨e, he, hnode, hok⟩
    · exact Or.inl ⟨.ofErrno err, by simp only [createPrivateNew, herr]⟩
    · exact Or.inr ⟨e, he, hnode, by simp only [createPrivateNew, hok]⟩

/-- A failed rename changes nothing. -/
theorem renameFile_cases (cwd : Loc) (fault : Option Errno) (disk : Disk) (src dst : PathName) :
    (∃ err, renameFile cwd fault disk src dst = (.error err, disk))
      ∨ ∃ disk', fault = none ∧ disk.rename cwd src dst = (.ok (), disk')
        ∧ renameFile cwd fault disk src dst = (.ok (), disk') := by
  cases fault with
  | some err => exact Or.inl ⟨_, rfl⟩
  | none =>
    rcases hren : disk.rename cwd src dst with ⟨r, disk'⟩
    match r with
    | .error err =>
      have hsame : disk' = disk := Files.eq_of_rename_error hren
      exact Or.inl ⟨.ofErrno err, by simp only [renameFile, hren, hsame]⟩
    | .ok () => exact Or.inr ⟨disk', rfl, rfl, by simp only [renameFile, hren]⟩

/-- A check that went through in spite of a possible fault goes through without. -/
theorem refuseKeyFile_none {cwd : Loc} {disk : Disk} {fault : Option Errno} {path : PathName}
    (h : refuseKeyFile cwd fault disk path = .ok ()) :
    refuseKeyFile cwd none disk path = .ok () := by
  cases fault with
  | none => exact h
  | some err =>
    rw [refuseKeyFile] at h ⊢
    split at h
    · cases h
    · rfl

/-- `Moves cwd choice disk c life disk' c' life'`: what a step makes of disk, table and
life. -/
inductive Moves (cwd : Loc) (choice : Choice) (disk : Disk) (c : Cleanup) (life : Life) :
    Disk → Cleanup → Life → Prop
  | stay : Moves cwd choice disk c life disk c life
  | refuse (hpoint : life.point = .create) (e : CliError) :
    Moves cwd choice disk c life disk c { life with point := .dropping (some e) }
  | pass (hpoint : life.point = .create) (hforce : life.force = true)
      (hcheck : refuseKeyFile cwd none disk life.output.path = .ok ()) :
    Moves cwd choice disk c life disk c { life with point := .drawName }
  | reserve {e : Entry} (hpoint : life.point = .create) (hforce : life.force = false)
      (hentry : disk.entry cwd life.output.path = .ok e) (hnode : disk.node e.loc = none) :
    Moves cwd choice disk c life (disk.set e (some (.file []))) c { life with
      output := { life.output with placeholder := true }
      point := .reserved }
  | register (hpoint : life.point = .reserved) :
    Moves cwd choice disk c life disk (c.register life.output.path).2 { life with
      output := { life.output with placeholderGuard := (c.register life.output.path).1 }
      point := .drawName }
  | drawFail (hpoint : life.point = .drawName) (e : CliError) :
    Moves cwd choice disk c life disk c { life with point := .dropping (some e) }
  | draw (hpoint : life.point = .drawName) (suffix : Vector UInt8 8)
      (hchoice : choice = .draw (.ok suffix)) :
    Moves cwd choice disk c life disk c { life with
      point := .makeTemp (tempPathBeside life.output.path suffix) }
  | tempFail {tmp : PathName} (hpoint : life.point = .makeTemp tmp) (e : CliError) :
    Moves cwd choice disk c life disk c { life with point := .dropping (some e) }
  | makeTemp {tmp : PathName} {τ : Entry} (hpoint : life.point = .makeTemp tmp)
      (hentry : disk.entry cwd tmp = .ok τ) (hnode : disk.node τ.loc = none) :
    Moves cwd choice disk c life (disk.set τ (some (.file []))) c { life with
      file := some τ
      point := .tempMade tmp }
  | registerTemp {tmp : PathName} (hpoint : life.point = .tempMade tmp) :
    Moves cwd choice disk c life disk (c.register tmp).2 { life with
      output := { life.output with tmpGuard := (c.register tmp).1, tmpPath := some tmp }
      point := .opened }
  | write {τ : Entry} (hpoint : life.point = .opened) (hfile : life.file = some τ)
      (data : List UInt8) :
    Moves cwd choice disk c life (disk.update τ (· ++ data)) c { life with
      written := life.written ++ data }
  | writeFail {τ : Entry} (hpoint : life.point = .opened) (hfile : life.file = some τ)
      (data : List UInt8) (e : CliError) :
    Moves cwd choice disk c life (disk.update τ (· ++ data)) c { life with
      point := .dropping (some e) }
  | sync (hpoint : life.point = .opened) :
    Moves cwd choice disk c life disk c { life with point := .synced }
  | leave (hpoint : life.point = .opened) (reason : Option CliError) :
    Moves cwd choice disk c life disk c { life with point := .dropping reason }
  | block (hpoint : life.point = .synced) :
    Moves cwd choice disk c life disk { c with blocked := true } { life with point := .holding }
  | unguard (hpoint : life.point = .holding) :
    Moves cwd choice disk c life disk (c.release life.output.placeholderGuard) { life with
      output := { life.output with placeholderGuard := none }
      point := .held }
  | renameNothing (hpoint : life.point = .held) (htmp : life.output.tmpPath = none) :
    Moves cwd choice disk c life disk c { life with point := .renamed (.ok ()) }
  | renameFail (hpoint : life.point = .held) (e : CliError) :
    Moves cwd choice disk c life disk c { life with point := .renamed (.error e) }
  | rename {tmp : PathName} {disk' : Disk} (hpoint : life.point = .held)
      (htmp : life.output.tmpPath = some tmp) (hchoice : ∃ readFault, choice = .call none readFault)
      (hren : disk.rename cwd tmp life.output.path = (.ok (), disk')) :
    Moves cwd choice disk c life disk' c { life with point := .renamed (.ok ()) }
  | publish (hpoint : life.point = .renamed (.ok ())) :
    Moves cwd choice disk c life disk { c with blocked := false } { life with
      output := { life.output with committed := true }
      point := .releasing none }
  | unpublish {e : CliError} (hpoint : life.point = .renamed (.error e)) :
    Moves cwd choice disk c life disk { c with blocked := false } { life with
      point := .dropping (some e) }
  | removeTemp {result : Option CliError} {tmp : PathName} (hpoint : life.point = .dropping result)
      (htmp : life.output.tmpPath = some tmp) :
    Moves cwd choice disk c life (disk.unlink cwd tmp).2 c { life with
      point := .tempRemoved result }
  | skipTemp {result : Option CliError} (hpoint : life.point = .dropping result)
      (hskip : life.output.tmpPath = none ∨ ∃ err readFault, choice = .call (some err) readFault) :
    Moves cwd choice disk c life disk c { life with point := .tempRemoved result }
  | removePlaceholder {result : Option CliError} (hpoint : life.point = .tempRemoved result)
      (hplaceholder : life.output.placeholder = true) :
    Moves cwd choice disk c life (disk.unlink cwd life.output.path).2 c { life with
      point := .releasing result }
  | skipPlaceholder {result : Option CliError} (hpoint : life.point = .tempRemoved result)
      (hskip : life.output.placeholder = false
        ∨ ∃ err readFault, choice = .call (some err) readFault) :
    Moves cwd choice disk c life disk c { life with point := .releasing result }
  | release {result : Option CliError} (hpoint : life.point = .releasing result) :
    Moves cwd choice disk c life disk (c.release life.output.placeholderGuard) { life with
      point := .releasingTemp result }
  | releaseTemp {result : Option CliError} (hpoint : life.point = .releasingTemp result) :
    Moves cwd choice disk c life disk (c.release life.output.tmpGuard) { life with
      point := .finished result }

section

variable {cwd : Loc} {disk : Disk} {c : Cleanup} {life : Life}

theorem moves_create (hpoint : life.point = .create) (choice : Choice) :
    Moves cwd choice disk c life (stepCreate cwd disk c life choice).1
      (stepCreate cwd disk c life choice).2.1 (stepCreate cwd disk c life choice).2.2 := by
  cases choice with
  | call fault readFault =>
    rw [stepCreate]
    split
    · split
      · exact .refuse hpoint _
      · exact .pass hpoint ‹_› (refuseKeyFile_none ‹_›)
    · rename_i hforce
      rw [Bool.not_eq_true] at hforce
      rcases createPrivateNew_cases cwd fault disk life.output.path with
        ⟨err, herr⟩ | ⟨e, he, hnode, hok⟩
      · rw [herr]
        exact .refuse hpoint _
      · rw [hok]
        exact .reserve hpoint hforce he hnode
  | _ => exact .stay

theorem moves_opened (hpoint : life.point = .opened) (choice : Choice) :
    Moves cwd choice disk c life (stepOpened disk c life choice).1
      (stepOpened disk c life choice).2.1 (stepOpened disk c life choice).2.2 := by
  cases choice with
  | write data fault =>
    cases hfile : life.file with
    | none =>
      simp only [stepOpened, hfile]
      exact .stay
    | some τ =>
      cases fault with
      | none =>
        have hstep : stepOpened disk c life (.write data none)
            = (disk.update τ (· ++ data), c, { life with written := life.written ++ data }) := by
          simp only [stepOpened, hfile]
        rw [hstep]
        exact .write hpoint hfile data
      | some err =>
        have hstep : stepOpened disk c life (.write data (some err))
            = (disk.update τ (· ++ data.take err.2), c, { life with
                point := .dropping
                  (some (.io life.output.tmpPathOr (IoError.ofErrno err.1).message)) }) := by
          simp only [stepOpened, hfile]
        rw [hstep]
        exact .writeFail hpoint hfile _ _
  | commit fault =>
    cases fault with
    | none => exact .sync hpoint
    | some err => exact .leave hpoint _
  | abandon reason => exact .leave hpoint _
  | _ => exact .stay

theorem moves_held (hpoint : life.point = .held) (choice : Choice) :
    Moves cwd choice disk c life (stepHeld cwd disk c life choice).1
      (stepHeld cwd disk c life choice).2.1 (stepHeld cwd disk c life choice).2.2 := by
  cases choice with
  | call fault readFault =>
    rw [stepHeld]
    split
    · exact .renameNothing hpoint ‹_›
    · rename_i tmp htmp
      rcases renameFile_cases cwd fault disk tmp life.output.path with
        ⟨err, herr⟩ | ⟨disk', rfl, hren, hok⟩
      · rw [herr]
        exact .renameFail hpoint _
      · rw [hok]
        exact .rename hpoint htmp ⟨readFault, rfl⟩ hren
  | _ => exact .stay

theorem moves_dropping {result : Option CliError} (hpoint : life.point = .dropping result)
    (choice : Choice) :
    Moves cwd choice disk c life (stepDropping cwd disk c life result choice).1
      (stepDropping cwd disk c life result choice).2.1
      (stepDropping cwd disk c life result choice).2.2 := by
  cases choice with
  | call fault readFault =>
    rw [stepDropping]
    cases htmp : life.output.tmpPath with
    | none => exact .skipTemp hpoint (Or.inl htmp)
    | some tmp =>
      cases fault with
      | none => exact .removeTemp hpoint htmp
      | some err => exact .skipTemp hpoint (Or.inr ⟨err, readFault, rfl⟩)
  | _ => exact .stay

theorem moves_tempRemoved {result : Option CliError} (hpoint : life.point = .tempRemoved result)
    (choice : Choice) :
    Moves cwd choice disk c life (stepTempRemoved cwd disk c life result choice).1
      (stepTempRemoved cwd disk c life result choice).2.1
      (stepTempRemoved cwd disk c life result choice).2.2 := by
  cases choice with
  | call fault readFault =>
    rw [stepTempRemoved]
    split
    · cases fault with
      | none => exact .removePlaceholder hpoint ‹_›
      | some err => exact .skipPlaceholder hpoint (Or.inr ⟨err, readFault, rfl⟩)
    · rename_i hplaceholder
      rw [Bool.not_eq_true] at hplaceholder
      exact .skipPlaceholder hpoint (Or.inl hplaceholder)
  | _ => exact .stay

/-- **Everything a step can do.** -/
theorem moves_step (cwd : Loc) (disk : Disk) (c : Cleanup) (life : Life) (choice : Choice) :
    Moves cwd choice disk c life (step cwd disk c life choice).1
      (step cwd disk c life choice).2.1 (step cwd disk c life choice).2.2 := by
  rw [step]
  split
  · exact moves_create ‹_› choice
  · rename_i hpoint
    cases choice with
    | call fault readFault => exact .register hpoint
    | _ => exact .stay
  · rename_i hpoint
    cases choice with
    | draw suffix =>
      cases suffix with
      | error message => exact .drawFail hpoint _
      | ok suffix => exact .draw hpoint suffix rfl
    | _ => exact .stay
  · rename_i tmp hpoint
    cases choice with
    | call fault readFault =>
      rcases createPrivateNew_cases cwd fault disk tmp with ⟨err, herr⟩ | ⟨e, he, hnode, hok⟩
      · simp only [stepMakeTemp, herr]
        exact .tempFail hpoint _
      · simp only [stepMakeTemp, hok]
        exact .makeTemp hpoint he hnode
    | _ => exact .stay
  · rename_i tmp hpoint
    cases choice with
    | call fault readFault => exact .registerTemp hpoint
    | _ => exact .stay
  · exact moves_opened ‹_› choice
  · rename_i hpoint
    cases choice with
    | call fault readFault => exact .block hpoint
    | _ => exact .stay
  · rename_i hpoint
    cases choice with
    | call fault readFault => exact .unguard hpoint
    | _ => exact .stay
  · exact moves_held ‹_› choice
  · rename_i result hpoint
    cases choice with
    | call fault readFault =>
      cases result with
      | ok u => exact .publish hpoint
      | error e => exact .unpublish hpoint
    | _ => exact .stay
  · exact moves_dropping ‹_› choice
  · exact moves_tempRemoved ‹_› choice
  · rename_i hpoint
    cases choice with
    | call fault readFault => exact .release hpoint
    | _ => exact .stay
  · rename_i hpoint
    cases choice with
    | call fault readFault => exact .releaseTemp hpoint
    | _ => exact .stay
  · exact .stay

end

end UaCrypt.Cli
