import UaCrypt.Cli.OutputAtomic

/-!
# Outputs that share a disk

Several outputs are open at once: those of one command, or those of commands running
side by side. What one of them does to the disk depends on little of its life: whether it
holds a placeholder, which temp file it has, and whether it has been published.

- `Holding`: that part of a life, and `Acts`: what a step can do to it.
- `Moves.acts`: **every step of a life acts on its holding**.
- `Sound`: placeholders and temp files are where their owners think they are, and what was
  published is at its path. `Sound.acts`: kept by every action of any output that is not a
  rename onto another's placeholder or temp file.
-/

namespace UaCrypt.Cli

open FileTree FileTree.Files

/-! ## What an output has on the disk -/

/-- `intact`: the temp file, if there is one, holds all that was written. -/
structure Holding where
  placeholder : Bool
  temp : Option (PathName × Entry)
  intact : Bool
  written : List UInt8
  published : Bool

/-- The placeholder is there and will be removed, or replaced by the output. -/
def Life.holdsPlaceholder (life : Life) : Bool :=
  match life.point with
  | .create | .renamed (.ok ()) | .releasing _ | .releasingTemp _ | .finished _ => false
  | _ => life.output.placeholder

/-- The temp file that will be renamed or removed. -/
def Life.temp (life : Life) : Option (PathName × Entry) :=
  match life.point with
  | .tempMade tmp => life.file.map fun τ => (tmp, τ)
  | .opened | .synced | .holding | .held | .renamed (.error _) | .dropping _ =>
    match life.output.tmpPath, life.file with
    | some tmp, some τ => some (tmp, τ)
    | _, _ => none
  | _ => none

theorem tmpPath_of_pair {path : Option PathName} {file : Option Entry} {tmp : PathName} {τ : Entry}
    (h : (match path, file with
      | some tmp, some τ => some (tmp, τ)
      | _, _ => none) = some (tmp, τ)) : path = some tmp := by
  cases path with
  | none => cases h
  | some p =>
    cases file with
    | none => cases h
    | some f =>
      cases h
      rfl

/-- The output is not being dropped. -/
def Life.intact (life : Life) : Bool :=
  match life.point with
  | .dropping _ | .tempRemoved _ | .releasing _ | .releasingTemp _ | .finished _ => false
  | _ => true

/-- The rename went through. -/
def Life.published (life : Life) : Bool :=
  match life.point with
  | .renamed (.ok ()) => true
  | _ => life.output.committed

def Life.holding (life : Life) : Holding where
  placeholder := life.holdsPlaceholder
  temp := life.temp
  intact := life.intact
  written := life.written
  published := life.published

/-- What one output may do to the disk and to its holding. `leaks` says that a removal may
fail. -/
inductive Acts (cwd : Loc) (path : PathName) (force : Bool) (leaks : Prop) (disk : Disk)
    (h : Holding) : Disk → Holding → Prop
  | idle : Acts cwd path force leaks disk h disk h
  | leave : Acts cwd path force leaks disk h disk { h with intact := false }
  | reserve {e : Entry} (hforce : force = false) (hpub : h.published = false)
      (hentry : disk.entry cwd path = .ok e) (hnode : disk.node e.loc = none) :
    Acts cwd path force leaks disk h (disk.set e (some (.file []))) { h with placeholder := true }
  | makeTemp {suffix : Vector UInt8 8} {τ : Entry} (hfree : h.temp = none)
      (hpub : h.published = false) (hwritten : h.written = [])
      (hentry : disk.entry cwd (tempPathBeside path suffix) = .ok τ)
      (hnode : disk.node τ.loc = none) :
    Acts cwd path force leaks disk h (disk.set τ (some (.file [])))
      { h with temp := some (tempPathBeside path suffix, τ) }
  | write {tmp : PathName} {τ : Entry} (htemp : h.temp = some (tmp, τ)) (data : List UInt8) :
    Acts cwd path force leaks disk h (disk.update τ (· ++ data))
      { h with written := h.written ++ data }
  | writeFail {tmp : PathName} {τ : Entry} (htemp : h.temp = some (tmp, τ)) (data : List UInt8) :
    Acts cwd path force leaks disk h (disk.update τ (· ++ data)) { h with intact := false }
  | publish {tmp : PathName} {τ : Entry} {disk' : Disk} (htemp : h.temp = some (tmp, τ))
      (hintact : h.intact = true) (hmode : force = true ∨ h.placeholder = true)
      (hren : disk.rename cwd tmp path = (.ok (), disk')) :
    Acts cwd path force leaks disk h disk'
      { h with placeholder := false, temp := none, published := true }
  | removeTemp {tmp : PathName} {τ : Entry} (htemp : h.temp = some (tmp, τ)) :
    Acts cwd path force leaks disk h (disk.unlink cwd tmp).2
      { h with temp := none, intact := false }
  | forgetTemp (hleak : h.temp = none ∨ leaks) :
    Acts cwd path force leaks disk h disk { h with temp := none, intact := false }
  | removePlaceholder (hplaceholder : h.placeholder = true) :
    Acts cwd path force leaks disk h (disk.unlink cwd path).2 { h with placeholder := false }
  | forgetPlaceholder (hleak : h.placeholder = false ∨ leaks) :
    Acts cwd path force leaks disk h disk { h with placeholder := false }

/-! ## Lives act on their holdings -/

/-- What a life knows of itself at each point. -/
def Life.Ok (life : Life) : Prop :=
  match life.point with
  | .create => life.output.tmpPath = none ∧ life.output.committed = false ∧ life.written = []
    ∧ life.output.placeholder = false
  | .reserved | .drawName => life.output.tmpPath = none ∧ life.output.committed = false
    ∧ life.written = [] ∧ life.output.placeholder = !life.force
  | .makeTemp tmp => life.output.tmpPath = none ∧ life.output.committed = false
    ∧ life.written = [] ∧ life.output.placeholder = !life.force
    ∧ ∃ suffix, tmp = tempPathBeside life.output.path suffix
  | .tempMade _ => life.file.isSome = true ∧ life.output.committed = false
    ∧ life.output.placeholder = !life.force
  | .opened | .synced | .holding | .held | .renamed (.error _) =>
    life.file.isSome = true ∧ life.output.tmpPath.isSome = true ∧ life.output.committed = false
      ∧ life.output.placeholder = !life.force
  | .renamed (.ok ()) => life.output.committed = false
  | .dropping _ => life.output.committed = false
    ∧ (life.output.tmpPath.isSome = true → life.file.isSome = true)
  | .tempRemoved _ => life.output.committed = false
  | .releasing _ | .releasingTemp _ | .finished _ => True

theorem ok_start (path : PathName) (input : Option PathName) (force : Bool) :
    (Life.start path input force).Ok := ⟨rfl, rfl, rfl, rfl⟩

section

variable {cwd : Loc} {choice : Choice} {disk disk' : Disk} {c c' : Cleanup} {life life' : Life}

theorem Moves.ok (hmove : Moves cwd choice disk c life disk' c' life') (hok : life.Ok) :
    life'.Ok := by
  cases hmove with
  | stay => exact hok
  | refuse hpoint e =>
    simp only [Life.Ok, hpoint] at hok ⊢
    exact ⟨hok.2.1, by simp [hok.1]⟩
  | pass hpoint hforce hcheck =>
    simp only [Life.Ok, hpoint] at hok ⊢
    exact ⟨hok.1, hok.2.1, hok.2.2.1, by rw [hok.2.2.2, hforce]; rfl⟩
  | reserve hpoint hforce hentry hnode =>
    simp only [Life.Ok, hpoint] at hok ⊢
    exact ⟨hok.1, hok.2.1, hok.2.2.1, by rw [hforce]; rfl⟩
  | register hpoint =>
    simp only [Life.Ok, hpoint] at hok ⊢
    exact hok
  | drawFail hpoint e =>
    simp only [Life.Ok, hpoint] at hok ⊢
    exact ⟨hok.2.1, by simp [hok.1]⟩
  | draw hpoint suffix _ =>
    simp only [Life.Ok, hpoint] at hok ⊢
    exact ⟨hok.1, hok.2.1, hok.2.2.1, hok.2.2.2, suffix, rfl⟩
  | tempFail hpoint e =>
    simp only [Life.Ok, hpoint] at hok ⊢
    exact ⟨hok.2.1, by simp [hok.1]⟩
  | makeTemp hpoint hentry hnode =>
    simp only [Life.Ok, hpoint] at hok ⊢
    exact ⟨rfl, hok.2.1, hok.2.2.2.1⟩
  | registerTemp hpoint =>
    simp only [Life.Ok, hpoint] at hok ⊢
    exact ⟨hok.1, rfl, hok.2⟩
  | write hpoint hfile data =>
    simp only [Life.Ok, hpoint] at hok ⊢
    exact hok
  | writeFail hpoint hfile data e =>
    simp only [Life.Ok, hpoint] at hok ⊢
    exact ⟨hok.2.2.1, fun _ => hok.1⟩
  | sync hpoint =>
    simp only [Life.Ok, hpoint] at hok ⊢
    exact hok
  | leave hpoint reason =>
    simp only [Life.Ok, hpoint] at hok ⊢
    exact ⟨hok.2.2.1, fun _ => hok.1⟩
  | block hpoint =>
    simp only [Life.Ok, hpoint] at hok ⊢
    exact hok
  | unguard hpoint =>
    simp only [Life.Ok, hpoint] at hok ⊢
    exact hok
  | renameNothing hpoint htmp =>
    simp only [Life.Ok, hpoint] at hok ⊢
    exact hok.2.2.1
  | renameFail hpoint e =>
    simp only [Life.Ok, hpoint] at hok ⊢
    exact hok
  | rename hpoint htmp _ hren =>
    simp only [Life.Ok, hpoint] at hok ⊢
    exact hok.2.2.1
  | publish hpoint => trivial
  | unpublish hpoint =>
    simp only [Life.Ok, hpoint] at hok ⊢
    exact ⟨hok.2.2.1, fun _ => hok.1⟩
  | removeTemp hpoint htmp =>
    simp only [Life.Ok, hpoint] at hok ⊢
    exact hok.1
  | skipTemp hpoint hskip =>
    simp only [Life.Ok, hpoint] at hok ⊢
    exact hok.1
  | removePlaceholder hpoint hplaceholder => trivial
  | skipPlaceholder hpoint hskip => trivial
  | release hpoint => trivial
  | releaseTemp hpoint => trivial

/-- A life that goes on, with its holding as it was. -/
theorem Acts.of_eq {path : PathName} {force : Bool} {leaks : Prop} {h h' : Holding}
    (heq : h' = h) : Acts cwd path force leaks disk h disk h' := heq ▸ .idle

theorem Acts.of_leave {path : PathName} {force : Bool} {leaks : Prop} {h h' : Holding}
    (heq : h' = { h with intact := false }) : Acts cwd path force leaks disk h disk h' :=
  heq ▸ .leave

theorem temp_of_opened {τ : Entry} (hok : life.Ok) (hpoint : life.point = .opened)
    (hfile : life.file = some τ) : ∃ tmp, life.holding.temp = some (tmp, τ) := by
  simp only [Life.Ok, hpoint] at hok
  obtain ⟨tmp, htmp⟩ := Option.isSome_iff_exists.mp hok.2.1
  exact ⟨tmp, by simp [Life.holding, Life.temp, hpoint, htmp, hfile]⟩

/-- Only the rename publishes. -/
theorem Moves.published_made (hmove : Moves cwd choice disk c life disk' c' life')
    (hok : life.Ok) (hold : life.published = false) (hnew : life'.published = true) :
    life.point = .held ∧ ∃ readFault, choice = .call none readFault := by
  cases hmove with
  | renameNothing hpoint htmp =>
    simp only [Life.Ok, hpoint, htmp] at hok
    exact absurd hok.2.1 (by decide)
  | rename hpoint htmp hchoice hren => exact ⟨hpoint, hchoice⟩
  | stay =>
    rw [hold] at hnew
    cases hnew
  | _ =>
    simp only [Life.published, *] at hold hnew
    first
      | cases hold
      | (rw [hold] at hnew; cases hnew)

/-- **Every step of a life acts on its holding.** -/
theorem Moves.acts (hmove : Moves cwd choice disk c life disk' c' life') (hok : life.Ok) :
    Acts cwd life.output.path life.force (¬RemovalSucceeds ⟨disk, c, life⟩ choice) disk
      life.holding disk' life'.holding := by
  cases hmove with
  | stay => exact .idle
  | refuse hpoint e =>
    simp only [Life.Ok, hpoint] at hok
    exact .of_leave (by simp [Life.holding, Life.holdsPlaceholder, Life.temp, Life.intact,
      Life.published, hpoint, hok])
  | pass hpoint hforce hcheck =>
    simp only [Life.Ok, hpoint] at hok
    exact .of_eq (by simp [Life.holding, Life.holdsPlaceholder, Life.temp, Life.intact,
      Life.published, hpoint, hok])
  | reserve hpoint hforce hentry hnode =>
    simp only [Life.Ok, hpoint] at hok
    have hnext : Life.holding { life with
        output := { life.output with placeholder := true }
        point := .reserved } = { life.holding with placeholder := true } := by
      simp [Life.holding, Life.holdsPlaceholder, Life.temp, Life.intact, Life.published, hpoint]
    rw [hnext]
    exact .reserve hforce (by simp [Life.holding, Life.published, hpoint, hok]) hentry hnode
  | register hpoint =>
    simp only [Life.Ok, hpoint] at hok
    exact .of_eq (by simp [Life.holding, Life.holdsPlaceholder, Life.temp, Life.intact,
      Life.published, hpoint, hok])
  | drawFail hpoint e =>
    simp only [Life.Ok, hpoint] at hok
    exact .of_leave (by simp [Life.holding, Life.holdsPlaceholder, Life.temp, Life.intact,
      Life.published, hpoint, hok])
  | draw hpoint suffix _ =>
    simp only [Life.Ok, hpoint] at hok
    exact .of_eq (by simp [Life.holding, Life.holdsPlaceholder, Life.temp, Life.intact,
      Life.published, hpoint, hok])
  | tempFail hpoint e =>
    simp only [Life.Ok, hpoint] at hok
    exact .of_leave (by simp [Life.holding, Life.holdsPlaceholder, Life.temp, Life.intact,
      Life.published, hpoint, hok])
  | @makeTemp tmp τ hpoint hentry hnode =>
    simp only [Life.Ok, hpoint] at hok
    obtain ⟨-, hcommitted, hwritten, -, suffix, rfl⟩ := hok
    have hnext : Life.holding { life with
        file := some τ
        point := .tempMade (tempPathBeside life.output.path suffix) }
        = { life.holding with temp := some (tempPathBeside life.output.path suffix, τ) } := by
      simp [Life.holding, Life.holdsPlaceholder, Life.temp, Life.intact, Life.published, hpoint]
    rw [hnext]
    exact .makeTemp (by simp [Life.holding, Life.temp, hpoint])
      (by simp [Life.holding, Life.published, hpoint, hcommitted]) hwritten hentry hnode
  | @registerTemp tmp hpoint =>
    simp only [Life.Ok, hpoint] at hok
    obtain ⟨τ, hfile⟩ := Option.isSome_iff_exists.mp hok.1
    exact .of_eq (by simp [Life.holding, Life.holdsPlaceholder, Life.temp, Life.intact,
      Life.published, hpoint, hfile])
  | @write τ hpoint hfile data =>
    obtain ⟨tmp, htemp⟩ := temp_of_opened hok hpoint hfile
    have hnext : Life.holding { life with written := life.written ++ data }
        = { life.holding with written := life.holding.written ++ data } := by
      simp [Life.holding, Life.holdsPlaceholder, Life.temp, Life.intact, Life.published, hpoint]
    rw [hnext]
    exact .write htemp data
  | @writeFail τ hpoint hfile data e =>
    obtain ⟨tmp, htemp⟩ := temp_of_opened hok hpoint hfile
    have hnext : Life.holding { life with point := .dropping (some e) }
        = { life.holding with intact := false } := by
      simp [Life.holding, Life.holdsPlaceholder, Life.temp, Life.intact, Life.published, hpoint]
    rw [hnext]
    exact .writeFail htemp data
  | sync hpoint =>
    simp only [Life.Ok, hpoint] at hok
    exact .of_eq (by simp [Life.holding, Life.holdsPlaceholder, Life.temp, Life.intact,
      Life.published, hpoint, hok])
  | leave hpoint reason =>
    simp only [Life.Ok, hpoint] at hok
    exact .of_leave (by simp [Life.holding, Life.holdsPlaceholder, Life.temp, Life.intact,
      Life.published, hpoint, hok])
  | block hpoint =>
    simp only [Life.Ok, hpoint] at hok
    exact .of_eq (by simp [Life.holding, Life.holdsPlaceholder, Life.temp, Life.intact,
      Life.published, hpoint, hok])
  | unguard hpoint =>
    simp only [Life.Ok, hpoint] at hok
    exact .of_eq (by simp [Life.holding, Life.holdsPlaceholder, Life.temp, Life.intact,
      Life.published, hpoint, hok])
  | renameNothing hpoint htmp =>
    simp only [Life.Ok, hpoint, htmp] at hok
    exact absurd hok.2.1 (by decide)
  | renameFail hpoint e =>
    simp only [Life.Ok, hpoint] at hok
    exact .of_eq (by simp [Life.holding, Life.holdsPlaceholder, Life.temp, Life.intact,
      Life.published, hpoint, hok])
  | @rename tmp _ hpoint htmp _ hren =>
    simp only [Life.Ok, hpoint] at hok
    obtain ⟨hfile, -, hcommitted, hplaceholder⟩ := hok
    obtain ⟨τ, hfile⟩ := Option.isSome_iff_exists.mp hfile
    have hnext : Life.holding { life with point := .renamed (.ok ()) }
        = { life.holding with placeholder := false, temp := none, published := true } := by
      simp [Life.holding, Life.holdsPlaceholder, Life.temp, Life.intact, Life.published, hpoint]
    rw [hnext]
    refine .publish (τ := τ) ?_ ?_ ?_ hren
    · simp [Life.holding, Life.temp, hpoint, htmp, hfile]
    · simp [Life.holding, Life.intact, hpoint]
    · simp [Life.holding, Life.holdsPlaceholder, hpoint, hplaceholder]
  | publish hpoint =>
    exact .of_leave (by simp [Life.holding, Life.holdsPlaceholder, Life.temp, Life.intact,
      Life.published, hpoint])
  | unpublish hpoint =>
    simp only [Life.Ok, hpoint] at hok
    exact .of_leave (by simp [Life.holding, Life.holdsPlaceholder, Life.temp, Life.intact,
      Life.published, hpoint, hok])
  | @removeTemp result tmp hpoint htmp =>
    simp only [Life.Ok, hpoint, htmp] at hok
    obtain ⟨τ, hfile⟩ := Option.isSome_iff_exists.mp (hok.2 rfl)
    have hnext : Life.holding { life with point := .tempRemoved result }
        = { life.holding with temp := none, intact := false } := by
      simp [Life.holding, Life.holdsPlaceholder, Life.temp, Life.intact, Life.published, hpoint]
    rw [hnext]
    refine .removeTemp (τ := τ) ?_
    simp [Life.holding, Life.temp, hpoint, htmp, hfile]
  | @skipTemp result hpoint hskip =>
    have hnext : Life.holding { life with point := .tempRemoved result }
        = { life.holding with temp := none, intact := false } := by
      simp [Life.holding, Life.holdsPlaceholder, Life.temp, Life.intact, Life.published, hpoint]
    rw [hnext]
    refine .forgetTemp ?_
    rcases hskip with htmp | ⟨err, readFault, rfl⟩
    · exact Or.inl (by simp [Life.holding, Life.temp, hpoint, htmp])
    · exact Or.inr (by simp [RemovalSucceeds, hpoint])
  | @removePlaceholder result hpoint hplaceholder =>
    have hnext : Life.holding { life with point := .releasing result }
        = { life.holding with placeholder := false } := by
      simp [Life.holding, Life.holdsPlaceholder, Life.temp, Life.intact, Life.published, hpoint]
    rw [hnext]
    exact .removePlaceholder (by simp [Life.holding, Life.holdsPlaceholder, hpoint, hplaceholder])
  | @skipPlaceholder result hpoint hskip =>
    have hnext : Life.holding { life with point := .releasing result }
        = { life.holding with placeholder := false } := by
      simp [Life.holding, Life.holdsPlaceholder, Life.temp, Life.intact, Life.published, hpoint]
    rw [hnext]
    refine .forgetPlaceholder ?_
    rcases hskip with hplaceholder | ⟨err, readFault, rfl⟩
    · exact Or.inl (by simp [Life.holding, Life.holdsPlaceholder, hpoint, hplaceholder])
    · exact Or.inr (by simp [RemovalSucceeds, hpoint])
  | release hpoint =>
    exact .of_eq (by simp [Life.holding, Life.holdsPlaceholder, Life.temp, Life.intact,
      Life.published, hpoint])
  | releaseTemp hpoint =>
    exact .of_eq (by simp [Life.holding, Life.holdsPlaceholder, Life.temp, Life.intact,
      Life.published, hpoint])

end

/-! ## One output among others

`disk₀` is the disk before any of them; `disk` has no directories or links that it has not
(`ShapeLe`), so a path that still names an entry names the one it named there. -/

/-- What an output holds is on the disk. -/
structure Own (cwd : Loc) (disk₀ : Disk) (path : PathName) (force : Bool) (disk : Disk)
    (h : Holding) : Prop where
  temp : ∀ {tmp τ}, h.temp = some (tmp, τ) → disk₀.entry cwd tmp = .ok τ
    ∧ (∃ suffix, tmp = tempPathBeside path suffix)
    ∧ ∃ data, disk.node τ.loc = some (.file data) ∧ (h.intact = true → data = h.written)
  reserved : h.placeholder = true → force = false
    ∧ ∃ e, disk₀.entry cwd path = .ok e ∧ disk.node e.loc = some (.file [])
  done : h.published = true → h.temp = none ∧ h.placeholder = false

section

variable {cwd : Loc} {disk₀ disk disk' : Disk} {path : PathName} {force : Bool} {leaks : Prop}
  {h h' : Holding}

theorem Own.temp_ne {tmp : PathName} {τ e : Entry} (hown : Own cwd disk₀ path force disk h)
    (htemp : h.temp = some (tmp, τ)) (he : disk₀.entry cwd path = .ok e) : τ ≠ e := by
  obtain ⟨hτ, ⟨suffix, rfl⟩, -⟩ := hown.temp htemp
  exact entry_tempPathBeside_ne he hτ

/-- The rename of a temp file, spelled out. -/
theorem Own.publish {tmp : PathName} {τ : Entry} (hown : Own cwd disk₀ path force disk h)
    (hshape : disk.ShapeLe disk₀) (htemp : h.temp = some (tmp, τ)) (hintact : h.intact = true)
    (hren : disk.rename cwd tmp path = (.ok (), disk')) :
    ∃ e, disk₀.entry cwd path = .ok e ∧ disk.CanSet τ ∧ (disk.set τ none).CanSet e ∧ τ ≠ e
      ∧ disk' = (disk.set τ none).set e (some (.file h.written)) := by
  obtain ⟨hτ, -, data, hnode, hdata⟩ := hown.temp htemp
  obtain rfl := hdata hintact
  obtain ⟨τ', hτ'⟩ := entry_of_rename_ok hren
  obtain rfl : τ' = τ := Except.ok.inj ((entry_of_shapeLe hshape hτ').symm.trans hτ)
  obtain ⟨e, he, hdir, rfl⟩ := rename_eq_ok hren hτ' hnode
  have he₀ := entry_of_shapeLe hshape he
  have hne := hown.temp_ne htemp he₀
  have hset := canSet_of_file hnode
  exact ⟨e, he₀, hset, hset.set (canSet_of_entry he hdir) _ (by simp), hne, if_neg hne⟩

/-- Only directories and links that were there before. -/
theorem Acts.shape (hact : Acts cwd path force leaks disk h disk' h')
    (hown : Own cwd disk₀ path force disk h) (hshape : disk.ShapeLe disk₀) :
    disk'.ShapeLe disk₀ := by
  have hunlink : ∀ p, (disk.unlink cwd p).2.ShapeLe disk₀ := by
    intro p
    rcases unlink_cases disk cwd p with ⟨err, herr⟩ | ⟨e, -, hset, hok⟩
    · rw [herr]
      exact hshape
    · rw [hok]
      exact (set_shapeLe hset (by rintro n ⟨⟩)).trans hshape
  have hupdate : ∀ {tmp τ} (more : List UInt8), h.temp = some (tmp, τ) →
      (disk.update τ (· ++ more)).ShapeLe disk₀ := by
    intro tmp τ more htemp
    obtain ⟨-, -, data, hnode, -⟩ := hown.temp htemp
    rw [update_of_file hnode]
    exact (set_shapeLe (canSet_of_file hnode) (by rintro n ⟨⟩; rfl)).trans hshape
  cases hact with
  | idle => exact hshape
  | leave => exact hshape
  | reserve hforce hpub hentry hnode =>
    have hset := canSet_of_entry hentry (by simp [hnode])
    exact (set_shapeLe hset (by rintro n ⟨⟩; rfl)).trans hshape
  | makeTemp hfree hpub hwritten hentry hnode =>
    have hset := canSet_of_entry hentry (by simp [hnode])
    exact (set_shapeLe hset (by rintro n ⟨⟩; rfl)).trans hshape
  | write htemp data => exact hupdate data htemp
  | writeFail htemp data => exact hupdate data htemp
  | publish htemp hintact hmode hren =>
    obtain ⟨e, -, hset, hset', -, rfl⟩ := hown.publish hshape htemp hintact hren
    exact ((set_shapeLe hset' (by rintro n ⟨⟩; rfl)).trans
      (set_shapeLe hset (by rintro n ⟨⟩))).trans hshape
  | removeTemp htemp => exact hunlink _
  | forgetTemp hleak => exact hshape
  | removePlaceholder hplaceholder => exact hunlink _
  | forgetPlaceholder hleak => exact hshape

/-- **What an action can change**: the output's own temp file, or a new one where nothing
was; and its path, to reserve it where nothing was, to remove its placeholder, or to
publish it. -/
theorem Acts.frame (hact : Acts cwd path force leaks disk h disk' h')
    (hown : Own cwd disk₀ path force disk h) (hshape : disk.ShapeLe disk₀) (l : Loc) :
    disk'.node l = disk.node l
      ∨ (∃ tmp τ, l = τ.loc ∧ (h.temp = some (tmp, τ)
        ∨ (disk.node l = none ∧ h'.temp = some (tmp, τ))))
      ∨ ∃ e, l = e.loc ∧ disk₀.entry cwd path = .ok e
        ∧ ((disk.node l = none ∧ h'.placeholder = true) ∨ h.placeholder = true
          ∨ (h.published = false ∧ h'.published = true)) := by
  by_cases hl : disk'.node l = disk.node l
  · exact Or.inl hl
  · right
    cases hact with
    | idle => exact absurd rfl hl
    | leave => exact absurd rfl hl
    | @reserve e hforce hpub hentry hnode =>
      by_cases heq : l = e.loc
      · exact Or.inr ⟨e, heq, entry_of_shapeLe hshape hentry, Or.inl ⟨heq ▸ hnode, rfl⟩⟩
      · exact absurd (node_set_of_ne heq) hl
    | @makeTemp suffix τ hfree hpub hwritten hentry hnode =>
      by_cases heq : l = τ.loc
      · exact Or.inl ⟨_, τ, heq, Or.inr ⟨heq ▸ hnode, rfl⟩⟩
      · exact absurd (node_set_of_ne heq) hl
    | @write tmp τ htemp data =>
      by_cases heq : l = τ.loc
      · exact Or.inl ⟨tmp, τ, heq, Or.inl htemp⟩
      · exact absurd (node_update_of_ne heq) hl
    | @writeFail tmp τ htemp data =>
      by_cases heq : l = τ.loc
      · exact Or.inl ⟨tmp, τ, heq, Or.inl htemp⟩
      · exact absurd (node_update_of_ne heq) hl
    | @publish tmp τ _ htemp hintact hmode hren =>
      obtain ⟨e, he, -, -, -, rfl⟩ := hown.publish hshape htemp hintact hren
      have hpub : h.published = false := by
        rw [← Bool.not_eq_true]
        intro hpub
        rw [(hown.done hpub).1] at htemp
        cases htemp
      by_cases heq : l = τ.loc
      · exact Or.inl ⟨tmp, τ, heq, Or.inl htemp⟩
      · by_cases heq' : l = e.loc
        · exact Or.inr ⟨e, heq', he, Or.inr (Or.inr ⟨hpub, rfl⟩)⟩
        · exact absurd ((node_set_of_ne heq').trans (node_set_of_ne heq)) hl
    | @removeTemp tmp τ htemp =>
      rcases unlink_cases disk cwd tmp with ⟨err, herr⟩ | ⟨τ', hτ', hset, hok⟩
      · rw [herr] at hl
        exact absurd rfl hl
      · obtain rfl : τ' = τ :=
          Except.ok.inj ((entry_of_shapeLe hshape hτ').symm.trans (hown.temp htemp).1)
        by_cases heq : l = τ'.loc
        · exact Or.inl ⟨tmp, τ', heq, Or.inl htemp⟩
        · rw [hok] at hl
          exact absurd (node_set_of_ne heq) hl
    | forgetTemp hleak => exact absurd rfl hl
    | removePlaceholder hplaceholder =>
      rcases unlink_cases disk cwd path with ⟨err, herr⟩ | ⟨e, he, hset, hok⟩
      · rw [herr] at hl
        exact absurd rfl hl
      · by_cases heq : l = e.loc
        · exact Or.inr ⟨e, heq, entry_of_shapeLe hshape he, Or.inr (Or.inl hplaceholder)⟩
        · rw [hok] at hl
          exact absurd (node_set_of_ne heq) hl
    | forgetPlaceholder hleak => exact absurd rfl hl

theorem loc_ne_of_ne {e e' : Entry} (hne : e ≠ e') : e.loc ≠ e'.loc :=
  fun heq => hne (Entry.loc_inj.mp heq)

/-- `unlink` touches no entry but the one its path names. -/
theorem node_unlink_of_ne {tmp : PathName} {τ : Entry} {l : Loc} (hshape : disk.ShapeLe disk₀)
    (hτ : disk₀.entry cwd tmp = .ok τ) (hl : l ≠ τ.loc) :
    (disk.unlink cwd tmp).2.node l = disk.node l := by
  rcases unlink_cases disk cwd tmp with ⟨err, herr⟩ | ⟨τ', hτ', hset, hok⟩
  · rw [herr]
  · obtain rfl : τ' = τ := Except.ok.inj ((entry_of_shapeLe hshape hτ').symm.trans hτ)
    rw [hok, node_set_of_ne hl]

/-- Writing to the temp file leaves a placeholder alone. -/
theorem Own.update {tmp : PathName} {τ : Entry} {more : List UInt8}
    (hown : Own cwd disk₀ path force disk h) (htemp : h.temp = some (tmp, τ))
    (hwritten : h'.intact = true → h.intact = true ∧ h'.written = h.written ++ more)
    (hsame : h'.temp = h.temp ∧ h'.placeholder = h.placeholder ∧ h'.published = h.published) :
    Own cwd disk₀ path force (disk.update τ (· ++ more)) h' := by
  obtain ⟨hτ, hsuffix, data, hnode, hdata⟩ := hown.temp htemp
  rw [update_of_file hnode]
  refine ⟨?_, ?_, ?_⟩
  · intro tmp' τ' htemp'
    rw [hsame.1, htemp] at htemp'
    cases htemp'
    refine ⟨hτ, hsuffix, data ++ more, node_set_self (canSet_of_file hnode) _, fun hintact => ?_⟩
    rw [(hwritten hintact).2, hdata (hwritten hintact).1]
  · intro hplaceholder
    rw [hsame.2.1] at hplaceholder
    obtain ⟨hforce, e, he, hempty⟩ := hown.reserved hplaceholder
    refine ⟨hforce, e, he, ?_⟩
    rw [node_set_of_ne (loc_ne_of_ne (hown.temp_ne htemp he).symm)]
    exact hempty
  · rw [hsame.1, hsame.2.1, hsame.2.2]
    exact hown.done

/-- The output that acts still has what it holds. -/
theorem Acts.own (hact : Acts cwd path force leaks disk h disk' h')
    (hown : Own cwd disk₀ path force disk h) (hshape : disk.ShapeLe disk₀) :
    Own cwd disk₀ path force disk' h' := by
  cases hact with
  | idle => exact hown
  | leave =>
    refine ⟨?_, hown.reserved, hown.done⟩
    intro tmp τ htemp
    obtain ⟨hτ, hsuffix, data, hnode, -⟩ := hown.temp htemp
    exact ⟨hτ, hsuffix, data, hnode, by rintro ⟨⟩⟩
  | @reserve e hforce hpub hentry hnode =>
    have he := entry_of_shapeLe hshape hentry
    have hset := canSet_of_entry hentry (by simp [hnode])
    refine ⟨?_, fun _ => ⟨hforce, e, he, node_set_self hset _⟩, ?_⟩
    · intro tmp τ htemp
      obtain ⟨hτ, hsuffix, data, hnode', hdata⟩ := hown.temp htemp
      refine ⟨hτ, hsuffix, data, ?_, hdata⟩
      rw [node_set_of_ne (loc_ne_of_ne (hown.temp_ne htemp he))]
      exact hnode'
    · intro hdone
      rw [hpub] at hdone
      cases hdone
  | @makeTemp suffix τ hfree hpub hwritten hentry hnode =>
    have hset := canSet_of_entry hentry (by simp [hnode])
    refine ⟨?_, ?_, ?_⟩
    · rintro tmp τ' ⟨⟩
      exact ⟨entry_of_shapeLe hshape hentry, ⟨suffix, rfl⟩, [], node_set_self hset _,
        fun _ => hwritten.symm⟩
    · intro hplaceholder
      obtain ⟨hforce, e, he, hempty⟩ := hown.reserved hplaceholder
      refine ⟨hforce, e, he, ?_⟩
      rw [node_set_of_ne (by rintro heq; rw [heq, hnode] at hempty; cases hempty)]
      exact hempty
    · intro hdone
      rw [hpub] at hdone
      cases hdone
  | write htemp data => exact hown.update htemp (fun hintact => ⟨hintact, rfl⟩) ⟨rfl, rfl, rfl⟩
  | writeFail htemp data => exact hown.update htemp (by rintro ⟨⟩) ⟨rfl, rfl, rfl⟩
  | publish htemp hintact hmode hren =>
    exact ⟨by rintro tmp τ ⟨⟩, by rintro ⟨⟩, fun _ => ⟨rfl, rfl⟩⟩
  | @removeTemp tmp τ htemp =>
    refine ⟨by rintro tmp τ ⟨⟩, ?_, fun hdone => ⟨rfl, (hown.done hdone).2⟩⟩
    intro hplaceholder
    obtain ⟨hforce, e, he, hempty⟩ := hown.reserved hplaceholder
    refine ⟨hforce, e, he, ?_⟩
    have hne := loc_ne_of_ne (hown.temp_ne htemp he).symm
    rw [node_unlink_of_ne hshape (hown.temp htemp).1 hne]
    exact hempty
  | forgetTemp hleak =>
    exact ⟨by rintro tmp τ ⟨⟩, hown.reserved, fun hdone => ⟨rfl, (hown.done hdone).2⟩⟩
  | removePlaceholder hplaceholder =>
    refine ⟨?_, by rintro ⟨⟩, fun hdone => ⟨(hown.done hdone).1, rfl⟩⟩
    intro tmp τ htemp
    obtain ⟨-, e, he, -⟩ := hown.reserved hplaceholder
    obtain ⟨hτ, hsuffix, data, hnode, hdata⟩ := hown.temp htemp
    refine ⟨hτ, hsuffix, data, ?_, hdata⟩
    rw [node_unlink_of_ne hshape he (loc_ne_of_ne (hown.temp_ne htemp he))]
    exact hnode
  | forgetPlaceholder hleak =>
    exact ⟨hown.temp, by rintro ⟨⟩, fun hdone => ⟨(hown.done hdone).1, rfl⟩⟩

/-- A temp file that was not there has been made where nothing was. -/
theorem Acts.temp_made {tmp : PathName} {τ : Entry}
    (hact : Acts cwd path force leaks disk h disk' h') (htemp : h'.temp = some (tmp, τ)) :
    h.temp = some (tmp, τ) ∨ disk.node τ.loc = none := by
  cases hact with
  | makeTemp hfree hpub hwritten hentry hnode =>
    cases htemp
    exact Or.inr hnode
  | publish htemp' hintact hmode hren => cases htemp
  | removeTemp htemp' => cases htemp
  | forgetTemp hleak => cases htemp
  | _ => exact Or.inl htemp

/-- A temp file is kept or given up. -/
theorem Acts.temp_kept {tmp : PathName} {τ : Entry}
    (hact : Acts cwd path force leaks disk h disk' h') (htemp : h.temp = some (tmp, τ)) :
    h'.temp = some (tmp, τ) ∨ h'.temp = none := by
  cases hact with
  | makeTemp hfree hpub hwritten hentry hnode =>
    rw [hfree] at htemp
    cases htemp
  | publish htemp' hintact hmode hren => exact Or.inr rfl
  | removeTemp htemp' => exact Or.inr rfl
  | forgetTemp hleak => exact Or.inr rfl
  | _ => exact Or.inl htemp

/-- A path that was not reserved has been reserved where nothing was. -/
theorem Acts.placeholder_made {e : Entry} (hact : Acts cwd path force leaks disk h disk' h')
    (hshape : disk.ShapeLe disk₀) (he : disk₀.entry cwd path = .ok e)
    (hplaceholder : h'.placeholder = true) :
    h.placeholder = true ∨ disk.node e.loc = none := by
  cases hact with
  | reserve hforce hpub hentry hnode =>
    obtain rfl := Except.ok.inj (he.symm.trans (entry_of_shapeLe hshape hentry))
    exact Or.inr hnode
  | publish htemp hintact hmode hren => cases hplaceholder
  | removePlaceholder _ => cases hplaceholder
  | forgetPlaceholder hleak => cases hplaceholder
  | _ => exact Or.inl hplaceholder

/-- An output that was not published has been, by a rename. -/
theorem Acts.published_made (hact : Acts cwd path force leaks disk h disk' h')
    (hown : Own cwd disk₀ path force disk h) (hshape : disk.ShapeLe disk₀)
    (hpub : h'.published = true) :
    h.published = true
      ∨ ((force = true ∨ h.placeholder = true) ∧ ∃ e, disk₀.entry cwd path = .ok e
        ∧ disk'.node e.loc = some (.file h'.written)) := by
  cases hact with
  | publish htemp hintact hmode hren =>
    obtain ⟨e, he, hset, hset', hne, rfl⟩ := hown.publish hshape htemp hintact hren
    exact Or.inr ⟨hmode, e, he, node_set_self hset' _⟩
  | _ => exact Or.inl hpub

/-- What has been published stays published, with the same bytes. -/
theorem Acts.published_kept (hact : Acts cwd path force leaks disk h disk' h')
    (hown : Own cwd disk₀ path force disk h) (hpub : h.published = true) :
    h'.published = true ∧ h'.written = h.written := by
  cases hact with
  | write htemp data =>
    rw [(hown.done hpub).1] at htemp
    cases htemp
  | publish htemp hintact hmode hren => exact ⟨rfl, rfl⟩
  | _ => exact ⟨hpub, rfl⟩

end

/-! ## All of them together -/

/-- Something of the output shows at its path. -/
def Holding.Shown (h : Holding) : Prop := h.placeholder = true ∨ h.published = true

section

variable {ι : Type} (cwd : Loc) (disk₀ : Disk) (path : ι → PathName) (force : ι → Bool)

/-- Every output has what it holds, no two hold the same, and where one was published
there is its content, or that of another published with `--force` at the same entry. -/
structure Sound (disk : Disk) (h : ι → Holding) : Prop where
  shape : disk.ShapeLe disk₀
  own : ∀ i, Own cwd disk₀ (path i) (force i) disk (h i)
  fresh : ∀ {i j tmp τ e}, (h i).temp = some (tmp, τ) → (h j).Shown →
    disk₀.entry cwd (path j) = .ok e → τ ≠ e
  temp_apart : ∀ {i j tmp tmp' τ}, i ≠ j → (h i).temp = some (tmp, τ) →
    (h j).temp ≠ some (tmp', τ)
  apart : ∀ {i j e}, i ≠ j → (h i).placeholder = true → (h j).Shown →
    disk₀.entry cwd (path i) = .ok e → disk₀.entry cwd (path j) ≠ .ok e
  published : ∀ {i}, (h i).published = true →
    ∃ e k, disk₀.entry cwd (path i) = .ok e ∧ disk₀.entry cwd (path k) = .ok e
      ∧ (k = i ∨ force k = true) ∧ (h k).published = true
      ∧ disk.node e.loc = some (.file (h k).written)

/-- No other output has a placeholder or a temp file at the entry `i` is renamed onto. -/
def RenameClear (h : ι → Holding) (i : ι) : Prop :=
  ∀ e, disk₀.entry cwd (path i) = .ok e → ∀ j, j ≠ i →
    ((h j).placeholder = true → disk₀.entry cwd (path j) ≠ .ok e)
      ∧ ∀ tmp τ, (h j).temp = some (tmp, τ) → τ ≠ e

end

section

variable {ι : Type} {cwd : Loc} {disk₀ disk disk' : Disk} {path : ι → PathName}
  {force : ι → Bool} {leaks : Prop} {h : ι → Holding} {i : ι} {h' : Holding}

/-- Nothing is held yet. -/
theorem sound_start (h : ι → Holding)
    (hnone : ∀ i, (h i).placeholder = false ∧ (h i).temp = none ∧ (h i).published = false) :
    Sound cwd disk₀ path force disk₀ h := by
  refine ⟨Keeps.refl _, fun i => ⟨?_, ?_, ?_⟩, ?_, ?_, ?_, ?_⟩
  · intro tmp τ htemp
    rw [(hnone i).2.1] at htemp
    cases htemp
  · intro hp
    rw [(hnone i).1] at hp
    cases hp
  · intro hpub
    rw [(hnone i).2.2] at hpub
    cases hpub
  · intro i j tmp τ e htemp
    rw [(hnone i).2.1] at htemp
    cases htemp
  · intro i j tmp tmp' τ _ htemp
    rw [(hnone i).2.1] at htemp
    cases htemp
  · intro i j e _ hp
    rw [(hnone i).1] at hp
    cases hp
  · intro i hpub
    rw [(hnone i).2.2] at hpub
    cases hpub

theorem Sound.node_of_temp (hs : Sound cwd disk₀ path force disk h) {tmp : PathName} {τ : Entry}
    (htemp : (h i).temp = some (tmp, τ)) : disk.node τ.loc ≠ none := by
  obtain ⟨-, -, data, hdata, -⟩ := (hs.own i).temp htemp
  rw [hdata]
  simp

theorem Sound.node_of_shown (hs : Sound cwd disk₀ path force disk h) {e : Entry}
    (hshown : (h i).Shown) (he : disk₀.entry cwd (path i) = .ok e) : disk.node e.loc ≠ none := by
  rcases hshown with hp | hpub
  · obtain ⟨-, e', he', hempty⟩ := (hs.own i).reserved hp
    obtain rfl : e' = e := Except.ok.inj (he'.symm.trans he)
    rw [hempty]
    simp
  · obtain ⟨e', k, he', -, -, -, hdata⟩ := hs.published hpub
    obtain rfl : e' = e := Except.ok.inj (he'.symm.trans he)
    rw [hdata]
    simp

/-- What others hold is not touched. -/
theorem Sound.node_of_held (hs : Sound cwd disk₀ path force disk h)
    (hact : Acts cwd (path i) (force i) leaks disk (h i) disk' h') {l : Loc}
    (hnode : disk.node l ≠ none)
    (htemp : ∀ tmp τ, (h i).temp = some (tmp, τ) → l ≠ τ.loc)
    (hentry : ∀ e, disk₀.entry cwd (path i) = .ok e → (h i).placeholder = true
      ∨ ((h i).published = false ∧ h'.published = true) → l ≠ e.loc) :
    disk'.node l = disk.node l := by
  rcases hact.frame (hs.own i) hs.shape l with hsame | ⟨tmp, τ, rfl, htemp' | ⟨hnone, -⟩⟩
    | ⟨e, rfl, he, ⟨hnone, -⟩ | hheld⟩
  · exact hsame
  · exact absurd rfl (htemp tmp τ htemp')
  · exact absurd hnone hnode
  · exact absurd hnone hnode
  · exact absurd rfl (hentry e he hheld)

/-- The temp file of another output is not touched. -/
theorem Sound.temp_kept (hs : Sound cwd disk₀ path force disk h)
    (hact : Acts cwd (path i) (force i) leaks disk (h i) disk' h')
    (hclear : (h i).published = false → h'.published = true → RenameClear cwd disk₀ path h i)
    {j : ι} {tmp : PathName} {τ : Entry} (hj : j ≠ i) (hτ : (h j).temp = some (tmp, τ)) :
    disk'.node τ.loc = disk.node τ.loc := by
  refine hs.node_of_held hact (hs.node_of_temp hτ) ?_ ?_
  · rintro tmp' τ' hτ' hloc
    obtain rfl := Entry.loc_inj.mp hloc
    exact hs.temp_apart hj hτ hτ'
  · rintro e he hheld hloc
    rcases hheld with hp | ⟨hold, hnew⟩
    · exact hs.fresh hτ (Or.inl hp) he (Entry.loc_inj.mp hloc)
    · exact (hclear hold hnew e he j hj).2 tmp τ hτ (Entry.loc_inj.mp hloc)

/-- Nor is its placeholder. -/
theorem Sound.placeholder_kept (hs : Sound cwd disk₀ path force disk h)
    (hact : Acts cwd (path i) (force i) leaks disk (h i) disk' h')
    (hclear : (h i).published = false → h'.published = true → RenameClear cwd disk₀ path h i)
    {j : ι} {e : Entry} (hj : j ≠ i) (hp : (h j).placeholder = true)
    (he : disk₀.entry cwd (path j) = .ok e) : disk'.node e.loc = disk.node e.loc := by
  refine hs.node_of_held hact (hs.node_of_shown (Or.inl hp) he) ?_ ?_
  · rintro tmp τ hτ hloc
    exact hs.fresh hτ (Or.inl hp) he (Entry.loc_inj.mp hloc).symm
  · rintro e' he' hheld hloc
    obtain rfl := Entry.loc_inj.mp hloc
    rcases hheld with hp' | ⟨hold, hnew⟩
    · exact hs.apart hj hp (Or.inl hp') he he'
    · exact (hclear hold hnew e he' j hj).1 hp he

/-- Where an output was published, the node stays unless the action is a rename onto it. -/
theorem Sound.published_kept (hs : Sound cwd disk₀ path force disk h)
    (hact : Acts cwd (path i) (force i) leaks disk (h i) disk' h') {j : ι} {e : Entry}
    (hpub : (h j).published = true) (he : disk₀.entry cwd (path j) = .ok e)
    (hnot : ¬((h i).published = false ∧ h'.published = true
      ∧ disk₀.entry cwd (path i) = .ok e)) : disk'.node e.loc = disk.node e.loc := by
  refine hs.node_of_held hact (hs.node_of_shown (Or.inr hpub) he) ?_ ?_
  · rintro tmp τ hτ hloc
    exact hs.fresh hτ (Or.inr hpub) he (Entry.loc_inj.mp hloc).symm
  · rintro e' he' hheld hloc
    obtain rfl := Entry.loc_inj.mp hloc
    rcases hheld with hp | ⟨hold, hnew⟩
    · by_cases hj : i = j
      · subst hj
        rw [((hs.own i).done hpub).2] at hp
        cases hp
      · exact hs.apart hj hp (Or.inr hpub) he' he
    · exact hnot ⟨hold, hnew, he'⟩

/-- What newly shows at a path was reserved where nothing was, or renamed there. -/
theorem Sound.shown_made (hs : Sound cwd disk₀ path force disk h)
    (hact : Acts cwd (path i) (force i) leaks disk (h i) disk' h') {e : Entry}
    (he : disk₀.entry cwd (path i) = .ok e) (hshown : h'.Shown) :
    (h i).Shown ∨ disk.node e.loc = none ∨ ((h i).published = false ∧ h'.published = true) := by
  rcases hshown with hp | hpub
  · rcases hact.placeholder_made hs.shape he hp with hold | hnone
    · exact Or.inl (Or.inl hold)
    · exact Or.inr (Or.inl hnone)
  · by_cases hold : (h i).published = true
    · exact Or.inl (Or.inr hold)
    · exact Or.inr (Or.inr ⟨Bool.not_eq_true _ ▸ hold, hpub⟩)

variable [DecidableEq ι]

theorem Sound.own_acts (hs : Sound cwd disk₀ path force disk h)
    (hact : Acts cwd (path i) (force i) leaks disk (h i) disk' h')
    (hclear : (h i).published = false → h'.published = true → RenameClear cwd disk₀ path h i)
    (j : ι) : Own cwd disk₀ (path j) (force j) disk' (Function.update h i h' j) := by
  by_cases hj : j = i
  · subst hj
    rw [Function.update_self]
    exact hact.own (hs.own j) hs.shape
  · rw [Function.update_of_ne hj]
    refine ⟨?_, ?_, (hs.own j).done⟩
    · intro tmp τ hτ
      rw [hs.temp_kept hact hclear hj hτ]
      exact (hs.own j).temp hτ
    · intro hp
      obtain ⟨hforce, e, he, hempty⟩ := (hs.own j).reserved hp
      exact ⟨hforce, e, he, (hs.placeholder_kept hact hclear hj hp he).trans hempty⟩

theorem Sound.fresh_acts (hs : Sound cwd disk₀ path force disk h)
    (hact : Acts cwd (path i) (force i) leaks disk (h i) disk' h')
    (hclear : (h i).published = false → h'.published = true → RenameClear cwd disk₀ path h i)
    {j k : ι} {tmp : PathName} {τ e : Entry}
    (hτ : (Function.update h i h' j).temp = some (tmp, τ))
    (hshown : (Function.update h i h' k).Shown) (he : disk₀.entry cwd (path k) = .ok e) :
    τ ≠ e := by
  by_cases hj : j = i
  · subst hj
    by_cases hk : k = j
    · subst hk
      exact (hs.own_acts hact hclear k).temp_ne hτ he
    · rw [Function.update_self] at hτ
      rw [Function.update_of_ne hk] at hshown
      rcases hact.temp_made hτ with hold | hnone
      · exact hs.fresh hold hshown he
      · rintro rfl
        exact hs.node_of_shown hshown he hnone
  · rw [Function.update_of_ne hj] at hτ
    by_cases hk : k = i
    · subst hk
      rw [Function.update_self] at hshown
      rcases hs.shown_made hact he hshown with hold | hnone | ⟨hold, hnew⟩
      · exact hs.fresh hτ hold he
      · rintro rfl
        exact hs.node_of_temp hτ hnone
      · exact (hclear hold hnew e he j hj).2 tmp τ hτ
    · rw [Function.update_of_ne hk] at hshown
      exact hs.fresh hτ hshown he

theorem Sound.temp_apart_acts (hs : Sound cwd disk₀ path force disk h)
    (hact : Acts cwd (path i) (force i) leaks disk (h i) disk' h') {j k : ι}
    {tmp tmp' : PathName} {τ : Entry} (hjk : j ≠ k)
    (hτ : (Function.update h i h' j).temp = some (tmp, τ)) :
    (Function.update h i h' k).temp ≠ some (tmp', τ) := by
  -- a temp file is made where nothing was, so not where another's is
  have hmade : ∀ {j tmp tmp' τ}, j ≠ i → h'.temp = some (tmp, τ) →
      (h j).temp ≠ some (tmp', τ) := by
    intro j tmp tmp' τ hj hτ hτ'
    rcases hact.temp_made hτ with hold | hnone
    · exact hs.temp_apart (Ne.symm hj) hold hτ'
    · exact hs.node_of_temp hτ' hnone
  intro hτ'
  by_cases hj : j = i
  · subst hj
    rw [Function.update_self] at hτ
    rw [Function.update_of_ne (Ne.symm hjk)] at hτ'
    exact hmade (Ne.symm hjk) hτ hτ'
  · rw [Function.update_of_ne hj] at hτ
    by_cases hk : k = i
    · subst hk
      rw [Function.update_self] at hτ'
      exact hmade hj hτ' hτ
    · rw [Function.update_of_ne hk] at hτ'
      exact hs.temp_apart hjk hτ hτ'

theorem Sound.apart_acts (hs : Sound cwd disk₀ path force disk h)
    (hact : Acts cwd (path i) (force i) leaks disk (h i) disk' h')
    (hclear : (h i).published = false → h'.published = true → RenameClear cwd disk₀ path h i)
    {j k : ι} {e : Entry} (hjk : j ≠ k) (hp : (Function.update h i h' j).placeholder = true)
    (hshown : (Function.update h i h' k).Shown) (he : disk₀.entry cwd (path j) = .ok e) :
    disk₀.entry cwd (path k) ≠ .ok e := by
  intro he'
  by_cases hj : j = i
  · subst hj
    rw [Function.update_self] at hp
    rw [Function.update_of_ne (Ne.symm hjk)] at hshown
    -- reserved where nothing was, so nothing of another shows there
    rcases hact.placeholder_made hs.shape he hp with hold | hnone
    · exact hs.apart hjk hold hshown he he'
    · exact hs.node_of_shown hshown he' hnone
  · rw [Function.update_of_ne hj] at hp
    by_cases hk : k = i
    · subst hk
      rw [Function.update_self] at hshown
      rcases hs.shown_made hact he' hshown with hold | hnone | ⟨hold, hnew⟩
      · exact hs.apart hjk hp hold he he'
      · exact hs.node_of_shown (Or.inl hp) he hnone
      · exact (hclear hold hnew e he' j hj).1 hp he
    · rw [Function.update_of_ne hk] at hshown
      exact hs.apart hjk hp hshown he he'

theorem Sound.published_acts (hs : Sound cwd disk₀ path force disk h)
    (hact : Acts cwd (path i) (force i) leaks disk (h i) disk' h') {j : ι}
    (hpub : (Function.update h i h' j).published = true) :
    ∃ e k, disk₀.entry cwd (path j) = .ok e ∧ disk₀.entry cwd (path k) = .ok e
      ∧ (k = j ∨ force k = true) ∧ (Function.update h i h' k).published = true
      ∧ disk'.node e.loc = some (.file (Function.update h i h' k).written) := by
  by_cases hnew : (h i).published = false ∧ h'.published = true ∧
      ∃ e, disk₀.entry cwd (path j) = .ok e ∧ disk₀.entry cwd (path i) = .ok e
  · -- the act is a rename onto this entry
    obtain ⟨hold, hpub', e, he, he'⟩ := hnew
    rcases hact.published_made (hs.own i) hs.shape hpub' with hpub'' | ⟨hmode, e', he'', hdata⟩
    · rw [hold] at hpub''
      cases hpub''
    · obtain rfl : e' = e := Except.ok.inj (he''.symm.trans he')
      refine ⟨e', i, he, he', ?_, ?_, ?_⟩
      · by_cases hj : i = j
        · exact Or.inl hj
        · rw [Function.update_of_ne (Ne.symm hj)] at hpub
          rcases hmode with hforce | hp
          · exact Or.inr hforce
          · exact absurd he (hs.apart hj hp (Or.inr hpub) he')
      · rw [Function.update_self]
        exact hpub'
      · rw [Function.update_self]
        exact hdata
  · have hpub₀ : (h j).published = true := by
      by_cases hj : j = i
      · subst hj
        rw [Function.update_self] at hpub
        rcases hact.published_made (hs.own j) hs.shape hpub with hold | ⟨-, e, he, -⟩
        · exact hold
        · by_contra hold
          exact hnew ⟨Bool.not_eq_true _ ▸ hold, hpub, e, he, he⟩
      · rw [Function.update_of_ne hj] at hpub
        exact hpub
    obtain ⟨e, k, he, hk, hmode, hkpub, hdata⟩ := hs.published hpub₀
    have hkeep : disk'.node e.loc = disk.node e.loc :=
      hs.published_kept hact hpub₀ he fun hren => hnew ⟨hren.1, hren.2.1, e, he, hren.2.2⟩
    have hwritten : (Function.update h i h' k).published = true
        ∧ (Function.update h i h' k).written = (h k).written := by
      by_cases hki : k = i
      · subst hki
        rw [Function.update_self]
        exact hact.published_kept (hs.own k) hkpub
      · rw [Function.update_of_ne hki]
        exact ⟨hkpub, rfl⟩
    exact ⟨e, k, he, hk, hmode, hwritten.1, by rw [hwritten.2, hkeep, hdata]⟩

/-- **An action of one output keeps all of them sound**, unless it is a rename onto
another's placeholder or temp file. -/
theorem Sound.acts (hs : Sound cwd disk₀ path force disk h)
    (hact : Acts cwd (path i) (force i) leaks disk (h i) disk' h')
    (hclear : (h i).published = false → h'.published = true → RenameClear cwd disk₀ path h i) :
    Sound cwd disk₀ path force disk' (Function.update h i h') where
  shape := hact.shape (hs.own i) hs.shape
  own := hs.own_acts hact hclear
  fresh := hs.fresh_acts hact hclear
  temp_apart := hs.temp_apart_acts hact
  apart := hs.apart_acts hact hclear
  published := hs.published_acts hact

end

end UaCrypt.Cli
