import UaCrypt.Cli.OutputFile

/-!
# Outputs are all or nothing

What one output does to the disk, from `create` to the end of its life, whichever calls
fail on the way. The disk is always the one before `create` with at most two entries on
top: the placeholder and the temp file (`Inv`).

- `Moves.inv`: every step keeps that.
- `outputFile_all_or_nothing`: a committed output is there and is the only change; in
  every other end the disk is as it was; and in between nothing partial shows.
-/

namespace UaCrypt.Cli

open FileTree FileTree.Files

/-- One output and the system it lives in. -/
structure State where
  disk : Disk
  cleanup : Cleanup
  life : Life

def State.next (cwd : Loc) (s : State) (choice : Choice) : State :=
  let (disk, cleanup, life) := step cwd s.disk s.cleanup s.life choice
  ⟨disk, cleanup, life⟩

/-- The removals of `Drop` do not fail. -/
def RemovalSucceeds (s : State) : Choice → Prop
  | .call fault _ =>
    match s.life.point with
    | .dropping _ => fault = none
    | .tempRemoved _ => fault = none
    | _ => True
  | _ => True

/-- `s'` is reached from `s` by steps at which `P` holds. -/
def Run (cwd : Loc) (P : State → Choice → Prop) : State → State → Prop :=
  Relation.ReflTransGen fun s s' => ∃ choice, P s choice ∧ s' = s.next cwd choice

/-- No system call of the step fails. -/
def Choice.faultless : Choice → Bool
  | .call fault _ => fault.isNone
  | .write _ fault => fault.isNone
  | .commit fault => fault.isNone
  | _ => true

theorem removalSucceeds_of_faultless {s : State} {choice : Choice}
    (h : choice.faultless = true) : RemovalSucceeds s choice := by
  cases choice with
  | call fault readFault =>
    have hfault : fault = none := Option.isNone_iff_eq_none.mp h
    rw [RemovalSucceeds]
    split
    · exact hfault
    · exact hfault
    · trivial
  | _ => trivial

theorem run_foldl (cwd : Loc) (s : State) {choices : List Choice}
    (h : choices.all Choice.faultless = true) :
    Run cwd RemovalSucceeds s (choices.foldl (State.next cwd) s) := by
  induction choices generalizing s with
  | nil => exact .refl
  | cons choice rest ih =>
    rw [List.all_cons, Bool.and_eq_true] at h
    exact .head ⟨choice, removalSucceeds_of_faultless h.1, rfl⟩ (ih _ h.2)

/-! ## The temp name -/

theorem getLast?_tempPathBeside (path : PathName) (suffix : Vector UInt8 8) :
    (tempPathBeside path suffix).getLast? = some (path.getLast?.getD "" ++ tempSuffix suffix) := by
  rw [tempPathBeside, List.getLast?_concat]

theorem append_tempSuffix_ne (name : String) (suffix : Vector UInt8 8) :
    name ++ tempSuffix suffix ≠ name := by
  intro h
  have hlen := congrArg String.length h
  rw [String.length_append, tempSuffix, String.length_append] at hlen
  have hpos : (".uacrypt-tmp-" : String).length = 13 := by decide
  omega

/-- The temp file is never at the output's own entry. -/
theorem entry_tempPathBeside_ne {cwd : Loc} {disk disk' : Disk} {path : PathName}
    {suffix : Vector UInt8 8} {e τ : Entry} (he : disk.entry cwd path = .ok e)
    (hτ : disk'.entry cwd (tempPathBeside path suffix) = .ok τ) : τ ≠ e := by
  rintro rfl
  have hname := (entry_eq_ok_iff.mp he).1
  have hname' := (entry_eq_ok_iff.mp hτ).1
  rw [getLast?_tempPathBeside, hname, Option.getD_some, Option.some.injEq] at hname'
  exact append_tempSuffix_ne _ _ hname'

/-! ## What is on the disk -/

section

variable (cwd : Loc) (disk₀ : Disk)

/-- The placeholder of `life`, if it has one, is all `disk` has on top of `disk₀`. -/
def Reserved (life : Life) (disk : Disk) : Prop :=
  if life.output.placeholder then
    ∃ e, disk₀.entry cwd life.output.path = .ok e ∧ disk₀.node e.loc = none
      ∧ disk = disk₀.set e (some (.file []))
  else disk = disk₀

/-- On top of that there is the temp file, holding `data`. -/
def HasTemp (life : Life) (tmp : PathName) (data : List UInt8) (disk : Disk) : Prop :=
  ∃ disk₁ τ suffix, Reserved cwd disk₀ life disk₁ ∧ tmp = tempPathBeside life.output.path suffix
    ∧ life.file = some τ ∧ disk₁.entry cwd tmp = .ok τ ∧ disk₁.node τ.loc = none
    ∧ disk = disk₁.set τ (some (.file data))

/-- The checks of `create` went through. -/
def Passed (life : Life) : Prop :=
  life.output.committed = false
    ∧ if life.force then life.output.placeholder = false
        ∧ refuseKeyFile cwd none disk₀ life.output.path = .ok ()
      else life.output.placeholder = true

/-- The output is at its path, and nothing else has changed. -/
def Published (life : Life) (disk : Disk) : Prop :=
  ∃ e, disk₀.entry cwd life.output.path = .ok e ∧ disk₀.CanSet e
    ∧ (if life.force then refuseKeyFile cwd none disk₀ life.output.path = .ok ()
      else disk₀.node e.loc = none)
    ∧ disk = disk₀.set e (some (.file life.written))

/-- What holds in every state of a life. -/
def Inv (s : State) : Prop :=
  match s.life.point with
  | .create => s.disk = disk₀ ∧ s.life.output.placeholder = false ∧ s.life.output.tmpPath = none
    ∧ s.life.output.committed = false ∧ s.life.written = []
  | .reserved => Reserved cwd disk₀ s.life s.disk ∧ Passed cwd disk₀ s.life
    ∧ s.life.output.tmpPath = none ∧ s.life.written = []
  | .drawName => Reserved cwd disk₀ s.life s.disk ∧ Passed cwd disk₀ s.life
    ∧ s.life.output.tmpPath = none ∧ s.life.written = []
  | .makeTemp tmp => Reserved cwd disk₀ s.life s.disk ∧ Passed cwd disk₀ s.life
    ∧ s.life.output.tmpPath = none ∧ s.life.written = []
    ∧ ∃ suffix, tmp = tempPathBeside s.life.output.path suffix
  | .tempMade tmp => HasTemp cwd disk₀ s.life tmp [] s.disk ∧ Passed cwd disk₀ s.life
    ∧ s.life.written = []
  | .renamed (.ok ()) => s.life.output.committed = false ∧ Published cwd disk₀ s.life s.disk
  | .dropping _ => s.life.output.committed = false
    ∧ match s.life.output.tmpPath with
      | none => Reserved cwd disk₀ s.life s.disk
      | some tmp => ∃ data, HasTemp cwd disk₀ s.life tmp data s.disk
  | .tempRemoved _ => s.life.output.committed = false ∧ Reserved cwd disk₀ s.life s.disk
  | .releasing result | .releasingTemp result | .finished result =>
    (s.life.output.committed = true ∧ result = none ∧ Published cwd disk₀ s.life s.disk)
      ∨ (s.life.output.committed = false ∧ s.disk = disk₀)
  | .opened | .synced | .holding | .held | .renamed (.error _) =>
    ∃ tmp, s.life.output.tmpPath = some tmp
      ∧ HasTemp cwd disk₀ s.life tmp s.life.written s.disk ∧ Passed cwd disk₀ s.life

end

section

variable {cwd : Loc} {disk₀ : Disk} {life : Life} {disk : Disk}

theorem Reserved.canSet {e : Entry} (he : disk₀.entry cwd life.output.path = .ok e)
    (hnode : disk₀.node e.loc = none) : disk₀.CanSet e := canSet_of_entry he (by simp [hnode])

/-- Reserving a path keeps directories and links as they are. -/
theorem Reserved.shape (h : Reserved cwd disk₀ life disk) :
    disk₀.ShapeLe disk ∧ disk.ShapeLe disk₀ := by
  rw [Reserved] at h
  split at h
  · obtain ⟨e, he, hnode, rfl⟩ := h
    have hset := Reserved.canSet he hnode
    refine ⟨shapeLe_set hset (by simp [hnode]) _, set_shapeLe hset ?_⟩
    rintro n ⟨⟩
    rfl
  · rw [h]
    exact ⟨Keeps.refl _, Keeps.refl _⟩

/-- Removing the placeholder. -/
theorem Reserved.remove (h : Reserved cwd disk₀ life disk) :
    (if life.output.placeholder then removeFile cwd none disk life.output.path else disk)
      = disk₀ := by
  have hshape := h.shape
  rw [Reserved] at h
  split at h
  · obtain ⟨e, he, hnode, rfl⟩ := h
    have hset := Reserved.canSet he hnode
    have hentry := entry_of_shapeLe hshape.1 he
    rw [if_pos ‹_›, removeFile, unlink_of_file hentry (node_set_self hset _)]
    rw [set_set hset _ _ (by simp), ← hnode, set_node]
  · rw [if_neg ‹_›]
    exact h

theorem HasTemp.temp_canSet {disk₁ : Disk} {tmp : PathName} {τ : Entry}
    (hτ : disk₁.entry cwd tmp = .ok τ) (hnode : disk₁.node τ.loc = none) : disk₁.CanSet τ :=
  canSet_of_entry hτ (by simp [hnode])

/-- Removing the temp file. -/
theorem HasTemp.remove {tmp : PathName} {data : List UInt8}
    (h : HasTemp cwd disk₀ life tmp data disk) :
    Reserved cwd disk₀ life (removeFile cwd none disk tmp) := by
  obtain ⟨disk₁, τ, suffix, hres, -, -, hτ, hnode, rfl⟩ := h
  have hset := HasTemp.temp_canSet hτ hnode
  have hentry := entry_of_shapeLe (shapeLe_set hset (by simp [hnode]) (some (.file data))) hτ
  rw [removeFile, unlink_of_file hentry (node_set_self hset _), set_set hset _ _ (by simp),
    ← hnode, set_node]
  exact hres

/-- Writing to the temp file. -/
theorem HasTemp.update {tmp : PathName} {data : List UInt8} {e : Entry}
    (h : HasTemp cwd disk₀ life tmp data disk) (hfile : life.file = some e) (more : List UInt8) :
    HasTemp cwd disk₀ life tmp (data ++ more) (disk.update e (· ++ more)) := by
  obtain ⟨disk₁, τ, suffix, hres, htmp, hfile', hτ, hnode, rfl⟩ := h
  obtain rfl : τ = e := Option.some.inj (hfile'.symm.trans hfile)
  have hset := HasTemp.temp_canSet hτ hnode
  refine ⟨disk₁, τ, suffix, hres, htmp, hfile', hτ, hnode, ?_⟩
  rw [update_of_file (node_set_self hset _), set_set hset _ _ (by simp)]

/-- The rename: it fails and changes nothing, or the output is published. -/
theorem HasTemp.rename {tmp : PathName} {data : List UInt8}
    (h : HasTemp cwd disk₀ life tmp data disk) :
    (∃ err, disk.rename cwd tmp life.output.path = (.error err, disk))
      ∨ ∃ e, disk₀.entry cwd life.output.path = .ok e ∧ disk₀.CanSet e
        ∧ disk.rename cwd tmp life.output.path = (.ok (), disk₀.set e (some (.file data))) := by
  obtain ⟨disk₁, τ, suffix, hres, rfl, -, hτ, hnode, rfl⟩ := h
  have hset := HasTemp.temp_canSet hτ hnode
  have hentry := entry_of_shapeLe (shapeLe_set hset (by simp [hnode]) (some (.file data))) hτ
  rcases rename_cases hentry (node_set_self hset _) life.output.path with herr | ⟨e, he, hdir, hok⟩
  · exact Or.inl herr
  · right
    -- the entry is the one the path named before `create`
    have he₁ : disk₁.entry cwd life.output.path = .ok e :=
      entry_of_shapeLe (set_shapeLe hset (by rintro n ⟨⟩; rfl)) he
    have he₀ := entry_of_shapeLe hres.shape.2 he₁
    have hne : τ ≠ e := entry_tempPathBeside_ne he₀ hτ
    have hloc : e.loc ≠ τ.loc := fun heq => hne (Entry.loc_inj.mp heq.symm)
    rw [node_set_of_ne hloc] at hdir
    rw [if_neg hne, set_set hset _ _ (by simp), ← hnode, set_node] at hok
    rw [Reserved] at hres
    split at hres
    · obtain ⟨e', he', hnode', rfl⟩ := hres
      obtain rfl : e' = e := Except.ok.inj (he'.symm.trans he₀)
      have hset' := Reserved.canSet he' hnode'
      exact ⟨e', he', hset', by rw [hok, set_set hset' _ _ (by simp)]⟩
    · subst hres
      exact ⟨e, he₀, canSet_of_entry he₀ hdir, hok⟩

/-- A rename that goes through publishes the output. -/
theorem HasTemp.published {tmp : PathName} {disk' : Disk}
    (h : HasTemp cwd disk₀ life tmp life.written disk) (hpassed : Passed cwd disk₀ life)
    (hren : disk.rename cwd tmp life.output.path = (.ok (), disk')) :
    Published cwd disk₀ life disk' := by
  rcases h.rename with ⟨err, herr⟩ | ⟨e, he, hset, hok⟩
  · rw [hren] at herr
    cases herr
  · rw [hren] at hok
    cases hok
    refine ⟨e, he, hset, ?_, rfl⟩
    have hmode := hpassed.2
    split at hmode
    · rw [if_pos ‹_›]
      exact hmode.2
    · rw [if_neg ‹_›]
      obtain ⟨disk₁, τ, suffix, hres, -⟩ := h
      rw [Reserved, if_pos hmode] at hres
      obtain ⟨e', he', hnode', -⟩ := hres
      obtain rfl : e' = e := Except.ok.inj (he'.symm.trans he)
      exact hnode'

/-- **One step keeps the invariant.** -/
theorem Moves.inv {c c' : Cleanup} {disk' : Disk} {life' : Life} {choice : Choice}
    (hmove : Moves cwd choice disk c life disk' c' life')
    (hremove : RemovalSucceeds ⟨disk, c, life⟩ choice) (hinv : Inv cwd disk₀ ⟨disk, c, life⟩) :
    Inv cwd disk₀ ⟨disk', c', life'⟩ := by
  cases hmove with
  | stay => exact hinv
  | refuse hpoint e =>
    simp only [Inv, hpoint] at hinv ⊢
    obtain ⟨rfl, hplaceholder, htmp, hcommitted, -⟩ := hinv
    refine ⟨hcommitted, ?_⟩
    rw [htmp, Reserved]
    simp [hplaceholder]
  | pass hpoint hforce hcheck =>
    simp only [Inv, hpoint] at hinv ⊢
    obtain ⟨rfl, hplaceholder, htmp, hcommitted, hwritten⟩ := hinv
    refine ⟨?_, ⟨hcommitted, ?_⟩, htmp, hwritten⟩
    · simp [Reserved, hplaceholder]
    · rw [if_pos hforce]
      exact ⟨hplaceholder, hcheck⟩
  | reserve hpoint hforce hentry hnode =>
    simp only [Inv, hpoint] at hinv ⊢
    obtain ⟨rfl, -, htmp, hcommitted, hwritten⟩ := hinv
    refine ⟨?_, ⟨hcommitted, ?_⟩, htmp, hwritten⟩
    · rw [Reserved, if_pos rfl]
      exact ⟨_, hentry, hnode, rfl⟩
    · simp [hforce]
  | register hpoint =>
    simp only [Inv, hpoint] at hinv ⊢
    exact hinv
  | drawFail hpoint e =>
    simp only [Inv, hpoint] at hinv ⊢
    obtain ⟨hres, hpassed, htmp, -⟩ := hinv
    rw [htmp]
    exact ⟨hpassed.1, hres⟩
  | draw hpoint suffix _ =>
    simp only [Inv, hpoint] at hinv ⊢
    obtain ⟨hres, hpassed, htmp, hwritten⟩ := hinv
    exact ⟨hres, hpassed, htmp, hwritten, suffix, rfl⟩
  | tempFail hpoint e =>
    simp only [Inv, hpoint] at hinv ⊢
    obtain ⟨hres, hpassed, htmp, -⟩ := hinv
    rw [htmp]
    exact ⟨hpassed.1, hres⟩
  | makeTemp hpoint hentry hnode =>
    simp only [Inv, hpoint] at hinv ⊢
    obtain ⟨hres, hpassed, -, hwritten, suffix, htmp⟩ := hinv
    exact ⟨⟨disk, _, suffix, hres, htmp, rfl, hentry, hnode, rfl⟩, hpassed, hwritten⟩
  | registerTemp hpoint =>
    simp only [Inv, hpoint] at hinv ⊢
    obtain ⟨htemp, hpassed, hwritten⟩ := hinv
    rw [hwritten]
    exact ⟨_, rfl, htemp, hpassed⟩
  | write hpoint hfile data =>
    simp only [Inv, hpoint] at hinv ⊢
    obtain ⟨tmp, htmp, htemp, hpassed⟩ := hinv
    exact ⟨tmp, htmp, htemp.update hfile data, hpassed⟩
  | writeFail hpoint hfile data e =>
    simp only [Inv, hpoint] at hinv ⊢
    obtain ⟨tmp, htmp, htemp, hpassed⟩ := hinv
    rw [htmp]
    exact ⟨hpassed.1, _, htemp.update hfile data⟩
  | sync hpoint =>
    simp only [Inv, hpoint] at hinv ⊢
    exact hinv
  | leave hpoint reason =>
    simp only [Inv, hpoint] at hinv ⊢
    obtain ⟨tmp, htmp, htemp, hpassed⟩ := hinv
    rw [htmp]
    exact ⟨hpassed.1, _, htemp⟩
  | block hpoint =>
    simp only [Inv, hpoint] at hinv ⊢
    exact hinv
  | unguard hpoint =>
    simp only [Inv, hpoint] at hinv ⊢
    exact hinv
  | renameNothing hpoint htmp =>
    simp only [Inv, hpoint] at hinv
    obtain ⟨tmp, htmp', -⟩ := hinv
    rw [htmp] at htmp'
    cases htmp'
  | renameFail hpoint e =>
    simp only [Inv, hpoint] at hinv ⊢
    exact hinv
  | rename hpoint htmp _ hren =>
    simp only [Inv, hpoint] at hinv ⊢
    obtain ⟨tmp, htmp', htemp, hpassed⟩ := hinv
    obtain rfl := Option.some.inj (htmp.symm.trans htmp')
    exact ⟨hpassed.1, htemp.published hpassed hren⟩
  | publish hpoint =>
    simp only [Inv, hpoint] at hinv ⊢
    exact Or.inl ⟨trivial, trivial, hinv.2⟩
  | unpublish hpoint =>
    simp only [Inv, hpoint] at hinv ⊢
    obtain ⟨tmp, htmp, htemp, hpassed⟩ := hinv
    rw [htmp]
    exact ⟨hpassed.1, _, htemp⟩
  | removeTemp hpoint htmp =>
    simp only [Inv, hpoint, htmp] at hinv ⊢
    obtain ⟨hcommitted, data, htemp⟩ := hinv
    exact ⟨hcommitted, htemp.remove⟩
  | skipTemp hpoint hskip =>
    simp only [Inv, hpoint] at hinv ⊢
    rcases hskip with htmp | ⟨err, readFault, rfl⟩
    · rw [htmp] at hinv
      exact hinv
    · simp only [RemovalSucceeds, hpoint] at hremove
      cases hremove
  | removePlaceholder hpoint hplaceholder =>
    simp only [Inv, hpoint] at hinv ⊢
    have hdisk := hinv.2.remove
    rw [if_pos hplaceholder] at hdisk
    exact Or.inr ⟨hinv.1, hdisk⟩
  | skipPlaceholder hpoint hskip =>
    simp only [Inv, hpoint] at hinv ⊢
    rcases hskip with hplaceholder | ⟨err, readFault, rfl⟩
    · have hdisk := hinv.2.remove
      rw [hplaceholder] at hdisk
      exact Or.inr ⟨hinv.1, hdisk⟩
    · simp only [RemovalSucceeds, hpoint] at hremove
      cases hremove
  | release hpoint =>
    simp only [Inv, hpoint] at hinv ⊢
    exact hinv
  | releaseTemp hpoint =>
    simp only [Inv, hpoint] at hinv ⊢
    exact hinv

/-! ## Whole lives -/

/-- What a life keeps: its path and its flags, and only a life without `--force` has a
placeholder. -/
def SameLife (path : PathName) (force : Bool) (life : Life) : Prop :=
  life.output.path = path ∧ life.force = force
    ∧ (life.output.placeholder = true → force = false)

theorem Moves.sameLife {path : PathName} {force : Bool} {c c' : Cleanup} {disk' : Disk}
    {life' : Life} {choice : Choice} (hmove : Moves cwd choice disk c life disk' c' life')
    (h : SameLife path force life) : SameLife path force life' := by
  obtain ⟨hpath, hforce, hplaceholder⟩ := h
  cases hmove with
  | reserve _ hfree => exact ⟨hpath, hforce, fun _ => hforce ▸ hfree⟩
  | _ => exact ⟨hpath, hforce, hplaceholder⟩

/-- **Every state of a life satisfies the invariant.** -/
theorem inv_of_run {c₀ : Cleanup} {path : PathName} {input : Option PathName} {force : Bool}
    {s : State} (hrun : Run cwd RemovalSucceeds ⟨disk₀, c₀, Life.start path input force⟩ s) :
    Inv cwd disk₀ s ∧ SameLife path force s.life := by
  induction hrun with
  | refl => exact ⟨⟨rfl, rfl, rfl, rfl, rfl⟩, rfl, rfl, by rintro ⟨⟩⟩
  | @tail t _ _ hstep ih =>
    obtain ⟨choice, hremove, rfl⟩ := hstep
    have hmove := moves_step cwd t.disk t.cleanup t.life choice
    exact ⟨hmove.inv hremove ih.1, hmove.sameLife ih.2⟩

/-- `commit` has renamed the temp file onto the path. -/
def AfterRename (life : Life) : Prop :=
  life.point = .renamed (.ok ()) ∨ life.output.committed = true

/-- The three things an output can have on the disk. -/
theorem Inv.cases {s : State} (h : Inv cwd disk₀ s) :
    Reserved cwd disk₀ s.life s.disk
      ∨ (∃ tmp data, HasTemp cwd disk₀ s.life tmp data s.disk)
      ∨ (AfterRename s.life ∧ Published cwd disk₀ s.life s.disk)
      ∨ s.disk = disk₀ := by
  have hended : ∀ {result : Option CliError},
      (s.life.output.committed = true ∧ result = none ∧ Published cwd disk₀ s.life s.disk)
        ∨ (s.life.output.committed = false ∧ s.disk = disk₀) →
      (AfterRename s.life ∧ Published cwd disk₀ s.life s.disk) ∨ s.disk = disk₀ := by
    rintro result (⟨hcommitted, -, hpub⟩ | ⟨-, hdisk⟩)
    · exact Or.inl ⟨Or.inr hcommitted, hpub⟩
    · exact Or.inr hdisk
  rw [Inv] at h
  split at h
  · exact Or.inr (Or.inr (Or.inr h.1))
  · exact Or.inl h.1
  · exact Or.inl h.1
  · exact Or.inl h.1
  · exact Or.inr (Or.inl ⟨_, _, h.1⟩)
  · exact Or.inr (Or.inr (Or.inl ⟨Or.inl ‹_›, h.2⟩))
  · have hdisk := h.2
    split at hdisk
    · exact Or.inl hdisk
    · exact Or.inr (Or.inl ⟨_, hdisk⟩)
  · exact Or.inl h.2
  · exact Or.inr (Or.inr (hended h))
  · exact Or.inr (Or.inr (hended h))
  · exact Or.inr (Or.inr (hended h))
  all_goals
    obtain ⟨tmp, -, htemp, -⟩ := h
    exact Or.inr (Or.inl ⟨tmp, _, htemp⟩)

theorem Inv.published {s : State} (h : Inv cwd disk₀ s) (hcommitted : s.life.output.committed = true) :
    Published cwd disk₀ s.life s.disk := by
  have hnot : s.life.output.committed ≠ false := by
    rw [hcommitted]
    decide
  rw [Inv] at h
  split at h
  · exact absurd h.2.2.2.1 hnot
  · exact absurd h.2.1.1 hnot
  · exact absurd h.2.1.1 hnot
  · exact absurd h.2.1.1 hnot
  · exact absurd h.2.1.1 hnot
  · exact h.2
  · exact absurd h.1 hnot
  · exact absurd h.1 hnot
  · exact h.elim (fun hpub => hpub.2.2) fun hdisk => absurd hdisk.1 hnot
  · exact h.elim (fun hpub => hpub.2.2) fun hdisk => absurd hdisk.1 hnot
  · exact h.elim (fun hpub => hpub.2.2) fun hdisk => absurd hdisk.1 hnot
  all_goals
    obtain ⟨-, -, -, hpassed⟩ := h
    exact absurd hpassed.1 hnot

theorem Reserved.extends (h : Reserved cwd disk₀ life disk) : disk₀.Extends disk := by
  rw [Reserved] at h
  split at h
  · obtain ⟨e, -, hnode, rfl⟩ := h
    exact extends_set hnode _
  · rw [h]
    exact Keeps.refl _

theorem HasTemp.extends {tmp : PathName} {data : List UInt8}
    (h : HasTemp cwd disk₀ life tmp data disk) : disk₀.Extends disk := by
  obtain ⟨disk₁, τ, suffix, hres, -, -, -, hnode, rfl⟩ := h
  exact hres.extends.trans (extends_set hnode _)

/-- **Only a rename takes anything away.** -/
theorem Inv.extends {s : State} (h : Inv cwd disk₀ s) :
    disk₀.Extends s.disk ∨ Published cwd disk₀ s.life s.disk := by
  rcases h.cases with hres | ⟨tmp, data, htemp⟩ | ⟨-, hpub⟩ | hdisk
  · exact Or.inl hres.extends
  · exact Or.inl htemp.extends
  · exact Or.inr hpub
  · rw [hdisk]
    exact Or.inl (Keeps.refl _)

/-- What the placeholder shows at the path. -/
theorem Reserved.shows {e : Entry} (h : Reserved cwd disk₀ life disk)
    (he : disk₀.entry cwd life.output.path = .ok e) :
    disk.node e.loc = disk₀.node e.loc
      ∨ (life.output.placeholder = true ∧ disk₀.node e.loc = none
        ∧ disk.node e.loc = some (.file [])) := by
  rw [Reserved] at h
  split at h
  · obtain ⟨e', he', hnode, rfl⟩ := h
    obtain rfl : e' = e := Except.ok.inj (he'.symm.trans he)
    exact Or.inr ⟨‹_›, hnode, node_set_self (Reserved.canSet he hnode) _⟩
  · rw [h]
    exact Or.inl rfl

/-- The temp file does not show at the path. -/
theorem HasTemp.shows {tmp : PathName} {data : List UInt8} {e : Entry}
    (h : HasTemp cwd disk₀ life tmp data disk)
    (he : disk₀.entry cwd life.output.path = .ok e) :
    disk.node e.loc = disk₀.node e.loc
      ∨ (life.output.placeholder = true ∧ disk₀.node e.loc = none
        ∧ disk.node e.loc = some (.file [])) := by
  obtain ⟨disk₁, τ, suffix, hres, rfl, -, hτ, hnode, rfl⟩ := h
  have hne : τ ≠ e := entry_tempPathBeside_ne he hτ
  have hloc : e.loc ≠ τ.loc := fun heq => hne (Entry.loc_inj.mp heq.symm)
  rw [node_set_of_ne hloc]
  exact hres.shows he

/-! ## Refusals -/

/-- A regular file that starts like a key line is refused. -/
theorem refuseKeyFile_of_key {path : PathName} {data : List UInt8} {fault : Option Errno}
    (hlstat : disk.lstat cwd path = some (.file data)) (hkey : (sniffKind data).isSome = true) :
    refuseKeyFile cwd fault disk path ≠ .ok () := by
  intro h
  simp only [refuseKeyFile, hlstat] at h
  split at h
  · cases h
  · rename_i head hhead
    split at h
    · cases h
    · rename_i hnone
      rw [readHead.eq_def] at hhead
      split at hhead
      · cases hhead
      · split at hhead
        · cases hhead
        · rename_i l hres
          rw [node_of_resolve hlstat hres] at hhead
          cases hhead
          rw [sniffKind_take] at hnone
          rw [hnone] at hkey
          cases hkey

/-- Without `--force`, nothing can be created where something is. -/
theorem createPrivateNew_of_lstat {path : PathName} {n : Node (List UInt8)}
    (fault : Option Errno) (hlstat : disk.lstat cwd path = some n) :
    ∃ e, createPrivateNew cwd fault disk path = (.error e, disk)
      ∧ (fault = none → isDir cwd disk path = false → e.alreadyExists = true) := by
  cases fault with
  | some err => exact ⟨_, rfl, by rintro ⟨⟩⟩
  | none =>
    cases hentry : disk.entry cwd path with
    | ok e =>
      have hnode : disk.node e.loc = some n := by
        rw [← hlstat, lstat, hentry]
      refine ⟨.ofErrno .exist, ?_, fun _ _ => rfl⟩
      simp only [createPrivateNew, createNew_of_some hentry hnode]
    | error err =>
      -- what leads somewhere without naming an entry is a directory
      refine ⟨.ofErrno err, by simp only [createPrivateNew, createNew, hentry], fun _ hdir => ?_⟩
      rw [lstat, hentry] at hlstat
      dsimp only at hlstat
      rw [isDir, hlstat, Option.any_some] at hdir
      rw [stat] at hlstat
      split at hlstat
      · cases hlstat
      · rename_i l hres
        have hnode := isDirAt_iff.mp (isDirAt_of_resolve hentry hres)
        rw [hlstat] at hnode
        cases hnode
        cases hdir

/-- **What `precheck` refuses, `create` refuses**, for the same reason unless the call
itself fails, and changes nothing. -/
theorem create_of_precheck {path : PathName} {input : Option PathName} {force terminal : Bool}
    {readFault : Option Errno} {err : CliError} (c : Cleanup)
    (h : (Sink.file path).precheck cwd terminal readFault disk input force = .error err)
    (fault : Option Errno) :
    ∃ err', step cwd disk c (Life.start path input force) (.call fault readFault)
        = (disk, c, { Life.start path input force with point := .dropping (some err') })
      ∧ (fault = none ∨ force = true → err' = err) := by
  rw [Sink.precheck] at h
  split at h
  · rename_i hforce
    refine ⟨err, ?_, fun _ => rfl⟩
    simp only [step, Life.start, stepCreate, h, hforce, if_true]
  · rename_i hforce
    rw [Bool.not_eq_true] at hforce
    subst hforce
    split at h
    · cases h
    · rename_i n hlstat
      obtain ⟨e, hcreate, hexists⟩ := createPrivateNew_of_lstat fault hlstat
      refine ⟨createError cwd readFault disk path input e, ?_, ?_⟩
      · simp only [step, Life.start, stepCreate, hcreate]
        rfl
      · rintro (rfl | ⟨⟨⟩⟩)
        rw [createError]
        split at h
        · rw [if_pos ‹_›]
          exact Except.error.inj h
        · rename_i hdir
          rw [if_neg hdir, if_pos (hexists rfl (Bool.not_eq_true _ ▸ hdir))]
          split at h
          · exact Except.error.inj h
          · exact Except.error.inj h

end

/-- **An output is all or nothing.** In every state a life can reach, whichever calls
failed on the way (the removals of `Drop` apart): a committed output is at its path and
is the only change; any other end leaves the disk as it was; the path shows what it held,
an empty placeholder where nothing was, or the whole output; without `--force`, or at a
key file, nothing that existed is touched; and `create` refuses whatever `precheck` does. -/
theorem outputFile_all_or_nothing (cwd : Loc) (disk₀ : Disk) (c₀ : Cleanup) (path : PathName)
    (input : Option PathName) (force : Bool) (s : State)
    (hrun : Run cwd RemovalSucceeds ⟨disk₀, c₀, Life.start path input force⟩ s) :
    (s.life.output.committed = true →
      ∃ e, disk₀.entry cwd path = .ok e ∧ s.disk.node e.loc = some (.file s.life.written)
        ∧ ∀ l, l ≠ e.loc → s.disk.node l = disk₀.node l)
    ∧ (∀ result, s.life.point = .finished result →
      result ≠ none ∨ s.life.output.committed = false → s.disk = disk₀)
    ∧ (∀ e, disk₀.entry cwd path = .ok e →
      s.disk.node e.loc = disk₀.node e.loc
        ∨ (force = false ∧ disk₀.node e.loc = none ∧ s.disk.node e.loc = some (.file []))
        ∨ (AfterRename s.life ∧ s.disk.node e.loc = some (.file s.life.written)))
    ∧ (force = false → disk₀.Extends s.disk)
    ∧ (∀ data, disk₀.lstat cwd path = some (.file data) → (sniffKind data).isSome = true →
      disk₀.Extends s.disk)
    ∧ (∀ err, disk₀.entry cwd path = .error err → disk₀.Extends s.disk)
    ∧ ∀ terminal readFault err,
      (Sink.file path).precheck cwd terminal readFault disk₀ input force = .error err →
      ∀ fault, ∃ err', step cwd disk₀ c₀ (Life.start path input force) (.call fault readFault)
          = (disk₀, c₀, { Life.start path input force with point := .dropping (some err') })
        ∧ (fault = none ∨ force = true → err' = err) := by
  obtain ⟨hinv, hpath, hforce, hplaceholder⟩ := inv_of_run hrun
  refine ⟨?_, ?_, ?_, ?_, ?_, ?_, ?_⟩
  · intro hcommitted
    obtain ⟨e, he, hset, -, hdisk⟩ := hinv.published hcommitted
    rw [hpath] at he
    refine ⟨e, he, ?_, ?_⟩
    · rw [hdisk, node_set_self hset]
    · intro l hl
      rw [hdisk, node_set_of_ne hl]
  · intro result hpoint hresult
    simp only [Inv, hpoint] at hinv
    rcases hinv with ⟨hcommitted, hnone, -⟩ | ⟨-, hdisk⟩
    · rcases hresult with h | h
      · exact absurd hnone h
      · rw [hcommitted] at h
        cases h
    · exact hdisk
  · intro e he
    rw [← hpath] at he
    rcases hinv.cases with hres | ⟨tmp, data, htemp⟩ | ⟨hafter, e', he', hset, -, hdisk⟩ | hdisk
    · rcases hres.shows he with hsame | ⟨hp, hnone, hempty⟩
      · exact Or.inl hsame
      · exact Or.inr (Or.inl ⟨hplaceholder hp, hnone, hempty⟩)
    · rcases htemp.shows he with hsame | ⟨hp, hnone, hempty⟩
      · exact Or.inl hsame
      · exact Or.inr (Or.inl ⟨hplaceholder hp, hnone, hempty⟩)
    · obtain rfl : e' = e := Except.ok.inj (he'.symm.trans he)
      exact Or.inr (Or.inr ⟨hafter, by rw [hdisk, node_set_self hset]⟩)
    · exact Or.inl (by rw [hdisk])
  · intro hfree
    rcases hinv.extends with hext | ⟨e, he, hset, hmode, hdisk⟩
    · exact hext
    · rw [hforce, hfree] at hmode
      rw [hdisk]
      exact extends_set hmode _
  · intro data hlstat hkey
    rcases hinv.extends with hext | ⟨e, he, hset, hmode, hdisk⟩
    · exact hext
    · split at hmode
      · rw [hpath] at hmode
        exact absurd hmode (refuseKeyFile_of_key hlstat hkey)
      · rw [hdisk]
        exact extends_set hmode _
  · intro err herr
    rcases hinv.extends with hext | ⟨e, he, -⟩
    · exact hext
    · rw [hpath, herr] at he
      cases he
  · intro terminal readFault err hpre fault
    exact create_of_precheck c₀ hpre fault

/-- The choices of a life whose calls all succeed, written in one go. -/
def savingChoices (suffix : Vector UInt8 8) (data : List UInt8) : List Choice :=
  [.call none none, .call none none, .draw (.ok suffix), .call none none, .call none none,
    .write data none, .commit none, .call none none, .call none none, .call none none,
    .call none none, .call none none, .call none none]

theorem outputFile_all_or_nothing_saved :
    let disk₀ : Disk := Files.onlyRoot _
    let s := (savingChoices (Vector.replicate 8 0) [1, 2]).foldl (State.next [])
      ⟨disk₀, .empty, Life.start ["a"] none false⟩
    s.life.point = .finished none ∧ s.life.output.committed = true ∧ s.life.written = [1, 2]
      ∧ ∃ e, disk₀.entry [] ["a"] = .ok e ∧ s.disk.node e.loc = some (.file s.life.written)
        ∧ ∀ l, l ≠ e.loc → s.disk.node l = disk₀.node l := by
  refine ⟨by decide, by decide, by decide, ?_⟩
  exact (outputFile_all_or_nothing [] (Files.onlyRoot _) .empty ["a"] none false _
    (run_foldl [] _ (by decide))).1 (by decide)

end UaCrypt.Cli
