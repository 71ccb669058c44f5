import UaCrypt.Cli.Crew
import UaCrypt.Lib.SlotTable

/-!
# Interrupted commands (`cleanup.rs`)

A signal may arrive between any two steps of a command, unless `hold_off` has blocked it;
the handler then unlinks every registered path and the process ends.

- `Life.gap`: where an output has a file that is not registered: between making it and
  registering it, and in the drop after a failed rename, when the placeholder's guard is
  already gone.
- `interrupt_leaves_debris`: a signal in a gap leaves the file behind.
- `interrupt_leaves_no_debris`: **a signal anywhere else leaves the disk as it was before the
  command, but for the outputs published by then.**
-/

namespace UaCrypt.Cli

open FileTree FileTree.Files SlotTable

/-! ## The handler -/

section

variable {cwd : Loc} {disk : Disk} {p : PathName}

/-- The entry a path names, if it names one, holds a file or nothing. -/
def NamesFile (cwd : Loc) (disk : Disk) (p : PathName) : Prop :=
  ∀ e, disk.entry cwd p = .ok e → disk.node e.loc = none ∨ ∃ data, disk.node e.loc = some (.file data)

/-- Unlinking such a path empties its entry and no other, and changes no name. -/
theorem unlink_of_namesFile (h : NamesFile cwd disk p) :
    (∀ q e, (disk.unlink cwd p).2.entry cwd q = .ok e ↔ disk.entry cwd q = .ok e)
      ∧ (∀ e, disk.entry cwd p = .ok e → (disk.unlink cwd p).2.node e.loc = none)
      ∧ ∀ l, (∀ e, disk.entry cwd p = .ok e → l ≠ e.loc) →
        (disk.unlink cwd p).2.node l = disk.node l := by
  rcases unlink_cases disk cwd p with ⟨err, herr⟩ | ⟨e, he, hset, hok⟩
  · rw [herr]
    refine ⟨fun _ _ => Iff.rfl, ?_, fun _ _ => rfl⟩
    intro e he
    rcases h e he with hnone | ⟨data, hdata⟩
    · exact hnone
    · rw [unlink_of_file he hdata] at herr
      cases herr
  · rw [hok]
    have hlink : ∀ target, disk.node e.loc ≠ some (.symlink target) := by
      intro target htarget
      rcases h e he with hnone | ⟨data, hdata⟩
      · rw [htarget] at hnone
        cases hnone
      · rw [htarget] at hdata
        cases hdata
    refine ⟨fun q e' => ⟨?_, ?_⟩, ?_, ?_⟩
    · exact entry_of_shapeLe (set_shapeLe hset (by rintro n ⟨⟩))
    · exact entry_of_shapeLe (shapeLe_set hset hlink _)
    · intro e' he'
      obtain rfl : e' = e := Except.ok.inj (he'.symm.trans he)
      exact node_set_self hset _
    · intro l hl
      exact node_set_of_ne (hl e he)

/-- **What the handler does**: every registered path is gone, the rest is as it was. -/
theorem node_onSignal (c : Cleanup) (disk : Disk)
    (h : ∀ p, some p ∈ c.paths → NamesFile cwd disk p) (l : Loc) :
    ((∃ p e, some p ∈ c.paths ∧ disk.entry cwd p = .ok e ∧ l = e.loc) →
      (c.onSignal cwd disk).node l = none)
    ∧ ((∀ p e, some p ∈ c.paths → disk.entry cwd p = .ok e → l ≠ e.loc) →
      (c.onSignal cwd disk).node l = disk.node l) := by
  obtain ⟨paths, installed, blocked⟩ := c
  simp only [Cleanup.onSignal] at h ⊢
  induction paths generalizing disk with
  | nil =>
    refine ⟨?_, fun _ => rfl⟩
    rintro ⟨p, e, ⟨⟩, -⟩
  | cons slot rest ih =>
    rw [List.foldl_cons]
    cases slot with
    | none =>
      obtain ⟨hgone, hkept⟩ := ih disk fun p hp => h p (List.mem_cons_of_mem _ hp)
      refine ⟨?_, fun hl => hkept fun p e hp => hl p e (List.mem_cons_of_mem _ hp)⟩
      rintro ⟨p, e, hp, he, rfl⟩
      rcases List.mem_cons.mp hp with ⟨⟨⟩⟩ | hp
      exact hgone ⟨p, e, hp, he, rfl⟩
    | some p =>
      obtain ⟨hsame, hnone, hother⟩ := unlink_of_namesFile (h p List.mem_cons_self)
      have hrest : ∀ q, some q ∈ rest → NamesFile cwd (disk.unlink cwd p).2 q := by
        intro q hq e he
        rw [hsame] at he
        by_cases heq : ∃ e', disk.entry cwd p = .ok e' ∧ e.loc = e'.loc
        · obtain ⟨e', he', hloc⟩ := heq
          rw [hloc]
          exact Or.inl (hnone e' he')
        · rw [hother e.loc fun e' he' hloc => heq ⟨e', he', hloc⟩]
          exact h q (List.mem_cons_of_mem _ hq) e he
      obtain ⟨hgone, hkept⟩ := ih (disk.unlink cwd p).2 hrest
      simp only [hsame] at hgone hkept
      refine ⟨?_, ?_⟩
      · rintro ⟨q, e, hq, he, rfl⟩
        by_cases hin : ∃ q e', some q ∈ rest ∧ disk.entry cwd q = .ok e' ∧ e.loc = e'.loc
        · exact hgone hin
        · rw [hkept fun q e' hq he' hloc => hin ⟨q, e', hq, he', hloc⟩]
          rcases List.mem_cons.mp hq with heq | hq
          · cases heq
            exact hnone e he
          · exact absurd ⟨q, e, hq, he, rfl⟩ hin
      · intro hl
        rw [hkept fun q e hq => hl q e (List.mem_cons_of_mem _ hq)]
        exact hother l fun e => hl p e List.mem_cons_self

end

/-! ## What a life has registered -/

/-- The placeholder's slot, until its guard is dropped. -/
def Life.placeholderClaim (life : Life) : Option (Nat × PathName) :=
  match life.point with
  | .releasingTemp _ | .finished _ => none
  | _ => life.output.placeholderGuard.map fun slot => (slot, life.output.path)

/-- The temp file's slot. -/
def OutputFile.tempSlot (o : OutputFile) : Option (Nat × PathName) :=
  match o.tmpGuard, o.tmpPath with
  | some slot, some tmp => some (slot, tmp)
  | _, _ => none

/-- The temp file's slot, until its guard is dropped. -/
def Life.tempClaim (life : Life) : Option (Nat × PathName) :=
  match life.point with
  | .finished _ => none
  | _ => life.output.tempSlot

def Life.claims (life : Life) : List (Nat × PathName) :=
  life.tempClaim.toList ++ life.placeholderClaim.toList

/-- A file of the output is not registered: it has just been made, or the rename onto the
placeholder has failed. -/
def Life.gap (life : Life) : Bool :=
  match life.point with
  | .reserved | .tempMade _ => true
  | .dropping _ | .tempRemoved _ =>
    life.output.placeholder && life.output.placeholderGuard.isNone
  | _ => false

/-- Inside `hold_off`. -/
def Life.masked (life : Life) : Bool :=
  match life.point with
  | .holding | .held | .renamed _ => true
  | _ => false

/-- No call of the output is under way. -/
def Life.atRest (life : Life) : Bool :=
  match life.point with
  | .create | .opened | .finished _ => true
  | _ => false

/-! ## A command -/

section

variable {ι : Type}

/-- A signal: the handler, once it is installed, then the process ends. -/
def Crew.interrupt (cwd : Loc) (s : Crew ι) : Disk :=
  if s.cleanup.installed then s.cleanup.onSignal cwd s.disk else s.disk

/-- A step of a command: one thread is inside one call, a path to register finds a free slot,
the removals of `Drop` succeed and no rename goes onto another's temp file. -/
def CommandStep (cwd : Loc) (disk₀ : Disk) (path : ι → PathName) (s : Crew ι) (i : ι)
    (choice : Choice) : Prop :=
  (∀ j, j ≠ i → (s.life j).atRest = true)
    ∧ ((s.life i).point = .reserved ∨ (∃ tmp, (s.life i).point = .tempMade tmp) →
      none ∈ s.cleanup.paths)
    ∧ Regular cwd disk₀ path s i choice

/-- Every location is as before the command or holds an output that has been published, and
where one has been published there is one. -/
def NoDebris (cwd : Loc) (disk₀ : Disk) (path : ι → PathName) (s : Crew ι) (disk : Disk) : Prop :=
  (∀ l, disk.node l = disk₀.node l ∨ ∃ i e, (s.life i).published = true
    ∧ disk₀.entry cwd (path i) = .ok e ∧ l = e.loc
    ∧ disk.node l = some (.file (s.life i).written))
  ∧ ∀ i, (s.life i).published = true → ∃ e k, disk₀.entry cwd (path i) = .ok e
    ∧ disk₀.entry cwd (path k) = .ok e ∧ (s.life k).published = true
    ∧ disk.node e.loc = some (.file (s.life k).written)

end

/-- A signal right after the placeholder has been made leaves it behind. -/
theorem interrupt_leaves_debris :
    ¬∀ s : Crew Unit, CrewRun [] (CommandStep [] (Files.onlyRoot _) fun _ => ["a"])
        (Crew.start (Files.onlyRoot _) (fun _ => ["a"]) none false) s →
      s.cleanup.blocked = false →
      NoDebris [] (Files.onlyRoot _) (fun _ => ["a"]) s (s.interrupt []) := by
  intro h
  have hrun : CrewRun [] (CommandStep [] (Files.onlyRoot _) fun _ => ["a"])
      (Crew.start (Files.onlyRoot _) (fun _ => ["a"]) none false)
      ((Crew.start (Files.onlyRoot _) (fun _ => ["a"]) none false).next [] () (.call none none)) := by
    refine .single ⟨(), .call none none, ⟨fun j hj => absurd rfl hj, ?_, trivial, ?_⟩, rfl⟩
    · intro _
      decide
    · rintro ⟨⟩
  rcases (h _ hrun (by decide)).1 ["a"] with hsame | ⟨i, e, hpub, -⟩
  · exact absurd hsame (by decide)
  · obtain ⟨⟩ := i
    exact absurd hpub (by decide)

/-! ## Guards and slots -/

/-- What the guards of a life tell at each point. -/
def Life.Guarded (life : Life) : Prop :=
  (life.output.tmpGuard.isSome = true → life.output.tmpPath.isSome = true)
    ∧ (life.output.placeholderGuard.isSome = true → life.output.placeholder = true)
    ∧ match life.point with
      | .create => life.output.placeholderGuard = none ∧ life.output.tmpGuard = none
      | .reserved => life.output.placeholderGuard = none ∧ life.output.tmpGuard = none
        ∧ life.output.placeholder = true
      | .drawName | .makeTemp _ | .tempMade _ => life.output.tmpGuard = none
        ∧ life.output.placeholderGuard.isSome = life.output.placeholder
      | .opened | .synced | .holding => life.output.tmpGuard.isSome = true
        ∧ life.output.placeholderGuard.isSome = life.output.placeholder
      | .held | .renamed _ => life.output.tmpGuard.isSome = true
        ∧ life.output.placeholderGuard = none
      | .dropping _ => life.output.tmpPath.isSome = true → life.output.tmpGuard.isSome = true
      | _ => True

/-- Registering finds the first free slot. -/
theorem register_of_room {c : Cleanup} (hroom : none ∈ c.paths) (p : PathName) :
    ∃ slot, c.paths[slot]? = some none
      ∧ c.register p = (some slot, { c with
          paths := c.paths.set slot (some p)
          installed := true }) := by
  have hex : ∃ slot, c.paths.findIdx? Option.isNone = some slot := by
    rw [← Option.isSome_iff_exists, List.findIdx?_isSome, List.any_eq_true]
    exact ⟨none, hroom, rfl⟩
  obtain ⟨slot, hslot⟩ := hex
  refine ⟨slot, ?_, by simp only [Cleanup.register, hslot]⟩
  obtain ⟨hlt, hnone, -⟩ := List.findIdx?_eq_some_iff_getElem.mp hslot
  rw [List.getElem?_eq_getElem hlt, Option.isNone_iff_eq_none.mp hnone]

section

variable {cwd : Loc} {choice : Choice} {disk disk' : Disk} {c c' : Cleanup} {life life' : Life}

theorem Moves.guarded (hmove : Moves cwd choice disk c life disk' c' life') (hok : life.Ok)
    (hroom : life.point = .reserved ∨ (∃ tmp, life.point = .tempMade tmp) → none ∈ c.paths)
    (hguarded : life.Guarded) : life'.Guarded := by
  cases hmove with
  | stay => exact hguarded
  | register hpoint =>
    obtain ⟨slot, -, hreg⟩ := register_of_room (hroom (Or.inl hpoint)) life.output.path
    simp only [Life.Guarded, hpoint, hreg] at hguarded ⊢
    simp [hguarded]
  | @registerTemp tmp hpoint =>
    obtain ⟨slot, -, hreg⟩ := register_of_room (hroom (Or.inr ⟨tmp, hpoint⟩)) tmp
    simp only [Life.Guarded, hpoint, hreg] at hguarded ⊢
    simp [hguarded]
  | renameNothing hpoint htmp =>
    simp only [Life.Ok, hpoint, htmp] at hok
    exact absurd hok.2.1 (by decide)
  | _ =>
    simp_all [Life.Guarded, Life.Ok]

theorem Life.claims_cases {x : Nat × PathName} (hx : x ∈ life.claims) :
    life.tempClaim = some x ∨ life.placeholderClaim = some x := by
  rw [Life.claims, List.mem_append, Option.mem_toList, Option.mem_toList] at hx
  exact hx

/-- The table after a step holds what the lives claim after it. -/
theorem Moves.tabled {ι : Type} [DecidableEq ι] {claims : ι → List (Nat × PathName)} {i : ι}
    (hmove : Moves cwd choice disk c life disk' c' life') (hguarded : life.Guarded)
    (hroom : life.point = .reserved ∨ (∃ tmp, life.point = .tempMade tmp) → none ∈ c.paths)
    (hclaims : claims i = life.claims) (htable : Tabled c.paths claims) :
    Tabled c'.paths (Function.update claims i life'.claims) := by
  have hsame : life'.claims = life.claims → c'.paths = c.paths →
      Tabled c'.paths (Function.update claims i life'.claims) := by
    intro heq hpaths
    rw [heq, ← hclaims, Function.update_eq_self, hpaths]
    exact htable
  have hrelease : ∀ {guard : Option Nat}, c' = c.release guard →
      (∀ slot, guard = some slot → ∃ p, life.claims.Perm ((slot, p) :: life'.claims)) →
      (guard = none → life'.claims = life.claims) →
      Tabled c'.paths (Function.update claims i life'.claims) := by
    rintro guard rfl hsome hnone
    cases guard with
    | none => exact hsame (hnone rfl) rfl
    | some slot =>
      obtain ⟨p, hperm⟩ := hsome slot rfl
      rw [← hclaims] at hperm
      exact htable.release hperm
  cases hmove with
  | register hpoint =>
    obtain ⟨slot, hfree, hreg⟩ := register_of_room (hroom (Or.inl hpoint)) life.output.path
    have hnext := htable.register hfree i life.output.path
    simp only [Life.Guarded, hpoint] at hguarded
    have hempty : claims i = [] := by
      rw [hclaims]
      simp [Life.claims, Life.placeholderClaim, Life.tempClaim, OutputFile.tempSlot, hpoint, hguarded]
    rw [hempty] at hnext
    simpa [hreg, Life.claims, Life.placeholderClaim, Life.tempClaim, OutputFile.tempSlot, hguarded] using hnext
  | @registerTemp tmp hpoint =>
    obtain ⟨slot, hfree, hreg⟩ := register_of_room (hroom (Or.inr ⟨tmp, hpoint⟩)) tmp
    have hnext := htable.register hfree i tmp
    simp only [Life.Guarded, hpoint] at hguarded
    have hold : claims i = life.placeholderClaim.toList := by
      rw [hclaims]
      simp [Life.claims, Life.tempClaim, OutputFile.tempSlot, hpoint, hguarded]
    rw [hold] at hnext
    simpa [hreg, Life.claims, Life.placeholderClaim, Life.tempClaim, OutputFile.tempSlot, hpoint] using hnext
  | unguard hpoint =>
    refine hrelease rfl ?_ ?_
    · intro slot hguard
      refine ⟨life.output.path, ?_⟩
      simp [Life.claims, Life.placeholderClaim, Life.tempClaim, OutputFile.tempSlot, hpoint, hguard,
        List.perm_append_singleton]
    · intro hguard
      simp [Life.claims, Life.placeholderClaim, Life.tempClaim, OutputFile.tempSlot, hpoint, hguard]
  | release hpoint =>
    refine hrelease rfl ?_ ?_
    · intro slot hguard
      refine ⟨life.output.path, ?_⟩
      simp [Life.claims, Life.placeholderClaim, Life.tempClaim, OutputFile.tempSlot, hpoint, hguard,
        List.perm_append_singleton]
    · intro hguard
      simp [Life.claims, Life.placeholderClaim, Life.tempClaim, OutputFile.tempSlot, hpoint, hguard]
  | releaseTemp hpoint =>
    refine hrelease rfl ?_ ?_
    · intro slot hguard
      obtain ⟨tmp, htmp⟩ := Option.isSome_iff_exists.mp (hguarded.1 (by rw [hguard]; rfl))
      refine ⟨tmp, ?_⟩
      simp [Life.claims, Life.placeholderClaim, Life.tempClaim, OutputFile.tempSlot, hpoint, hguard, htmp]
    · intro hguard
      simp [Life.claims, Life.placeholderClaim, Life.tempClaim, OutputFile.tempSlot, hpoint, hguard]
  | stay => exact hsame rfl rfl
  | write hpoint hfile data =>
    exact hsame (by simp [Life.claims, Life.placeholderClaim, Life.tempClaim, OutputFile.tempSlot, hpoint]) rfl
  | _ =>
    refine hsame ?_ rfl
    clear hsame hrelease hclaims htable hroom hguarded
    simp_all [Life.claims, Life.placeholderClaim, Life.tempClaim, OutputFile.tempSlot]

/-! ## What is registered may be removed -/

/-- Removing what is registered does no harm: the temp file and the placeholder are still
there, or nothing is. -/
structure Backed (cwd : Loc) (disk₀ : Disk) (path : PathName) (disk : Disk) (life : Life) :
    Prop where
  temp : ∀ {x}, life.tempClaim = some x →
    ∃ τ, disk₀.entry cwd x.2 = .ok τ
      ∧ (life.holding.temp = some (x.2, τ) ∨ disk.node τ.loc = none)
  placeholder : ∀ {x}, life.placeholderClaim = some x → life.holding.placeholder = true
    ∨ ∀ e, disk₀.entry cwd path = .ok e → disk.node e.loc = none

/-- The output has given up its files, or is about to be over. -/
def Life.windingDown (life : Life) : Bool :=
  match life.point with
  | .renamed (.ok ()) | .tempRemoved _ | .releasing _ | .releasingTemp _ => true
  | _ => false

variable {disk₀ : Disk} {path : PathName} {force : Bool}

theorem Life.tempClaim_eq_some {x : Nat × PathName} (h : life.tempClaim = some x) :
    life.output.tmpGuard = some x.1 ∧ life.output.tmpPath = some x.2 := by
  rw [Life.tempClaim] at h
  split at h
  · cases h
  · rw [OutputFile.tempSlot] at h
    split at h
    · cases h
      exact ⟨‹_›, ‹_›⟩
    · cases h

theorem Life.placeholderClaim_eq_some {x : Nat × PathName} (h : life.placeholderClaim = some x) :
    life.output.placeholderGuard = some x.1 ∧ x.2 = life.output.path := by
  rw [Life.placeholderClaim] at h
  split at h
  · cases h
  · cases h
  · obtain ⟨slot, hslot, rfl⟩ := Option.map_eq_some_iff.mp h
    exact ⟨hslot, rfl⟩

/-- A registered temp file is there until the output winds down. -/
theorem Life.temp_of_tempClaim (hok : life.Ok) (hguarded : life.Guarded)
    (hpoint : life.windingDown = false) {x : Nat × PathName} (h : life.tempClaim = some x) :
    ∃ τ, life.holding.temp = some (x.2, τ) := by
  obtain ⟨hguard, htmp⟩ := Life.tempClaim_eq_some h
  have hfile : life.file = none ∨ ∃ τ, life.file = some τ := by
    cases life.file with
    | none => exact Or.inl rfl
    | some τ => exact Or.inr ⟨τ, rfl⟩
  revert hok hguarded hpoint h
  simp only [Life.Ok, Life.Guarded, Life.windingDown, Life.holding, Life.temp, Life.tempClaim]
  rcases hfile with hfile | ⟨τ, hfile⟩ <;>
  cases life.point with
  | renamed result => cases result <;> simp_all
  | _ => simp_all

/-- A registered placeholder is there until the output winds down. -/
theorem Life.placeholder_of_claim (hguarded : life.Guarded) (hpoint : life.windingDown = false)
    {x : Nat × PathName} (h : life.placeholderClaim = some x) :
    life.holding.placeholder = true := by
  obtain ⟨hguard, -⟩ := Life.placeholderClaim_eq_some h
  revert hguarded hpoint h
  simp only [Life.Guarded, Life.windingDown, Life.holding, Life.holdsPlaceholder,
    Life.placeholderClaim]
  cases life.point with
  | renamed result => cases result <;> simp_all
  | _ => simp_all

/-- Until an output winds down it has what it has registered. -/
theorem backed_of_not_windingDown (hok : life.Ok) (hguarded : life.Guarded)
    (hown : Own cwd disk₀ path force disk life.holding) (hpoint : life.windingDown = false) :
    Backed cwd disk₀ path disk life := by
  refine ⟨?_, fun h => Or.inl (Life.placeholder_of_claim hguarded hpoint h)⟩
  intro x htemp
  obtain ⟨τ, hτ⟩ := Life.temp_of_tempClaim hok hguarded hpoint htemp
  exact ⟨τ, (hown.temp hτ).1, Or.inl hτ⟩

/-- **A step keeps what is registered harmless.** -/
theorem Moves.backed (hmove : Moves cwd choice disk c life disk' c' life') (hok : life.Ok)
    (hguarded : life.Guarded) (hguarded' : life'.Guarded)
    (hremove : RemovalSucceeds ⟨disk, c, life⟩ choice)
    (hpath : life.output.path = path) (hshape : disk.ShapeLe disk₀)
    (hown : Own cwd disk₀ path force disk life.holding)
    (hown' : Own cwd disk₀ path force disk' life'.holding)
    (htempGone : ∀ tmp τ, life.holding.temp = some (tmp, τ) →
      (disk.unlink cwd tmp).2 = disk.set τ none)
    (hplaceholderGone : life.holding.placeholder = true → ∀ e, disk₀.entry cwd path = .ok e →
      (disk.unlink cwd path).2 = disk.set e none ∧ disk.CanSet e)
    (hbacked : Backed cwd disk₀ path disk life) : Backed cwd disk₀ path disk' life' := by
  have hok' := hmove.ok hok
  by_cases hwinding : life'.windingDown = false
  · exact backed_of_not_windingDown hok' hguarded' hown' hwinding
  · -- a temp file that is gone stays gone
    have hgone : life.holding.temp = none → life'.tempClaim = life.tempClaim →
        (∀ l, disk.node l = none → disk'.node l = none) → ∀ {x}, life'.tempClaim = some x →
        ∃ τ, disk₀.entry cwd x.2 = .ok τ
          ∧ (life'.holding.temp = some (x.2, τ) ∨ disk'.node τ.loc = none) := by
      intro hnone hclaim hkeep x hx
      rw [hclaim] at hx
      obtain ⟨τ, hτ, htemp | hnode⟩ := hbacked.temp hx
      · rw [hnone] at htemp
        cases htemp
      · exact ⟨τ, hτ, Or.inr (hkeep _ hnode)⟩
    -- a placeholder with a guard is still held
    have hheld : life'.holding.placeholder = life'.output.placeholder →
        ∀ {x}, life'.placeholderClaim = some x → life'.holding.placeholder = true
          ∨ ∀ e, disk₀.entry cwd path = .ok e → disk'.node e.loc = none := by
      intro heq x hx
      obtain ⟨hx, -⟩ := Life.placeholderClaim_eq_some hx
      rw [heq]
      exact Or.inl (hguarded'.2.1 (Option.isSome_iff_exists.mpr ⟨_, hx⟩))
    cases hmove with
    | stay => exact hbacked
    | @rename tmp _ hpoint htmp hchoice hren =>
      simp only [Life.Ok, hpoint] at hok
      obtain ⟨τ, hfile⟩ := Option.isSome_iff_exists.mp hok.1
      have hτ : life.holding.temp = some (tmp, τ) := by
        simp [Life.holding, Life.temp, hpoint, htmp, hfile]
      rw [hpath] at hren
      obtain ⟨e, he, hset, hset', hne, rfl⟩ :=
        hown.publish hshape hτ (by simp [Life.holding, Life.intact, hpoint]) hren
      refine ⟨?_, ?_⟩
      · intro x hx
        obtain ⟨-, hx⟩ := Life.tempClaim_eq_some hx
        obtain rfl := Option.some.inj (htmp.symm.trans hx)
        refine ⟨τ, (hown.temp hτ).1, Or.inr ?_⟩
        rw [node_set_of_ne (loc_ne_of_ne hne), node_set_self hset]
      · intro x hx
        obtain ⟨hx, -⟩ := Life.placeholderClaim_eq_some hx
        simp only [Life.Guarded] at hguarded'
        rw [hguarded'.2.2.2] at hx
        cases hx
    | publish hpoint =>
      simp only [Life.Guarded, hpoint] at hguarded
      refine ⟨hgone (by simp [Life.holding, Life.temp, hpoint]) ?_ fun _ h => h, ?_⟩
      · simp [Life.tempClaim, OutputFile.tempSlot, hpoint]
      · intro x hx
        obtain ⟨hx, -⟩ := Life.placeholderClaim_eq_some hx
        rw [hguarded.2.2.2] at hx
        cases hx
    | @removeTemp result tmp hpoint htmp =>
      simp only [Life.Ok, hpoint, htmp] at hok
      obtain ⟨τ, hfile⟩ := Option.isSome_iff_exists.mp (hok.2 rfl)
      have hτ : life.holding.temp = some (tmp, τ) := by
        simp [Life.holding, Life.temp, hpoint, htmp, hfile]
      obtain ⟨hentry, -, data, hnode, -⟩ := hown.temp hτ
      refine ⟨?_, hheld rfl⟩
      intro x hx
      obtain ⟨-, hx⟩ := Life.tempClaim_eq_some hx
      obtain rfl := Option.some.inj (htmp.symm.trans hx)
      refine ⟨τ, hentry, Or.inr ?_⟩
      rw [htempGone _ τ hτ, node_set_self (canSet_of_file hnode)]
    | @skipTemp result hpoint hskip =>
      refine ⟨?_, hheld rfl⟩
      intro x hx
      obtain ⟨-, hx⟩ := Life.tempClaim_eq_some hx
      rcases hskip with htmp | ⟨err, readFault, rfl⟩
      · exact absurd (htmp.symm.trans hx) (by simp)
      · simp only [RemovalSucceeds, hpoint] at hremove
        cases hremove
    | removePlaceholder hpoint hplaceholder =>
      have hp : life.holding.placeholder = true := by
        simp [Life.holding, Life.holdsPlaceholder, hpoint, hplaceholder]
      obtain ⟨-, e, he, hnode⟩ := hown.reserved hp
      obtain ⟨hunlink, hset⟩ := hplaceholderGone hp e he
      rw [← hpath] at hunlink
      refine ⟨hgone (by simp [Life.holding, Life.temp, hpoint]) ?_ ?_, ?_⟩
      · simp [Life.tempClaim, OutputFile.tempSlot, hpoint]
      · intro l hl
        rw [hunlink, node_set hset]
        split
        · rfl
        · exact hl
      · intro x _
        refine Or.inr fun e' he' => ?_
        obtain rfl : e' = e := Except.ok.inj (he'.symm.trans he)
        rw [hunlink, node_set_self hset]
    | skipPlaceholder hpoint hskip =>
      refine ⟨hgone (by simp [Life.holding, Life.temp, hpoint]) ?_ fun _ h => h, ?_⟩
      · simp [Life.tempClaim, OutputFile.tempSlot, hpoint]
      · intro x hx
        obtain ⟨hx, -⟩ := Life.placeholderClaim_eq_some hx
        rcases hskip with hplaceholder | ⟨err, readFault, rfl⟩
        · have hp := hguarded.2.1 (Option.isSome_iff_exists.mpr ⟨_, hx⟩)
          rw [hplaceholder] at hp
          cases hp
        · simp only [RemovalSucceeds, hpoint] at hremove
          cases hremove
    | release hpoint =>
      refine ⟨hgone (by simp [Life.holding, Life.temp, hpoint]) ?_ fun _ h => h, ?_⟩
      · simp [Life.tempClaim, OutputFile.tempSlot, hpoint]
      · rintro x ⟨⟩
    | renameNothing hpoint htmp =>
      simp only [Life.Ok, hpoint, htmp] at hok
      exact absurd hok.2.1 (by decide)
    | _ => simp_all [Life.windingDown]

/-- Outside the gaps a temp file is registered. -/
theorem Life.tempClaim_of_temp (hguarded : life.Guarded) (hgap : life.gap = false)
    {tmp : PathName} {τ : Entry} (h : life.holding.temp = some (tmp, τ)) :
    ∃ slot, life.tempClaim = some (slot, tmp) := by
  have hopen : life.output.tmpPath = some tmp → life.output.tmpGuard.isSome = true →
      ∃ slot, life.output.tempSlot = some (slot, tmp) := by
    intro htmp hguard
    obtain ⟨slot, hslot⟩ := Option.isSome_iff_exists.mp hguard
    exact ⟨slot, by simp [OutputFile.tempSlot, htmp, hslot]⟩
  revert hguarded hgap h
  simp only [Life.Guarded, Life.gap, Life.holding, Life.temp, Life.tempClaim]
  cases life.point with
  | renamed result =>
    cases result with
    | ok u => simp
    | error e => exact fun hguarded _ h => hopen (tmpPath_of_pair h) hguarded.2.2.1
  | opened => exact fun hguarded _ h => hopen (tmpPath_of_pair h) hguarded.2.2.1
  | synced => exact fun hguarded _ h => hopen (tmpPath_of_pair h) hguarded.2.2.1
  | holding => exact fun hguarded _ h => hopen (tmpPath_of_pair h) hguarded.2.2.1
  | held => exact fun hguarded _ h => hopen (tmpPath_of_pair h) hguarded.2.2.1
  | dropping result =>
    exact fun hguarded _ h => hopen (tmpPath_of_pair h) (hguarded.2.2 (by rw [tmpPath_of_pair h]; rfl))
  | _ => simp

/-- Outside the gaps and `hold_off` a placeholder is registered. -/
theorem Life.placeholderClaim_of_placeholder (hguarded : life.Guarded) (hgap : life.gap = false)
    (hmasked : life.masked = false) (h : life.holding.placeholder = true) :
    ∃ slot, life.placeholderClaim = some (slot, life.output.path) := by
  have hopen : life.output.placeholderGuard.isSome = true →
      ∃ slot, life.output.placeholderGuard.map (fun slot => (slot, life.output.path))
        = some (slot, life.output.path) := by
    intro hguard
    obtain ⟨slot, hslot⟩ := Option.isSome_iff_exists.mp hguard
    exact ⟨slot, by rw [hslot]; rfl⟩
  revert hguarded hgap hmasked h
  simp only [Life.Guarded, Life.gap, Life.masked, Life.holding, Life.holdsPlaceholder,
    Life.placeholderClaim]
  cases life.point with
  | drawName => exact fun hguarded _ _ h => hopen (hguarded.2.2.2.trans h)
  | makeTemp tmp => exact fun hguarded _ _ h => hopen (hguarded.2.2.2.trans h)
  | opened => exact fun hguarded _ _ h => hopen (hguarded.2.2.2.trans h)
  | synced => exact fun hguarded _ _ h => hopen (hguarded.2.2.2.trans h)
  | dropping result =>
    intro _ hgap _ h
    dsimp only at hgap h
    rw [h, Bool.true_and, Option.isNone_eq_false_iff] at hgap
    exact hopen hgap
  | tempRemoved result =>
    intro _ hgap _ h
    dsimp only at hgap h
    rw [h, Bool.true_and, Option.isNone_eq_false_iff] at hgap
    exact hopen hgap
  | _ => simp

theorem Moves.masked (hmove : Moves cwd choice disk c life disk' c' life')
    (hmasked : life.masked = true → c.blocked = true) (hmasked' : life'.masked = true) :
    c'.blocked = true := by
  have hrelease : ∀ guard, (c.release guard).blocked = c.blocked := by
    intro guard
    cases guard <;> rfl
  cases hmove with
  | stay => exact hmasked hmasked'
  | block hpoint => rfl
  | unguard hpoint =>
    rw [hrelease]
    exact hmasked (by simp [Life.masked, hpoint])
  | _ => simp_all [Life.masked]

theorem Moves.installed (hmove : Moves cwd choice disk c life disk' c' life')
    (hempty : c.installed = false → ∀ x ∈ c.paths, x = none) (hinstalled : c'.installed = false) :
    ∀ x ∈ c'.paths, x = none := by
  have hregister : ∀ p, (c.register p).2.installed = true := by
    intro p
    rw [Cleanup.register]
    split <;> rfl
  have hrelease : ∀ guard, (c.release guard).installed = false →
      ∀ x ∈ (c.release guard).paths, x = none := by
    intro guard hguard x hx
    cases guard with
    | none => exact hempty hguard x hx
    | some slot =>
      rcases List.mem_or_eq_of_mem_set hx with hold | rfl
      · exact hempty hguard x hold
      · rfl
  cases hmove with
  | register hpoint =>
    rw [hregister] at hinstalled
    cases hinstalled
  | registerTemp hpoint =>
    rw [hregister] at hinstalled
    cases hinstalled
  | unguard hpoint => exact hrelease _ hinstalled
  | release hpoint => exact hrelease _ hinstalled
  | releaseTemp hpoint => exact hrelease _ hinstalled
  | _ => exact hempty hinstalled

end

/-! ## Whole commands -/

section

variable {ι : Type} {cwd : Loc} {disk₀ : Disk} {path : ι → PathName} {force : Bool} {s : Crew ι}

/-- What a signal can rely on. -/
structure SignalInv (cwd : Loc) (disk₀ : Disk) (path : ι → PathName) (force : Bool)
    (s : Crew ι) : Prop where
  crew : CrewInv cwd disk₀ path force s
  guarded : ∀ i, (s.life i).Guarded
  table : Tabled s.cleanup.paths fun i => (s.life i).claims
  backed : ∀ i, Backed cwd disk₀ (path i) s.disk (s.life i)
  masked : ∀ i, (s.life i).masked = true → s.cleanup.blocked = true
  installed : s.cleanup.installed = false → ∀ x ∈ s.cleanup.paths, x = none

theorem signalInv_start (input : Option PathName) :
    SignalInv cwd disk₀ path force (Crew.start disk₀ path input force) := by
  refine ⟨crewInv_start input, fun i => ⟨?_, ?_, rfl, rfl⟩, tabled_empty slots, fun i => ⟨?_, ?_⟩,
    ?_, ?_⟩
  · rintro ⟨⟩
  · rintro ⟨⟩
  · rintro x ⟨⟩
  · rintro x ⟨⟩
  · rintro i ⟨⟩
  · intro _ x hx
    exact List.eq_of_mem_replicate hx

/-- An output at rest is not winding down, and not inside `hold_off`. -/
theorem Life.not_windingDown_of_atRest {life : Life} (h : life.atRest = true) :
    life.windingDown = false ∧ life.masked = false := by
  revert h
  simp only [Life.atRest, Life.windingDown, Life.masked]
  cases life.point with
  | renamed result => cases result <;> simp
  | _ => simp

section

variable [DecidableEq ι] {i : ι} {choice : Choice}

/-- **One step keeps what a signal relies on.** -/
theorem SignalInv.next (hinv : SignalInv cwd disk₀ path force s) (hsteady : Steady cwd disk₀ path)
    (hstep : CommandStep cwd disk₀ path s i choice) :
    SignalInv cwd disk₀ path force (s.next cwd i choice) := by
  obtain ⟨hrest, hroom, hregular⟩ := hstep
  have hmove := s.moves cwd i choice
  have hcrew := hinv.crew.next hsteady hregular
  have hguarded := hmove.guarded (hinv.crew.ok i) hroom (hinv.guarded i)
  have hguarded' := Crew.forall_life_next (P := fun _ life => life.Guarded) hinv.guarded hguarded
  refine ⟨hcrew, hguarded', ?_, ?_, ?_, hmove.installed hinv.installed⟩
  · have htable : Tabled (s.next cwd i choice).cleanup.paths
        (Function.update (fun j => (s.life j).claims) i
          ((s.next cwd i choice).life i).claims) :=
      hmove.tabled (hinv.guarded i) hroom rfl hinv.table
    have hclaims : (fun j => ((s.next cwd i choice).life j).claims)
        = Function.update (fun j => (s.life j).claims) i
            ((s.next cwd i choice).life i).claims := by
      ext1 j
      by_cases hj : j = i
      · subst hj
        rw [Function.update_self]
      · rw [Function.update_of_ne hj, Crew.life_next_of_ne hj]
    rw [hclaims]
    exact htable
  · intro j
    by_cases hj : j = i
    · subst hj
      refine hmove.backed (hinv.crew.ok j) (hinv.guarded j) hguarded hregular.1
        (hinv.crew.same j).1 hinv.crew.sound.shape (hinv.crew.sound.own j) (hcrew.sound.own j)
        ?_ ?_ (hinv.backed j)
      · intro tmp τ htemp
        exact hinv.crew.accounted.unlink_temp hinv.crew.sound hsteady (i := j) htemp
      · intro hp e he
        exact hinv.crew.accounted.unlink_placeholder hinv.crew.sound hsteady hp he
    · -- the others are at rest and have what they have registered
      have hsame : (s.next cwd i choice).life j = s.life j := Crew.life_next_of_ne hj
      have hdown := (Life.not_windingDown_of_atRest (hrest j hj)).1
      rw [← hsame] at hdown
      exact backed_of_not_windingDown (hcrew.ok j) (hguarded' j) (hcrew.sound.own j) hdown
  · intro j hmasked
    by_cases hj : j = i
    · subst hj
      exact hmove.masked (hinv.masked j) hmasked
    · rw [Crew.life_next_of_ne hj, (Life.not_windingDown_of_atRest (hrest j hj)).2] at hmasked
      cases hmasked

theorem signalInv_of_run {input : Option PathName} (hsteady : Steady cwd disk₀ path)
    (hrun : CrewRun cwd (CommandStep cwd disk₀ path) (Crew.start disk₀ path input force) s) :
    SignalInv cwd disk₀ path force s := by
  induction hrun with
  | refl => exact signalInv_start input
  | tail _ hstep ih =>
    obtain ⟨i, choice, hcommand, rfl⟩ := hstep
    exact ih.next hsteady hcommand

end

/-- Before the handler is installed there is nothing to remove. -/
theorem SignalInv.interrupt_eq (hinv : SignalInv cwd disk₀ path force s) :
    s.interrupt cwd = s.cleanup.onSignal cwd s.disk := by
  rw [Crew.interrupt]
  split
  · rfl
  · rename_i hnot
    have hempty := hinv.installed (Bool.not_eq_true _ ▸ hnot)
    rw [Cleanup.onSignal]
    generalize s.cleanup.paths = paths at hempty
    induction paths with
    | nil => rfl
    | cons slot rest ih =>
      rw [hempty slot List.mem_cons_self, List.foldl_cons]
      exact ih fun x hx => hempty x (List.mem_cons_of_mem _ hx)

/-- What is at an entry that the handler clears: a temp file or a placeholder, or nothing. -/
theorem SignalInv.registered (hinv : SignalInv cwd disk₀ path force s) {p : PathName} {e : Entry}
    (hp : some p ∈ s.cleanup.paths) (he : s.disk.entry cwd p = .ok e) :
    (∃ i, (s.holding i).temp = some (p, e))
      ∨ (∃ i, (s.holding i).placeholder = true ∧ disk₀.entry cwd (path i) = .ok e)
      ∨ s.disk.node e.loc = none := by
  have he₀ := entry_of_shapeLe hinv.crew.sound.shape he
  obtain ⟨i, slot, hclaim⟩ := hinv.table.mem_iff.mp hp
  rcases Life.claims_cases hclaim with htemp | hplaceholder
  · obtain ⟨τ, hτ, hheld | hnone⟩ := (hinv.backed i).temp htemp
    · obtain rfl : τ = e := Except.ok.inj (hτ.symm.trans he₀)
      exact Or.inl ⟨i, hheld⟩
    · obtain rfl : τ = e := Except.ok.inj (hτ.symm.trans he₀)
      exact Or.inr (Or.inr hnone)
  · obtain ⟨-, hpath⟩ := Life.placeholderClaim_eq_some hplaceholder
    dsimp only at hpath
    rw [hpath, (hinv.crew.same i).1] at he₀
    rcases (hinv.backed i).placeholder hplaceholder with hheld | hnone
    · exact Or.inr (Or.inl ⟨i, hheld, he₀⟩)
    · exact Or.inr (Or.inr (hnone e he₀))

theorem SignalInv.namesFile (hinv : SignalInv cwd disk₀ path force s) {p : PathName}
    (hp : some p ∈ s.cleanup.paths) : NamesFile cwd s.disk p := by
  intro e he
  rcases hinv.registered hp he with ⟨i, htemp⟩ | ⟨i, hplaceholder, he₀⟩ | hnone
  · obtain ⟨-, -, data, hnode, -⟩ := (hinv.crew.sound.own i).temp htemp
    exact Or.inr ⟨data, hnode⟩
  · obtain ⟨-, e', he', hnode⟩ := (hinv.crew.sound.own i).reserved hplaceholder
    obtain rfl : e' = e := Except.ok.inj (he'.symm.trans he₀)
    exact Or.inr ⟨[], hnode⟩
  · exact Or.inl hnone

/-- Nothing was at an entry that the handler clears. -/
theorem SignalInv.none_of_registered (hinv : SignalInv cwd disk₀ path force s) {p : PathName}
    {e : Entry} (hp : some p ∈ s.cleanup.paths) (he : s.disk.entry cwd p = .ok e) :
    disk₀.node e.loc = none := by
  rcases hinv.registered hp he with ⟨i, htemp⟩ | ⟨i, hplaceholder, he₀⟩ | hnone
  · exact hinv.crew.accounted.temp_new htemp
  · exact hinv.crew.accounted.placeholder_new hplaceholder he₀
  · exact hinv.crew.accounted.none_of_none hinv.crew.sound hnone

/-- A published output is not at an entry that the handler clears. -/
theorem SignalInv.not_registered (hinv : SignalInv cwd disk₀ path force s) {i : ι} {e : Entry}
    (hpub : (s.life i).published = true) (he : disk₀.entry cwd (path i) = .ok e)
    {p : PathName} {e' : Entry} (hp : some p ∈ s.cleanup.paths)
    (he' : s.disk.entry cwd p = .ok e') : e.loc ≠ e'.loc := by
  intro hloc
  obtain rfl := Entry.loc_inj.mp hloc
  rcases hinv.registered hp he' with ⟨j, htemp⟩ | ⟨j, hplaceholder, he₀⟩ | hnone
  · exact hinv.crew.sound.fresh htemp (Or.inr hpub) he rfl
  · by_cases hj : j = i
    · subst hj
      rw [((hinv.crew.sound.own j).done hpub).2] at hplaceholder
      cases hplaceholder
    · exact hinv.crew.sound.apart hj hplaceholder (Or.inr hpub) he₀ he
  · obtain ⟨e'', k, he'', -, -, -, hdata⟩ := hinv.crew.sound.published (i := i) hpub
    obtain rfl : e'' = e := Except.ok.inj (he''.symm.trans he)
    rw [hnone] at hdata
    cases hdata

/-- Outside the gaps and `hold_off`, every file an output has is registered. -/
theorem SignalInv.registered_of_held (hinv : SignalInv cwd disk₀ path force s)
    (hsteady : Steady cwd disk₀ path) (hblocked : s.cleanup.blocked = false)
    (hgap : ∀ i, (s.life i).gap = false) {l : Loc}
    (hheld : (∃ i tmp τ, (s.holding i).temp = some (tmp, τ) ∧ l = τ.loc)
      ∨ ∃ i e, (s.holding i).placeholder = true ∧ disk₀.entry cwd (path i) = .ok e ∧ l = e.loc) :
    ∃ p e, some p ∈ s.cleanup.paths ∧ s.disk.entry cwd p = .ok e ∧ l = e.loc := by
  have hacc := hinv.crew.accounted
  have hmem : ∀ {i x}, x ∈ (s.life i).claims → some x.2 ∈ s.cleanup.paths :=
    fun {i x} hx => hinv.table.mem_iff.mpr ⟨i, x.1, hx⟩
  rcases hheld with ⟨i, tmp, τ, htemp, rfl⟩ | ⟨i, e, hp, he, rfl⟩
  · obtain ⟨slot, hclaim⟩ := Life.tempClaim_of_temp (hinv.guarded i) (hgap i) htemp
    obtain ⟨hτ, hsuffix, -⟩ := (hinv.crew.sound.own i).temp htemp
    have hpub := (hinv.crew.sound.own i).not_published (Or.inl (by rw [htemp]; simp))
    refine ⟨tmp, τ, hmem (i := i) (x := (slot, tmp)) ?_,
      hacc.resolves hsteady hpub (Or.inr hsuffix) hτ, rfl⟩
    rw [Life.claims, hclaim]
    exact List.mem_append_left _ List.mem_cons_self
  · have hmasked : (s.life i).masked = false := by
      rw [← Bool.not_eq_true]
      intro hmasked
      rw [hinv.masked i hmasked] at hblocked
      cases hblocked
    obtain ⟨slot, hclaim⟩ :=
      Life.placeholderClaim_of_placeholder (hinv.guarded i) (hgap i) hmasked hp
    rw [(hinv.crew.same i).1] at hclaim
    have hpub := (hinv.crew.sound.own i).not_published (Or.inr hp)
    refine ⟨path i, e, hmem (i := i) (x := (slot, path i)) ?_,
      hacc.resolves hsteady hpub (Or.inl rfl) he, rfl⟩
    rw [Life.claims, hclaim]
    exact List.mem_append_right _ List.mem_cons_self

end

/-- **An interrupted command leaves no debris.** At a signal anywhere outside the gaps, every
location is as it was before the command or holds an output that has been published, and
no published output is deleted. -/
theorem interrupt_leaves_no_debris {ι : Type} [DecidableEq ι] (cwd : Loc) (disk₀ : Disk)
    (path : ι → PathName) (input : Option PathName) (force : Bool)
    (hsteady : Steady cwd disk₀ path) (s : Crew ι)
    (hrun : CrewRun cwd (CommandStep cwd disk₀ path) (Crew.start disk₀ path input force) s)
    (hblocked : s.cleanup.blocked = false) (hgap : ∀ i, (s.life i).gap = false) :
    NoDebris cwd disk₀ path s (s.interrupt cwd) := by
  have hinv := signalInv_of_run hsteady hrun
  have hsignal := node_onSignal s.cleanup s.disk fun p hp => hinv.namesFile hp
  rw [hinv.interrupt_eq]
  have hpublished : ∀ i, (s.life i).published = true → ∃ e k, disk₀.entry cwd (path i) = .ok e
      ∧ disk₀.entry cwd (path k) = .ok e ∧ (s.life k).published = true
      ∧ (s.cleanup.onSignal cwd s.disk).node e.loc = some (.file (s.life k).written) := by
    intro i hpub
    obtain ⟨e, k, he, hk, -, hkpub, hdata⟩ := hinv.crew.sound.published (i := i) hpub
    refine ⟨e, k, he, hk, hkpub, ?_⟩
    rw [(hsignal e.loc).2 fun p e' hp he' => hinv.not_registered hpub he hp he']
    exact hdata
  refine ⟨fun l => ?_, hpublished⟩
  by_cases hreg : ∃ p e, some p ∈ s.cleanup.paths ∧ s.disk.entry cwd p = .ok e ∧ l = e.loc
  · rw [(hsignal l).1 hreg]
    obtain ⟨p, e, hp, he, rfl⟩ := hreg
    exact Or.inl (hinv.none_of_registered hp he).symm
  · rcases hinv.crew.accounted.rest l with hsame | hheld | ⟨i, e, hp | hpub, he, hl⟩
    · rw [(hsignal l).2 fun p e hp he hl => hreg ⟨p, e, hp, he, hl⟩]
      exact Or.inl hsame
    · exact absurd (hinv.registered_of_held hsteady hblocked hgap (Or.inl hheld)) hreg
    · exact absurd
        (hinv.registered_of_held hsteady hblocked hgap (Or.inr ⟨i, e, hp, he, hl⟩)) hreg
    · obtain ⟨e', k, he', hk, hkpub, hdata⟩ := hpublished i hpub
      obtain rfl : e' = e := Except.ok.inj (he'.symm.trans he)
      subst hl
      exact Or.inr ⟨k, e', hkpub, hk, rfl, hdata⟩

/-- The conditions of `CommandStep` without `--force`, checked. -/
def commandCheck (s : Crew Bool) (i : Bool) (choice : Choice) : Bool :=
  (s.life !i).atRest && s.cleanup.paths.contains none && choice.faultless && !(s.life i).force

theorem commandStep_of_check {cwd : Loc} {disk₀ : Disk} {path : Bool → PathName} {s : Crew Bool}
    {i : Bool} {choice : Choice} (h : commandCheck s i choice = true) :
    CommandStep cwd disk₀ path s i choice := by
  rw [commandCheck, Bool.and_eq_true, Bool.and_eq_true, Bool.and_eq_true, List.contains_iff_mem,
    Bool.not_eq_true'] at h
  obtain ⟨⟨⟨hrest, hroom⟩, hfault⟩, hforce⟩ := h
  refine ⟨?_, fun _ => hroom, removalSucceeds_of_faultless hfault, ?_⟩
  · intro j hj
    rw [Bool.eq_not.mpr hj]
    exact hrest
  · intro hforce'
    rw [hforce] at hforce'
    cases hforce'

/-- One output of two is published, the other has been written to. -/
def interruptedChoices : List (Bool × Choice) :=
  (savingChoices (Vector.replicate 8 0) [1]).map (false, ·)
    ++ ((savingChoices (Vector.replicate 8 1) [2]).take 6).map (true, ·)

theorem interrupt_leaves_no_debris_half :
    let path : Bool → PathName := fun i => if i then ["b"] else ["a"]
    let s := interruptedChoices.foldl (fun s choice => s.next [] choice.1 choice.2)
      (Crew.start (Files.onlyRoot _) path none false)
    (s.life false).published = true ∧ s.disk.node ["b"] = some (.file [])
      ∧ (s.interrupt []).node ["a"] = some (.file [1]) ∧ (s.interrupt []).node ["b"] = none
      ∧ NoDebris [] (Files.onlyRoot _) path s (s.interrupt []) := by
  refine ⟨by decide, by decide, by decide, by decide, ?_⟩
  exact interrupt_leaves_no_debris [] _ _ none false (steady_onlyRoot _) _
    (crewRun_of_along (fun _ _ _ => commandStep_of_check) (by decide)) (by decide) (by decide)

end UaCrypt.Cli
