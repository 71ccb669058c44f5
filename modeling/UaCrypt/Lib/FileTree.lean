import Mathlib

/-!
# File trees

Regular files, symbolic links and directories under one root, named by paths.

- `Files.walk`: path resolution, following links, with a bound on how many.
- `Files.entry`: the directory entry a path names; its last component is not followed.
- `createNew`, `unlink`, `rename`, `update`: the calls that change a tree, each atomic.
- `Files.ShapeLe`: **regular files do not matter to an entry**: what names an entry are the
  directories and links on the way (`entry_of_shapeLe`).
- `Files.resolve_of_shapeLe`: where a path leads to depends on these and on what is there.
-/

namespace FileTree

/-- A path as written, split at its slashes: `"/a/b"` is `["", "a", "b"]`. -/
abbrev PathName := List String

/-- Where a node is: the names from the root down. -/
abbrev Loc := List String

inductive Errno where
  | noent
  | exist
  | notdir
  | isdir
  | loop
  | other (code : Nat)
  deriving DecidableEq, Repr

inductive Node (α : Type) where
  | dir
  | file (data : α)
  | symlink (target : PathName)
  deriving DecidableEq, Repr

def Node.isDir {α : Type} : Node α → Bool
  | .dir => true
  | _ => false

def Node.isFile {α : Type} : Node α → Bool
  | .file _ => true
  | _ => false

/-- A name in a directory. -/
structure Entry where
  dir : Loc
  name : String
  deriving DecidableEq, Repr

def Entry.loc (e : Entry) : Loc := e.dir ++ [e.name]

theorem Entry.loc_inj {e e' : Entry} : e.loc = e'.loc ↔ e = e' := by
  constructor
  · intro h
    obtain ⟨dir, name⟩ := e
    obtain ⟨dir', name'⟩ := e'
    obtain ⟨rfl, hname⟩ := List.append_inj' h rfl
    cases hname
    rfl
  · rintro rfl
    rfl

/-- The root is a directory, and so is whatever has an entry in it. -/
@[ext]
structure Files (α : Type) where
  node : Loc → Option (Node α)
  root_dir : node [] = some .dir
  parent_dir : ∀ {dir : Loc} {name : String}, node (dir ++ [name]) ≠ none → node dir = some .dir

/-- The tree of the root alone. -/
def Files.onlyRoot (α : Type) : Files α where
  node l := if l = [] then some .dir else none
  root_dir := rfl
  parent_dir := by
    intro dir name hnode
    rw [if_neg (by simp)] at hnode
    exact absurd rfl hnode

/-! ## Resolution -/

/-- The path starts with a slash. -/
def isAbsolute (p : PathName) : Bool := p.head? = some "" && 2 ≤ p.length

/-- Where resolution starts. -/
def start (cwd : Loc) (p : PathName) : Loc := if isAbsolute p then [] else cwd

/-- The links Linux follows in one resolution. -/
def maxLinks : Nat := 40

section

variable {α : Type}

namespace Files

variable (t t' : Files α)

def isDirAt (l : Loc) : Bool := (t.node l).any Node.isDir

/-- One pass over the components; `jump` goes on behind a link. -/
def walkWith (jump : Loc → PathName → Except Errno Loc) : Loc → PathName → Except Errno Loc
  | l, [] => .ok l
  | l, c :: rest =>
    if t.isDirAt l = false then .error .notdir
    else if c = "" ∨ c = "." then walkWith jump l rest
    else if c = ".." then walkWith jump l.dropLast rest
    else
      match t.node (l ++ [c]) with
      | none => .error .noent
      | some .dir => walkWith jump (l ++ [c]) rest
      | some (.file _) => if rest = [] then .ok (l ++ [c]) else .error .notdir
      | some (.symlink target) => jump (start l target) (target ++ rest)

/-- The location `p` leads to from the directory `l`, every link followed. -/
def walk : Nat → Loc → PathName → Except Errno Loc
  | 0 => t.walkWith fun _ _ => .error .loop
  | links + 1 => t.walkWith (walk links)

/-- `realpath`: where `p` leads to. The empty path leads nowhere. -/
def resolve (cwd : Loc) (p : PathName) : Except Errno Loc :=
  if p = [] ∨ p = [""] then .error .noent else t.walk maxLinks (start cwd p) p

/-- The entry `p` names: its last component is looked up but not followed. -/
def entry (cwd : Loc) (p : PathName) : Except Errno Entry :=
  match p.getLast? with
  | none => .error .noent
  | some name =>
    if name = "" ∨ name = "." ∨ name = ".." then
      -- the kernel's answer where a name is needed: "is a directory"
      .error .isdir
    else
      match t.walk maxLinks (start cwd p) p.dropLast with
      | .error e => .error e
      | .ok dir => if t.isDirAt dir then .ok ⟨dir, name⟩ else .error .notdir

/-- `stat`: the node `p` leads to. -/
def stat (cwd : Loc) (p : PathName) : Option (Node α) :=
  match t.resolve cwd p with
  | .error _ => none
  | .ok l => t.node l

/-- `lstat`: the node at `p`, a final link not followed. -/
def lstat (cwd : Loc) (p : PathName) : Option (Node α) :=
  match t.entry cwd p with
  | .ok e => t.node e.loc
  | .error _ => t.stat cwd p

/-! ## Changing a tree -/

/-- The entry is in a directory and does not hold one. -/
def CanSet (e : Entry) : Prop := t.isDirAt e.dir = true ∧ t.isDirAt e.loc = false

instance (e : Entry) : Decidable (t.CanSet e) := inferInstanceAs (Decidable (_ ∧ _))

theorem isDirAt_iff {t : Files α} {l : Loc} : t.isDirAt l = true ↔ t.node l = some .dir := by
  rw [isDirAt]
  cases h : t.node l with
  | none => simp
  | some n => cases n <;> simp [Node.isDir]

theorem CanSet.loc_ne {t : Files α} {e : Entry} {l : Loc} (h : t.CanSet e)
    (hdir : t.node l = some .dir) : l ≠ e.loc := by
  rintro rfl
  rw [CanSet, isDirAt_iff.mpr hdir] at h
  exact Bool.noConfusion h.2

/-- `t` with an entry set to a node, or cleared. -/
def set (e : Entry) (v : Option (Node α)) : Files α :=
  if h : t.CanSet e then
    { node := fun l => if l = e.loc then v else t.node l
      root_dir := by
        rw [if_neg (h.loc_ne t.root_dir)]
        exact t.root_dir
      parent_dir := by
        intro dir name hnode
        have hdir : t.node dir = some .dir := by
          by_cases heq : dir ++ [name] = e.loc
          · have hentry : (⟨dir, name⟩ : Entry) = e := Entry.loc_inj.mp heq
            rw [← isDirAt_iff.mp h.1, ← hentry]
          · rw [if_neg heq] at hnode
            exact t.parent_dir hnode
        rw [if_neg (h.loc_ne hdir)]
        exact hdir }
  else t

theorem node_set {t : Files α} {e : Entry} (h : t.CanSet e) (v : Option (Node α)) (l : Loc) :
    (t.set e v).node l = if l = e.loc then v else t.node l := by
  rw [set, dif_pos h]

@[simp] theorem node_set_self {t : Files α} {e : Entry} (h : t.CanSet e) (v : Option (Node α)) :
    (t.set e v).node e.loc = v := by
  rw [node_set h, if_pos rfl]

theorem node_set_of_ne {t : Files α} {e : Entry} {v : Option (Node α)} {l : Loc}
    (hne : l ≠ e.loc) : (t.set e v).node l = t.node l := by
  rw [set]
  split
  · exact if_neg hne
  · rfl

/-- `open` with `O_CREAT | O_EXCL`: a new file at an entry that holds nothing. -/
def createNew (cwd : Loc) (p : PathName) (data : α) : Except Errno Entry × Files α :=
  match t.entry cwd p with
  | .error err => (.error err, t)
  | .ok e =>
    match t.node e.loc with
    | some _ => (.error .exist, t)
    | none => (.ok e, t.set e (some (.file data)))

/-- `unlink`: removes a file or a link. -/
def unlink (cwd : Loc) (p : PathName) : Except Errno Unit × Files α :=
  match t.entry cwd p with
  | .error err => (.error err, t)
  | .ok e =>
    match t.node e.loc with
    | none => (.error .noent, t)
    | some .dir => (.error .isdir, t)
    | some _ => (.ok (), t.set e none)

/-- `rename` of a file or a link, onto anything but a directory. -/
def rename (cwd : Loc) (src dst : PathName) : Except Errno Unit × Files α :=
  match t.entry cwd src, t.entry cwd dst with
  | .error err, _ => (.error err, t)
  | .ok _, .error err => (.error err, t)
  | .ok e, .ok e' =>
    match t.node e.loc, t.node e'.loc with
    | none, _ => (.error .noent, t)
    | some .dir, _ => (.error .isdir, t)
    | some _, some .dir => (.error .isdir, t)
    | some n, _ => if e = e' then (.ok (), t) else (.ok (), (t.set e none).set e' (some n))

/-- A change to the data of the file at an entry, if it is still there. -/
def update (e : Entry) (f : α → α) : Files α :=
  match t.node e.loc with
  | some (.file data) => t.set e (some (.file (f data)))
  | _ => t

/-! ## What a call can do -/

section

variable {t t' : Files α} {cwd : Loc} {p : PathName} {e : Entry}

/-- The name of an entry and the directory it is in. -/
theorem entry_eq_ok_iff :
    t.entry cwd p = .ok e
      ↔ p.getLast? = some e.name ∧ ¬(e.name = "" ∨ e.name = "." ∨ e.name = "..")
        ∧ t.walk maxLinks (start cwd p) p.dropLast = .ok e.dir ∧ t.isDirAt e.dir = true := by
  obtain ⟨dir, name⟩ := e
  constructor
  · intro h
    rw [entry] at h
    split at h
    · cases h
    · split at h
      · cases h
      · split at h
        · cases h
        · split at h
          · cases h
            exact ⟨‹_›, ‹_›, ‹_›, ‹_›⟩
          · cases h
  · rintro ⟨hlast, hname, hwalk, hdir⟩
    simp only [entry, hlast, if_neg hname, hwalk, hdir, if_true]

theorem isDirAt_dir_of_entry (h : t.entry cwd p = .ok e) : t.isDirAt e.dir = true :=
  (entry_eq_ok_iff.mp h).2.2.2

/-- An entry a path names can be set unless it holds a directory. -/
theorem canSet_of_entry (h : t.entry cwd p = .ok e) (hnode : t.node e.loc ≠ some .dir) :
    t.CanSet e := by
  refine ⟨isDirAt_dir_of_entry h, ?_⟩
  rw [← Bool.not_eq_true, isDirAt_iff]
  exact hnode

theorem canSet_of_file {data : α} (hnode : t.node e.loc = some (.file data)) : t.CanSet e := by
  refine ⟨isDirAt_iff.mpr (t.parent_dir (by rw [← Entry.loc, hnode]; simp)), ?_⟩
  rw [← Bool.not_eq_true, isDirAt_iff, hnode]
  simp

/-- Everything `createNew` can do. -/
theorem createNew_cases (t : Files α) (cwd : Loc) (p : PathName) (data : α) :
    (∃ err, t.createNew cwd p data = (.error err, t))
      ∨ ∃ e, t.entry cwd p = .ok e ∧ t.node e.loc = none
        ∧ t.createNew cwd p data = (.ok e, t.set e (some (.file data))) := by
  rw [createNew]
  cases hentry : t.entry cwd p with
  | error err => exact Or.inl ⟨err, rfl⟩
  | ok e =>
    cases hnode : t.node e.loc with
    | some n => exact Or.inl ⟨.exist, by simp only [hnode]⟩
    | none => exact Or.inr ⟨e, rfl, hnode, by simp only [hnode]⟩

theorem createNew_of_none (hentry : t.entry cwd p = .ok e) (hnode : t.node e.loc = none)
    (data : α) : t.createNew cwd p data = (.ok e, t.set e (some (.file data))) := by
  simp only [createNew, hentry, hnode]

theorem createNew_of_some {n : Node α} (hentry : t.entry cwd p = .ok e)
    (hnode : t.node e.loc = some n) (data : α) : t.createNew cwd p data = (.error .exist, t) := by
  simp only [createNew, hentry, hnode]

theorem unlink_of_file {data : α} (hentry : t.entry cwd p = .ok e)
    (hnode : t.node e.loc = some (.file data)) : t.unlink cwd p = (.ok (), t.set e none) := by
  simp only [unlink, hentry, hnode]

/-- Everything `unlink` can do. -/
theorem unlink_cases (t : Files α) (cwd : Loc) (p : PathName) :
    (∃ err, t.unlink cwd p = (.error err, t))
      ∨ ∃ e, t.entry cwd p = .ok e ∧ t.CanSet e ∧ t.unlink cwd p = (.ok (), t.set e none) := by
  rw [unlink]
  cases hentry : t.entry cwd p with
  | error err => exact Or.inl ⟨err, rfl⟩
  | ok e =>
    cases hnode : t.node e.loc with
    | none => exact Or.inl ⟨.noent, by simp only [hnode]⟩
    | some n =>
      cases n with
      | dir => exact Or.inl ⟨.isdir, by simp only [hnode]⟩
      | file data =>
        exact Or.inr ⟨e, rfl, canSet_of_entry hentry (by simp [hnode]), by simp only [hnode]⟩
      | symlink target =>
        exact Or.inr ⟨e, rfl, canSet_of_entry hentry (by simp [hnode]), by simp only [hnode]⟩

/-- Everything `rename` can do with a file. -/
theorem rename_cases {src : PathName} {data : α} (hsrc : t.entry cwd src = .ok e)
    (hnode : t.node e.loc = some (.file data)) (dst : PathName) :
    (∃ err, t.rename cwd src dst = (.error err, t))
      ∨ ∃ e', t.entry cwd dst = .ok e' ∧ t.node e'.loc ≠ some .dir
        ∧ t.rename cwd src dst = (.ok (), if e = e' then t
            else (t.set e none).set e' (some (.file data))) := by
  rw [rename, hsrc]
  cases hdst : t.entry cwd dst with
  | error err => exact Or.inl ⟨err, rfl⟩
  | ok e' =>
    simp only [hnode]
    by_cases hdir : t.node e'.loc = some .dir
    · rw [hdir]
      exact Or.inl ⟨.isdir, rfl⟩
    · refine Or.inr ⟨e', rfl, hdir, ?_⟩
      cases hnode' : t.node e'.loc with
      | none =>
        simp only
        split <;> rfl
      | some n =>
        cases n with
        | dir => exact absurd hnode' hdir
        | file data' =>
          simp only
          split <;> rfl
        | symlink target =>
          simp only
          split <;> rfl

/-- What a rename that goes through has done with a file. -/
theorem rename_eq_ok {src dst : PathName} (h : t.rename cwd src dst = (.ok (), t')) {e : Entry}
    {data : α} (hsrc : t.entry cwd src = .ok e) (hnode : t.node e.loc = some (.file data)) :
    ∃ e', t.entry cwd dst = .ok e' ∧ t.node e'.loc ≠ some .dir
      ∧ t' = if e = e' then t else (t.set e none).set e' (some (.file data)) := by
  rcases rename_cases hsrc hnode dst with ⟨err, herr⟩ | ⟨e', he', hdir, hok⟩
  · rw [h] at herr
    cases herr
  · rw [h] at hok
    exact ⟨e', he', hdir, congrArg Prod.snd hok⟩

/-- A rename that goes through found its source. -/
theorem entry_of_rename_ok {src dst : PathName} (h : t.rename cwd src dst = (.ok (), t')) :
    ∃ e, t.entry cwd src = .ok e := by
  rw [rename] at h
  split at h
  · cases h
  · cases h
  · exact ⟨_, ‹_›⟩

/-- A failed rename changes nothing. -/
theorem eq_of_rename_error {src dst : PathName} {err : Errno}
    (h : t.rename cwd src dst = (.error err, t')) : t' = t := by
  rw [rename] at h
  split at h
  · cases h
    rfl
  · cases h
    rfl
  · split at h
    · cases h
      rfl
    · cases h
      rfl
    · cases h
      rfl
    · split at h <;> cases h

theorem update_of_file {data : α} (hnode : t.node e.loc = some (.file data)) (f : α → α) :
    t.update e f = t.set e (some (.file (f data))) := by
  simp only [update, hnode]

theorem node_update_of_ne {f : α → α} {l : Loc} (hne : l ≠ e.loc) :
    (t.update e f).node l = t.node l := by
  rw [update]
  split
  · exact node_set_of_ne hne
  · rfl

/-! ### Setting entries -/

/-- Setting an entry again. -/
theorem set_set (h : t.CanSet e) (v w : Option (Node α)) (hv : v ≠ some .dir) :
    (t.set e v).set e w = t.set e w := by
  have h' : (t.set e v).CanSet e := by
    refine ⟨?_, ?_⟩
    · have hdir := isDirAt_iff.mp h.1
      rw [isDirAt_iff, node_set_of_ne (h.loc_ne hdir)]
      exact hdir
    · rw [← Bool.not_eq_true, isDirAt_iff, node_set_self h]
      exact hv
  ext1
  funext l
  rw [node_set h', node_set h, node_set h]
  split
  · rfl
  · rfl

/-- Setting an entry to what it holds. -/
theorem set_node (t : Files α) (e : Entry) : t.set e (t.node e.loc) = t := by
  by_cases h : t.CanSet e
  · ext1
    funext l
    rw [node_set h]
    split
    · rename_i heq
      rw [heq]
    · rfl
  · rw [set, dif_neg h]

/-- Other entries can still be set. -/
theorem CanSet.set {e' : Entry} (h : t.CanSet e) (h' : t.CanSet e') (v : Option (Node α))
    (hv : v ≠ some .dir) : (t.set e v).CanSet e' := by
  refine ⟨?_, ?_⟩
  · have hdir := isDirAt_iff.mp h'.1
    rw [isDirAt_iff, node_set_of_ne (h.loc_ne hdir)]
    exact hdir
  · rw [← Bool.not_eq_true, isDirAt_iff, node_set h]
    split
    · exact hv
    · rw [← isDirAt_iff, Bool.not_eq_true]
      exact h'.2

/-- Entries are set independently of each other. -/
theorem set_comm {e' : Entry} (h : t.CanSet e) (h' : t.CanSet e') (hne : e ≠ e')
    {v w : Option (Node α)} (hv : v ≠ some .dir) (hw : w ≠ some .dir) :
    (t.set e v).set e' w = (t.set e' w).set e v := by
  have hloc : e.loc ≠ e'.loc := fun heq => hne (Entry.loc_inj.mp heq)
  ext1
  funext l
  rw [node_set (h.set h' v hv), node_set h, node_set (h'.set h w hw), node_set h']
  by_cases hl : l = e.loc
  · rw [if_pos hl, if_pos hl, if_neg (hl ▸ hloc)]
  · rw [if_neg hl, if_neg hl]

end

/-! ## Which nodes a path depends on -/

/-- The nodes of `t` with `P` are in `t'` too. -/
def Keeps (P : Node α → Prop) (t t' : Files α) : Prop :=
  ∀ l n, P n → t.node l = some n → t'.node l = some n

/-- `t'` has everything `t` has. -/
def Extends (t t' : Files α) : Prop := Keeps (fun _ => True) t t'

/-- `t'` has the directories and links of `t`. -/
def ShapeLe (t t' : Files α) : Prop := Keeps (fun n => n.isFile = false) t t'

section

variable {t t' : Files α} {P : Node α → Prop}

theorem Keeps.refl (t : Files α) : Keeps P t t := fun _ _ _ h => h

theorem Keeps.trans {t'' : Files α} (h : Keeps P t t') (h' : Keeps P t' t'') : Keeps P t t'' :=
  fun l n hn hl => h' l n hn (h l n hn hl)

theorem Keeps.isDirAt (h : Keeps P t t') (hdir : P .dir) {l : Loc} (hl : t.isDirAt l = true) :
    t'.isDirAt l = true := isDirAt_iff.mpr (h _ _ hdir (isDirAt_iff.mp hl))

theorem walkWith_of_shapeLe (h : t.ShapeLe t') {jump jump' : Loc → PathName → Except Errno Loc}
    {r : Loc} (hr : ∀ n, t.node r = some n → t'.node r = some n)
    (hjump : ∀ l p, jump l p = .ok r → jump' l p = .ok r) {p : PathName} :
    ∀ {l}, t.walkWith jump l p = .ok r → t'.walkWith jump' l p = .ok r := by
  induction p with
  | nil =>
    intro l hwalk
    exact hwalk
  | cons c rest ih =>
    intro l hwalk
    rw [walkWith] at hwalk ⊢
    split at hwalk
    · cases hwalk
    · rename_i hl
      rw [Bool.not_eq_false] at hl
      rw [if_neg (by rw [h.isDirAt rfl hl]; decide)]
      split at hwalk
      · rw [if_pos ‹_›]
        exact ih hwalk
      · rw [if_neg ‹_›]
        split at hwalk
        · rw [if_pos ‹_›]
          exact ih hwalk
        · rw [if_neg ‹_›]
          cases hnode : t.node (l ++ [c]) with
          | none =>
            rw [hnode] at hwalk
            cases hwalk
          | some n =>
            rw [hnode] at hwalk
            cases n with
            | dir =>
              rw [h _ _ rfl hnode]
              exact ih hwalk
            | file data =>
              -- a file can only be what the path leads to
              dsimp only at hwalk
              split at hwalk
              · cases hwalk
                rw [hr _ hnode]
                exact if_pos ‹_›
              · cases hwalk
            | symlink target =>
              rw [h _ _ rfl hnode]
              exact hjump _ _ hwalk

/-- Where a path leads to depends on the directories and links on the way, and on what is
there. -/
theorem walk_of_shapeLe (h : t.ShapeLe t') {r : Loc}
    (hr : ∀ n, t.node r = some n → t'.node r = some n) {links : Nat} :
    ∀ {l p}, t.walk links l p = .ok r → t'.walk links l p = .ok r := by
  induction links with
  | zero =>
    intro l p hwalk
    exact walkWith_of_shapeLe h hr (fun _ _ hjump => hjump) hwalk
  | succ links ih =>
    intro l p hwalk
    exact walkWith_of_shapeLe h hr (fun _ _ hjump => ih hjump) hwalk

theorem resolve_of_shapeLe (h : t.ShapeLe t') {cwd : Loc} {p : PathName} {l : Loc}
    (hl : ∀ n, t.node l = some n → t'.node l = some n) (hres : t.resolve cwd p = .ok l) :
    t'.resolve cwd p = .ok l := by
  rw [resolve] at hres ⊢
  split at hres
  · cases hres
  · rw [if_neg ‹_›]
    exact walk_of_shapeLe h hl hres

/-- **Regular files do not matter to an entry**: only the directories and links on the
way to it do. -/
theorem entry_of_shapeLe (h : t.ShapeLe t') {cwd : Loc} {p : PathName} {e : Entry}
    (hentry : t.entry cwd p = .ok e) : t'.entry cwd p = .ok e := by
  obtain ⟨hlast, hname, hwalk, hdir⟩ := entry_eq_ok_iff.mp hentry
  refine entry_eq_ok_iff.mpr ⟨hlast, hname, ?_, h.isDirAt rfl hdir⟩
  refine walk_of_shapeLe h ?_ hwalk
  intro n hn
  rw [isDirAt_iff.mp hdir] at hn
  cases hn
  exact h _ _ rfl (isDirAt_iff.mp hdir)

/-! ### The last component -/

theorem walkWith_snoc (links : Nat) {jump : Loc → PathName → Except Errno Loc} {c : String}
    {r : Loc}
    (hjump : ∀ l p, jump l (p ++ [c]) = .ok r →
      ∃ links d, jump l p = .ok d ∧ t.isDirAt d = true ∧ t.walk links d [c] = .ok r)
    (hlinks : t.walk links = t.walkWith jump) {p : PathName} :
    ∀ {l}, t.walkWith jump l (p ++ [c]) = .ok r →
      ∃ links d, t.walkWith jump l p = .ok d ∧ t.isDirAt d = true ∧ t.walk links d [c] = .ok r := by
  induction p with
  | nil =>
    intro l hwalk
    refine ⟨links, l, rfl, ?_, by rw [hlinks]; exact hwalk⟩
    rw [List.nil_append, walkWith] at hwalk
    split at hwalk
    · cases hwalk
    · exact Bool.not_eq_false _ ▸ ‹_›
  | cons a rest ih =>
    intro l hwalk
    rw [List.cons_append, walkWith] at hwalk
    rw [walkWith]
    split at hwalk
    · cases hwalk
    · rw [if_neg ‹_›]
      split at hwalk
      · rw [if_pos ‹_›]
        exact ih hwalk
      · rw [if_neg ‹_›]
        split at hwalk
        · rw [if_pos ‹_›]
          exact ih hwalk
        · rw [if_neg ‹_›]
          cases hnode : t.node (l ++ [a]) with
          | none =>
            rw [hnode] at hwalk
            cases hwalk
          | some n =>
            rw [hnode] at hwalk
            cases n with
            | dir => exact ih hwalk
            | file data =>
              dsimp only at hwalk
              rw [if_neg (by simp)] at hwalk
              cases hwalk
            | symlink target =>
              dsimp only at hwalk ⊢
              rw [← List.append_assoc] at hwalk
              exact hjump _ _ hwalk

/-- A path is its directory part, then its last component. -/
theorem walk_snoc {c : String} {r : Loc} {links : Nat} :
    ∀ {l p}, t.walk links l (p ++ [c]) = .ok r →
      ∃ links' d, t.walk links l p = .ok d ∧ t.isDirAt d = true
        ∧ t.walk links' d [c] = .ok r := by
  induction links with
  | zero =>
    intro l p hwalk
    exact walkWith_snoc 0 (by intro _ _ h; cases h) rfl hwalk
  | succ links ih =>
    intro l p hwalk
    have hjump : ∀ l' p', t.walk links l' (p' ++ [c]) = .ok r → ∃ links' d,
        t.walk links l' p' = .ok d ∧ t.isDirAt d = true ∧ t.walk links' d [c] = .ok r :=
      fun l' p' h => ih h
    exact walkWith_snoc (links + 1) hjump rfl hwalk

theorem isDirAt_dropLast {l : Loc} (h : t.isDirAt l = true) : t.isDirAt l.dropLast = true := by
  rcases List.eq_nil_or_concat l with rfl | ⟨dir, name, rfl⟩
  · exact h
  · rw [List.concat_eq_append] at h ⊢
    rw [List.dropLast_concat, isDirAt_iff]
    exact t.parent_dir (by rw [isDirAt_iff.mp h]; simp)

/-- A path that leads somewhere without naming an entry leads to a directory. -/
theorem isDirAt_of_resolve {cwd : Loc} {p : PathName} {l : Loc} {err : Errno}
    (hentry : t.entry cwd p = .error err) (hres : t.resolve cwd p = .ok l) :
    t.isDirAt l = true := by
  rw [resolve] at hres
  split at hres
  · cases hres
  · rename_i hne
    rcases List.eq_nil_or_concat p with rfl | ⟨q, c, rfl⟩
    · exact absurd (Or.inl rfl) hne
    · rw [List.concat_eq_append] at hentry hres
      obtain ⟨links, d, hwalk, hdir, hlast⟩ := walk_snoc hres
      by_cases hname : c = "" ∨ c = "." ∨ c = ".."
      · have hsame : l = d ∨ l = d.dropLast := by
          cases links <;>
          · rw [walk, walkWith, if_neg (by simp [hdir])] at hlast
            split at hlast
            · cases hlast
              exact Or.inl rfl
            · split at hlast
              · cases hlast
                exact Or.inr rfl
              · rename_i h₁ h₂
                rcases hname with h | h | h
                · exact absurd (Or.inl h) h₁
                · exact absurd (Or.inr h) h₁
                · exact absurd h h₂
        rcases hsame with rfl | rfl
        · exact hdir
        · exact isDirAt_dropLast hdir
      · -- then it does name an entry
        have hok : t.entry cwd (q ++ [c]) = .ok ⟨d, c⟩ :=
          entry_eq_ok_iff.mpr ⟨by simp, hname, by rw [List.dropLast_concat]; exact hwalk, hdir⟩
        rw [hok] at hentry
        cases hentry

theorem walkWith_snoc_file {jump : Loc → PathName → Except Errno Loc} {c : String} {d : Loc}
    {data : α} (hname : ¬(c = "" ∨ c = "." ∨ c = ".."))
    (hdir : t.isDirAt d = true) (hnode : t.node (d ++ [c]) = some (.file data))
    (hjump : ∀ l p, jump l p = .ok d → jump l (p ++ [c]) = .ok (d ++ [c])) {p : PathName} :
    ∀ {l}, t.walkWith jump l p = .ok d → t.walkWith jump l (p ++ [c]) = .ok (d ++ [c]) := by
  rw [not_or, not_or] at hname
  induction p with
  | nil =>
    intro l hwalk
    cases hwalk
    rw [List.nil_append, walkWith, if_neg (by simp [hdir]), if_neg (by simp [hname]),
      if_neg hname.2.2, hnode]
    exact if_pos rfl
  | cons a rest ih =>
    intro l hwalk
    rw [walkWith] at hwalk
    rw [List.cons_append, walkWith]
    split at hwalk
    · cases hwalk
    · rw [if_neg ‹_›]
      split at hwalk
      · rw [if_pos ‹_›]
        exact ih hwalk
      · rw [if_neg ‹_›]
        split at hwalk
        · rw [if_pos ‹_›]
          exact ih hwalk
        · rw [if_neg ‹_›]
          cases hnode' : t.node (l ++ [a]) with
          | none =>
            rw [hnode'] at hwalk
            cases hwalk
          | some n =>
            rw [hnode'] at hwalk
            cases n with
            | dir => exact ih hwalk
            | file data' =>
              -- the path would end at a file, but it ends at a directory
              dsimp only at hwalk
              split at hwalk
              · cases hwalk
                rw [isDirAt_iff, hnode'] at hdir
                cases hdir
              · cases hwalk
            | symlink target =>
              dsimp only at hwalk ⊢
              rw [← List.append_assoc]
              exact hjump _ _ hwalk

/-- A path that names an entry holding a regular file leads to it. -/
theorem resolve_of_entry {cwd : Loc} {p : PathName} {e : Entry} {data : α}
    (hentry : t.entry cwd p = .ok e) (hnode : t.node e.loc = some (.file data)) :
    t.resolve cwd p = .ok e.loc := by
  obtain ⟨hlast, hname, hwalk, hdir⟩ := entry_eq_ok_iff.mp hentry
  rcases List.eq_nil_or_concat p with rfl | ⟨q, c, rfl⟩
  · cases hlast
  · rw [List.concat_eq_append] at hlast hwalk ⊢
    rw [List.getLast?_concat, Option.some.injEq] at hlast
    rw [List.dropLast_concat] at hwalk
    subst hlast
    rw [resolve, if_neg ?_]
    · have hsnoc : ∀ {links l p}, t.walk links l p = .ok e.dir →
          t.walk links l (p ++ [e.name]) = .ok (e.dir ++ [e.name]) := by
        intro links
        induction links with
        | zero =>
          intro l p h
          exact walkWith_snoc_file hname hdir hnode (by rintro _ _ ⟨⟩) h
        | succ links ih =>
          intro l p h
          exact walkWith_snoc_file hname hdir hnode (fun _ _ h => ih h) h
      exact hsnoc hwalk
    · rintro (h | h)
      · exact absurd h (by simp)
      · cases q with
        | nil =>
          rw [List.nil_append, List.cons.injEq] at h
          exact hname (Or.inl h.1)
        | cons a rest =>
          rw [List.cons_append, List.cons.injEq] at h
          exact absurd h.2 (by simp)

/-- A path that shows a regular file leads to it. -/
theorem node_of_resolve {cwd : Loc} {p : PathName} {l : Loc} {data : α}
    (hlstat : t.lstat cwd p = some (.file data)) (hres : t.resolve cwd p = .ok l) :
    t.node l = some (.file data) := by
  rw [lstat] at hlstat
  split at hlstat
  · rename_i e hentry
    obtain ⟨hlast, hname, hwalk, hdir⟩ := entry_eq_ok_iff.mp hentry
    rw [resolve] at hres
    split at hres
    · cases hres
    · rcases List.eq_nil_or_concat p with rfl | ⟨q, c, rfl⟩
      · cases hlast
      · rw [List.concat_eq_append] at hlast hwalk hres
        rw [List.getLast?_concat, Option.some.injEq] at hlast
        rw [List.dropLast_concat] at hwalk
        obtain ⟨links, d, hwalk', -, hstep⟩ := walk_snoc hres
        obtain rfl : d = e.dir := Except.ok.inj (hwalk'.symm.trans hwalk)
        have hl : l = e.loc := by
          rw [Entry.loc] at hlstat ⊢
          subst hlast
          rw [not_or, not_or] at hname
          cases links <;>
          · rw [walk, walkWith, if_neg (by simp [hdir]), if_neg (by simp [hname]),
              if_neg hname.2.2, hlstat] at hstep
            cases hstep
            rfl
        rw [hl]
        exact hlstat
  · rw [stat, hres] at hlstat
    exact hlstat

/-! ### Links taken away -/

/-- `t` without the links at some locations. -/
def withoutLinks (t : Files α) (P : Loc → Prop) [DecidablePred P] : Files α where
  node l :=
    match t.node l with
    | some (.symlink target) => if P l then none else some (.symlink target)
    | n => n
  root_dir := by
    rw [t.root_dir]
  parent_dir := by
    intro dir name hnode
    have hdir : t.node dir = some .dir := by
      have hold : t.node (dir ++ [name]) ≠ none := by
        intro hnone
        rw [hnone] at hnode
        exact hnode rfl
      exact t.parent_dir hold
    rw [hdir]

theorem node_withoutLinks_of_not {P : Loc → Prop} [DecidablePred P] {l : Loc} (hl : ¬P l) :
    (t.withoutLinks P).node l = t.node l := by
  rw [withoutLinks]
  dsimp only
  split
  · rename_i hnode
    rw [if_neg hl, hnode]
  · rfl

theorem node_withoutLinks_of_ne {P : Loc → Prop} [DecidablePred P] {l : Loc}
    (hl : ∀ target, t.node l ≠ some (.symlink target)) :
    (t.withoutLinks P).node l = t.node l := by
  rw [withoutLinks]
  dsimp only
  split
  · rename_i target hnode
    exact absurd hnode (hl target)
  · rfl

theorem withoutLinks_shapeLe (t : Files α) (P : Loc → Prop) [DecidablePred P] :
    (t.withoutLinks P).ShapeLe t := by
  intro l n _ hl
  rw [withoutLinks] at hl
  dsimp only at hl
  split at hl
  · rename_i target hnode
    split at hl
    · cases hl
    · rw [hnode]
      exact hl
  · exact hl

/-! ### The shape after a call -/

/-- Setting an entry that holds no link or directory keeps the shape. -/
theorem shapeLe_set {e : Entry} (h : t.CanSet e)
    (hnode : ∀ target, t.node e.loc ≠ some (.symlink target)) (v : Option (Node α)) :
    t.ShapeLe (t.set e v) := by
  intro l n hn hl
  have hne : l ≠ e.loc := by
    rintro rfl
    cases n with
    | dir => exact h.loc_ne hl rfl
    | file data => cases hn
    | symlink target => exact hnode target hl
  rw [node_set_of_ne hne]
  exact hl

/-- Setting an entry to a file, or clearing it, adds nothing to the shape. -/
theorem set_shapeLe {e : Entry} (h : t.CanSet e) {v : Option (Node α)}
    (hv : ∀ n, v = some n → n.isFile = true) : (t.set e v).ShapeLe t := by
  intro l n hn hl
  rw [node_set h] at hl
  split at hl
  · rw [hv n hl] at hn
    cases hn
  · exact hl

theorem extends_set {e : Entry} (hnode : t.node e.loc = none) (v : Option (Node α)) :
    t.Extends (t.set e v) := by
  intro l n _ hl
  have hne : l ≠ e.loc := by
    rintro rfl
    rw [hnode] at hl
    cases hl
  rw [node_set_of_ne hne]
  exact hl

end

end Files

end

end FileTree
