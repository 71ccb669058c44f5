import UaCrypt.Lib.TextLines
import UaCrypt.Secretstream.PushPull

/-!
# Argument scanning (`ArgScanner::scan` in `lib.rs`)

Every command scans its arguments from left to right: a bool flag, a value flag with its value in
the same argument or in the next, or an error. A separate value that starts with `--` is a value
forgotten.

- `ArgUnit`: what the scan takes in one turn; `Parses` is the grammar.
- `turn_eq_ok_iff`: everything a turn can take. `scanLoop_eq_ok_iff`: the whole scan.
- `scan_accepts_grammar`: the scan accepts the grammar, and the order of the units is nothing to it.
-/

namespace UaCrypt.Cli

open TextLines Secretstream

/-- `HashMap<&'static str, _>`. -/
abbrev FlagMap (α : Type) := String → Option α

@[ext]
structure ArgScanner where
  values : FlagMap String
  flags : FlagMap Bool

namespace ArgScanner

/-- The variants of `CliError` that the scan returns. -/
inductive ArgError where
  | unknownFlag (flag : String) (suggestion : Option String)
  | repeatedFlag (flag : String)
  | missingValue (flag : String)
  | flagTakesNoValue (flag : String)
  | unexpectedArgument (argument : String)
  deriving DecidableEq, Repr

/-! ## Suggestions -/

/-- The three rows of `edit_distance`. -/
structure Rows (n : Nat) where
  beforePrev : Vector Nat (n + 1)
  prev : Vector Nat (n + 1)
  cur : Vector Nat (n + 1)

variable (a b : List UInt8)

/-- The inner loop: a cell of the current row. -/
def editCell (i : Fin a.length) (rows : Rows b.length) (j : Fin b.length) : Rows b.length :=
  let cost := if a[i] ≠ b[j] then 1 else 0
  let d := min (min (rows.prev[j.val + 1] + 1) (rows.cur[j.val] + 1)) (rows.prev[j.val] + cost)
  let d :=
    if 1 ≤ i.val ∧ 1 ≤ j.val ∧ a[i] = b[j.val - 1] ∧ a[i.val - 1] = b[j] then
      min d (rows.beforePrev[j.val - 1] + 1)
    else d
  { rows with cur := rows.cur.set (j.val + 1) d }

/-- The outer loop: a row, and the two swaps. -/
def editRow (rows : Rows b.length) (i : Fin a.length) : Rows b.length :=
  let rows := { rows with cur := rows.cur.set 0 (i.val + 1) }
  let rows := Fin.foldl b.length (editCell a b i) rows
  ⟨rows.prev, rows.cur, rows.beforePrev⟩

/-- `edit_distance`: the optimal string alignment distance. -/
def editDistance : Nat :=
  let rows : Rows b.length :=
    ⟨Vector.replicate _ 0, Vector.ofFn fun j => j.val, Vector.replicate _ 0⟩
  (Fin.foldl a.length (editRow a b) rows).prev[b.length]

/-- `suggest`: the closest candidate, the first of them, if it is close enough for a typo. -/
def suggest (input : String) (candidates : List String) : Option String :=
  let trimmed := String.ofList (input.toList.dropWhile fun c => c == '-')
  let limit := max ((utf8 trimmed).length / 3) 1
  let distances := candidates.map fun c => (editDistance (utf8 input) (utf8 c), c)
  ((distances.filter fun (d, _) => d ≤ limit).argmin Prod.fst).map Prod.snd

theorem mem_of_suggest {input flag : String} {candidates : List String}
    (h : suggest input candidates = some flag) : flag ∈ candidates := by
  obtain ⟨⟨d, c⟩, hargmin, rfl⟩ := Option.map_eq_some_iff.mp h
  have hmem := List.mem_of_mem_filter (List.argmin_mem hargmin)
  obtain ⟨c', hc', heq⟩ := List.mem_map.mp hmem
  obtain rfl : c' = c := congrArg Prod.snd heq
  exact hc'

/-- A transposition is one edit. -/
example : suggest "--kye" ["--key", "--in"] = some "--key" := by decide +kernel

/-! ## The scan -/

section Scan

variable (args valueFlags boolFlags : List String)

/-- `str::starts_with`. -/
def startsWith (front s : String) : Bool := front.toList.isPrefixOf s.toList

/-- The name in a token, and the value in it if it is `--name=value`. -/
def splitName (token : String) : String × Option String :=
  match splitOnce '=' token with
  | some (n, v) => if startsWith "--" n then (n, some v) else (token, none)
  | none => (token, none)

/-- The value of its own argument, empty if there is none. -/
def separateValue (i : Nat) : String :=
  match args[i]? with
  | some v => if !startsWith "--" v then v else ""
  | none => ""

/-- A turn of the loop at position `i`, and the next position. -/
def turn (i : Nat) (self : ArgScanner) : Outcome ArgError (Nat × ArgScanner) :=
  match args[i]? with
  | none => .panic
  | some token =>
    let (name, inline) := splitName token
    match boolFlags.find? (· == name) with
    | some flag =>
      if inline.isSome then .err (.flagTakesNoValue flag)
      else if self.flags flag = some true then .err (.repeatedFlag flag)
      else .ok (i + 1, { self with flags := Function.update self.flags flag (some true) })
    | none =>
      match valueFlags.find? (· == name) with
      | some flag =>
        let (value, i) := match inline with
          | some v => (v, i + 1)
          | none => (separateValue args (i + 2 - 1), i + 2)
        if value = "" then .err (.missingValue flag)
        else if (self.values flag).isSome then .err (.repeatedFlag flag)
        else .ok (i, { self with values := Function.update self.values flag (some value) })
      | none =>
        if startsWith "-" token then
          .err (.unknownFlag name (suggest name (valueFlags ++ boolFlags ++ ["--help"])))
        else .err (.unexpectedArgument token)

end Scan

/-! ## The grammar -/

/-- What the scan takes in one turn. -/
inductive ArgUnit where
  | boolFlag (f : String)
  | inline (f v : String)
  | separate (f v : String)
  deriving DecidableEq, Repr

namespace ArgUnit

def tokens : ArgUnit → List String
  | boolFlag f => [f]
  | inline f v => [f ++ "=" ++ v]
  | separate f v => [f, v]

def name : ArgUnit → String
  | boolFlag f | inline f _ | separate f _ => f

def value : ArgUnit → Option String
  | boolFlag _ => none
  | inline _ v | separate _ v => some v

/-- A unit of the grammar. -/
def Valid (valueFlags boolFlags : List String) : ArgUnit → Prop
  | boolFlag f => f ∈ boolFlags
  | inline f v => f ∈ valueFlags ∧ v ≠ ""
  | separate f v => f ∈ valueFlags ∧ v ≠ "" ∧ ¬startsWith "--" v

end ArgUnit

open ArgUnit

/-- The flags of a command. -/
structure FlagLists (valueFlags boolFlags : List String) : Prop where
  disjoint : valueFlags.Disjoint boolFlags
  dashes : ∀ f ∈ valueFlags ++ boolFlags, startsWith "--" f
  noEquals : ∀ f ∈ valueFlags ++ boolFlags, '=' ∉ f.toList

/-- The units of an argument vector. -/
structure Parses (valueFlags boolFlags args : List String) (units : List ArgUnit) : Prop where
  tokens : args = units.flatMap ArgUnit.tokens
  valid : ∀ u ∈ units, u.Valid valueFlags boolFlags
  nodup : (units.map name).Nodup

/-- The unit's flag is not set yet. -/
def Fresh (self : ArgScanner) (u : ArgUnit) : Prop :=
  match u.value with
  | none => self.flags u.name ≠ some true
  | some _ => self.values u.name = none

/-- The flag of the unit is set. -/
def take (self : ArgScanner) (u : ArgUnit) : ArgScanner :=
  match u.value with
  | none => { self with flags := Function.update self.flags u.name (some true) }
  | some v => { self with values := Function.update self.values u.name (some v) }

theorem tokens_ne_nil (u : ArgUnit) : u.tokens ≠ [] := by
  cases u <;> exact List.cons_ne_nil _ _

section Turn

variable {args valueFlags boolFlags : List String} {i i' : Nat} {self self' : ArgScanner}

theorem find?_beq (l : List String) (x : String) :
    l.find? (· == x) = if x ∈ l then some x else none := by
  split
  · rename_i h
    cases hfind : l.find? (· == x) with
    | none => exact absurd (List.find?_eq_none.mp hfind x h) (by simp)
    | some y =>
      have hy : y = x := by simpa using List.find?_some hfind
      rw [hy]
  · rename_i h
    refine List.find?_eq_none.mpr fun y hy => ?_
    rw [beq_iff_eq]
    rintro rfl
    exact h hy

theorem splitName_of_none {token name : String} (h : splitName token = (name, none)) :
    name = token := by
  rw [splitName] at h
  split at h
  · split at h
    · cases h
    · exact (Prod.mk.inj h).1.symm
  · exact (Prod.mk.inj h).1.symm

theorem splitName_of_some {token name v : String} (h : splitName token = (name, some v)) :
    token = name ++ "=" ++ v := by
  rw [splitName] at h
  split at h
  · rename_i hsplit
    split at h
    · obtain ⟨rfl, hv⟩ := Prod.mk.inj h
      rw [(splitOnce_eq_some_iff.mp hsplit).1, Option.some.inj hv]
      rfl
    · cases h
  · cases h

theorem splitName_self {name : String} (h : '=' ∉ name.toList) :
    splitName name = (name, none) := by
  rw [splitName, splitOnce_eq_none_iff.mpr h]

theorem splitName_inline {name : String} (hdashes : startsWith "--" name)
    (h : '=' ∉ name.toList) (v : String) : splitName (name ++ "=" ++ v) = (name, some v) := by
  have hsplit : splitOnce '=' (name ++ "=" ++ v) = some (name, v) :=
    splitOnce_eq_some_iff.mpr ⟨rfl, h⟩
  rw [splitName, hsplit]
  dsimp only
  rw [if_pos hdashes]

theorem separateValue_eq {v : String} (hv : v ≠ "") :
    separateValue args i = v ↔ args[i]? = some v ∧ ¬startsWith "--" v := by
  rw [separateValue]
  cases args[i]? with
  | none =>
    refine ⟨fun h => absurd h.symm hv, ?_⟩
    rintro ⟨h, -⟩
    cases h
  | some w =>
    dsimp only
    rw [Option.some.injEq]
    split
    · rename_i hw
      rw [Bool.not_eq_true'] at hw
      constructor
      · rintro rfl
        exact ⟨rfl, by simp [hw]⟩
      · exact fun h => h.1
    · rename_i hw
      rw [Bool.not_eq_true', Bool.not_eq_false] at hw
      refine ⟨fun h => absurd h.symm hv, ?_⟩
      rintro ⟨rfl, h⟩
      exact absurd hw h

theorem cons_prefix_drop {token : String} {tokens : List String} :
    token :: tokens <+: args.drop i ↔ args[i]? = some token ∧ tokens <+: args.drop (i + 1) := by
  rw [← List.drop_drop, ← List.head?_drop]
  cases args.drop i with
  | nil => simp
  | cons x rest =>
    rw [List.cons_prefix_cons, List.head?_cons, Option.some.injEq, List.drop_one, List.tail_cons,
      eq_comm]

theorem turn_of_mem_boolFlags {token name : String} {inline : Option String}
    (htoken : args[i]? = some token) (hname : splitName token = (name, inline))
    (hmem : name ∈ boolFlags) :
    turn args valueFlags boolFlags i self = if inline.isSome then .err (.flagTakesNoValue name)
      else if self.flags name = some true then .err (.repeatedFlag name)
      else .ok (i + 1, self.take (.boolFlag name)) := by
  rw [turn, htoken]
  dsimp only
  rw [hname, find?_beq, if_pos hmem]
  rfl

/-- What is left of a turn once the value is known. -/
theorem turn_of_mem_valueFlags {token name : String} {inline : Option String}
    (htoken : args[i]? = some token) (hname : splitName token = (name, inline))
    (hbool : name ∉ boolFlags) (hmem : name ∈ valueFlags) :
    turn args valueFlags boolFlags i self =
      let value := inline.getD (separateValue args (i + 1))
      if value = "" then .err (.missingValue name)
      else if (self.values name).isSome then .err (.repeatedFlag name)
      else .ok (i + (if inline.isSome then 1 else 2), self.take (.inline name value)) := by
  rw [turn, htoken]
  dsimp only
  rw [hname, find?_beq, if_neg hbool]
  dsimp only
  rw [find?_beq, if_pos hmem]
  cases inline <;> rfl

theorem exists_error_of_not_mem {token name : String} {inline : Option String}
    (htoken : args[i]? = some token) (hname : splitName token = (name, inline))
    (hbool : name ∉ boolFlags) (hvalue : name ∉ valueFlags) :
    ∃ e, turn args valueFlags boolFlags i self = .err e := by
  rw [turn, htoken]
  dsimp only
  rw [hname, find?_beq, if_neg hbool]
  dsimp only
  rw [find?_beq, if_neg hvalue]
  dsimp only
  split
  · exact ⟨_, rfl⟩
  · exact ⟨_, rfl⟩

/-- A turn takes a unit of the grammar whose flag is not set yet. -/
theorem exists_unit_of_turn (h : turn args valueFlags boolFlags i self = .ok (i', self')) :
    ∃ u : ArgUnit, u.Valid valueFlags boolFlags ∧ u.tokens <+: args.drop i ∧ self.Fresh u
      ∧ i' = i + u.tokens.length ∧ self' = self.take u := by
  cases htoken : args[i]? with
  | none =>
    rw [turn, htoken] at h
    cases h
  | some token =>
    obtain ⟨name, inline, hname⟩ : ∃ name inline, splitName token = (name, inline) := ⟨_, _, rfl⟩
    by_cases hbool : name ∈ boolFlags
    · rw [turn_of_mem_boolFlags htoken hname hbool] at h
      split at h
      · cases h
      · rename_i hinline
        split at h
        · cases h
        · rename_i hfresh
          rw [Option.not_isSome_iff_eq_none] at hinline
          subst hinline
          obtain rfl := splitName_of_none hname
          cases h
          exact ⟨.boolFlag name, hbool, cons_prefix_drop.mpr ⟨htoken, List.nil_prefix⟩, hfresh,
            rfl, rfl⟩
    · by_cases hvalue : name ∈ valueFlags
      · rw [turn_of_mem_valueFlags htoken hname hbool hvalue] at h
        dsimp only at h
        split at h
        · cases h
        · rename_i hne
          split at h
          · cases h
          · rename_i hfresh
            rw [Option.not_isSome_iff_eq_none] at hfresh
            cases h
            cases inline with
            | some v =>
              obtain rfl := splitName_of_some hname
              exact ⟨.inline name v, ⟨hvalue, hne⟩,
                cons_prefix_drop.mpr ⟨htoken, List.nil_prefix⟩, hfresh, rfl, rfl⟩
            | none =>
              obtain rfl := splitName_of_none hname
              obtain ⟨hnext, hdashes⟩ := (separateValue_eq hne).mp rfl
              exact ⟨.separate name _, ⟨hvalue, hne, hdashes⟩,
                cons_prefix_drop.mpr ⟨htoken, cons_prefix_drop.mpr ⟨hnext, List.nil_prefix⟩⟩,
                hfresh, rfl, rfl⟩
      · obtain ⟨e, herr⟩ := exists_error_of_not_mem htoken hname hbool hvalue
        rw [herr] at h
        cases h

/-- Everything that a turn can take. -/
theorem turn_eq_ok_iff (hflags : FlagLists valueFlags boolFlags) :
    turn args valueFlags boolFlags i self = .ok (i', self')
      ↔ ∃ u : ArgUnit, u.Valid valueFlags boolFlags ∧ u.tokens <+: args.drop i ∧ self.Fresh u
        ∧ i' = i + u.tokens.length ∧ self' = self.take u := by
  refine ⟨exists_unit_of_turn, ?_⟩
  have hdashes {f : String} (h : f ∈ valueFlags) : startsWith "--" f :=
    hflags.dashes f (List.mem_append_left boolFlags h)
  have hequals {f : String} (h : f ∈ valueFlags) : '=' ∉ f.toList :=
    hflags.noEquals f (List.mem_append_left boolFlags h)
  rintro ⟨u, hvalid, htokens, hfresh, rfl, rfl⟩
  cases u with
  | boolFlag f =>
    obtain ⟨htoken, -⟩ := cons_prefix_drop.mp htokens
    have hname := splitName_self (hflags.noEquals f (List.mem_append_right valueFlags hvalid))
    have hset : ¬self.flags f = some true := hfresh
    rw [turn_of_mem_boolFlags htoken hname hvalid, if_neg nofun, if_neg hset]
    rfl
  | inline f v =>
    obtain ⟨hmem, hne⟩ := hvalid
    obtain ⟨htoken, -⟩ := cons_prefix_drop.mp htokens
    have hname := splitName_inline (hdashes hmem) (hequals hmem) v
    have hset : ¬(self.values f).isSome := Option.not_isSome_iff_eq_none.mpr hfresh
    rw [turn_of_mem_valueFlags htoken hname (hflags.disjoint hmem) hmem]
    dsimp only
    rw [Option.getD_some, if_neg hne, if_neg hset]
    rfl
  | separate f v =>
    obtain ⟨hmem, hne, hvalue⟩ := hvalid
    obtain ⟨htoken, hnext⟩ := cons_prefix_drop.mp htokens
    obtain ⟨hnext, -⟩ := cons_prefix_drop.mp hnext
    have hname := splitName_self (hequals hmem)
    have hset : ¬(self.values f).isSome := Option.not_isSome_iff_eq_none.mpr hfresh
    rw [turn_of_mem_valueFlags htoken hname (hflags.disjoint hmem) hmem]
    dsimp only
    rw [Option.getD_none, (separateValue_eq hne).mpr ⟨hnext, hvalue⟩, if_neg hne, if_neg hset]
    rfl

theorem turn_lt (h : turn args valueFlags boolFlags i self = .ok (i', self')) : i < i' := by
  obtain ⟨u, -, -, -, rfl, -⟩ := exists_unit_of_turn h
  have hpos := List.length_pos_iff.mpr (tokens_ne_nil u)
  omega

/-- Within the arguments a turn finds its token. -/
theorem turn_ne_panic (hi : i < args.length) :
    turn args valueFlags boolFlags i self ≠ .panic := by
  intro h
  have htoken := List.getElem?_eq_getElem hi
  obtain ⟨name, inline, hname⟩ : ∃ name inline, splitName args[i] = (name, inline) := ⟨_, _, rfl⟩
  by_cases hbool : name ∈ boolFlags
  · rw [turn_of_mem_boolFlags htoken hname hbool] at h
    split at h
    · cases h
    · split at h <;> cases h
  · by_cases hvalue : name ∈ valueFlags
    · rw [turn_of_mem_valueFlags htoken hname hbool hvalue] at h
      dsimp only at h
      split at h
      · cases h
      · split at h <;> cases h
    · obtain ⟨e, herr⟩ := exists_error_of_not_mem htoken hname hbool hvalue
      rw [herr] at h
      cases h

end Turn

/-! ## The whole scan -/

section Scan

variable (args valueFlags boolFlags : List String)

/-- The loop of `scan` from position `i` on. -/
def scanLoop (i : Nat) (self : ArgScanner) : Outcome ArgError ArgScanner :=
  if i < args.length then
    match h : turn args valueFlags boolFlags i self with
    | .ok (i', self') => scanLoop i' self'
    | .err e => .err e
    | .panic => .panic
  else .ok self
termination_by args.length - i
decreasing_by
  have := turn_lt h
  omega

/-- The maps before the loop. -/
def start : ArgScanner :=
  ⟨fun _ => none, fun f => if f ∈ boolFlags then some false else none⟩

/-- `ArgScanner::scan`. -/
def scan : Outcome ArgError ArgScanner :=
  scanLoop args valueFlags boolFlags 0 (start boolFlags)

end Scan

section Runs

variable {args valueFlags boolFlags : List String} {i : Nat} {self self' : ArgScanner}
  {u v : ArgUnit} {units units' : List ArgUnit}

theorem mem_of_value_eq_none (hu : u.Valid valueFlags boolFlags) (h : u.value = none) :
    u.name ∈ boolFlags := by
  cases u with
  | boolFlag f => exact hu
  | inline f w => cases h
  | separate f w => cases h

theorem mem_of_value_eq_some {w : String} (hu : u.Valid valueFlags boolFlags)
    (h : u.value = some w) : u.name ∈ valueFlags := by
  cases u with
  | boolFlag f => cases h
  | inline f w => exact hu.1
  | separate f w => exact hu.1

/-- After a unit the flags that are not set are those of other names. -/
theorem fresh_take_iff (hflags : FlagLists valueFlags boolFlags)
    (hu : u.Valid valueFlags boolFlags) (hv : v.Valid valueFlags boolFlags) :
    (self.take u).Fresh v ↔ self.Fresh v ∧ u.name ≠ v.name := by
  rw [take, Fresh, Fresh]
  cases hvalue : u.value with
  | none =>
    have hname := mem_of_value_eq_none hu hvalue
    cases hvalue' : v.value with
    | none =>
      by_cases h : u.name = v.name
      · simp [h]
      · simp [h, Function.update_of_ne (Ne.symm h)]
    | some w =>
      have hne : u.name ≠ v.name := fun h =>
        hflags.disjoint (mem_of_value_eq_some hv hvalue') (h ▸ hname)
      simp [hne]
  | some w =>
    have hname := mem_of_value_eq_some hu hvalue
    cases hvalue' : v.value with
    | none =>
      have hne : u.name ≠ v.name := fun h =>
        hflags.disjoint hname (h ▸ mem_of_value_eq_none hv hvalue')
      simp [hne]
    | some w' =>
      by_cases h : u.name = v.name
      · simp [h]
      · simp [h, Function.update_of_ne (Ne.symm h)]

theorem scanLoop_of_turn {i' : Nat} (h : turn args valueFlags boolFlags i self = .ok (i', self'))
    (hi : i < args.length) :
    scanLoop args valueFlags boolFlags i self = scanLoop args valueFlags boolFlags i' self' := by
  rw [scanLoop, if_pos hi]
  split
  · rename_i heq
    rw [h] at heq
    cases heq
    rfl
  · rename_i heq
    rw [h] at heq
    cases heq
  · rename_i heq
    rw [h] at heq
    cases heq

theorem scanLoop_of_err {e : ArgError} (h : turn args valueFlags boolFlags i self = .err e)
    (hi : i < args.length) : scanLoop args valueFlags boolFlags i self = .err e := by
  rw [scanLoop, if_pos hi]
  split
  · rename_i heq
    rw [h] at heq
    cases heq
  · rename_i heq
    rw [h] at heq
    cases heq
    rfl
  · rename_i heq
    rw [h] at heq
    cases heq

theorem parses_cons_iff : Parses valueFlags boolFlags args (u :: units)
    ↔ u.Valid valueFlags boolFlags ∧ u.tokens <+: args
      ∧ Parses valueFlags boolFlags (args.drop u.tokens.length) units
      ∧ ∀ v ∈ units, u.name ≠ v.name := by
  constructor
  · rintro ⟨htokens, hvalid, hnodup⟩
    obtain ⟨hu, hunits⟩ := List.forall_mem_cons.mp hvalid
    rw [List.map_cons, List.nodup_cons] at hnodup
    rw [List.flatMap_cons] at htokens
    refine ⟨hu, ⟨_, htokens.symm⟩, ⟨?_, hunits, hnodup.2⟩, fun v hv h => hnodup.1 ?_⟩
    · rw [htokens, List.drop_left]
    · rw [h]
      exact List.mem_map_of_mem hv
  · rintro ⟨hu, ⟨rest, hrest⟩, ⟨htokens, hunits, hnodup⟩, hne⟩
    rw [← hrest, List.drop_left] at htokens
    refine ⟨by rw [List.flatMap_cons, ← htokens, hrest], List.forall_mem_cons.mpr ⟨hu, hunits⟩, ?_⟩
    rw [List.map_cons, List.nodup_cons, List.mem_map]
    refine ⟨?_, hnodup⟩
    rintro ⟨v, hv, h⟩
    exact hne v hv h.symm

theorem exists_units_of_scanLoop (hflags : FlagLists valueFlags boolFlags)
    (h : scanLoop args valueFlags boolFlags i self = .ok self') :
    ∃ units, Parses valueFlags boolFlags (args.drop i) units ∧ (∀ u ∈ units, self.Fresh u)
      ∧ self' = units.foldl take self := by
  -- the induction is on the number of arguments that are left
  induction hleft : args.length - i using Nat.strong_induction_on generalizing i self with
  | _ left ih =>
  by_cases hi : i < args.length
  · cases hturn : turn args valueFlags boolFlags i self with
    | ok next =>
      obtain ⟨i', next⟩ := next
      have hlt := turn_lt hturn
      rw [scanLoop_of_turn hturn hi] at h
      obtain ⟨units, hparses, hfresh, hself⟩ := ih (args.length - i') (by omega) h rfl
      obtain ⟨u, hu, htokens, hfreshu, rfl, rfl⟩ := exists_unit_of_turn hturn
      have hunits (v) (hv : v ∈ units) : self.Fresh v ∧ u.name ≠ v.name :=
        (fresh_take_iff hflags hu (hparses.valid v hv)).mp (hfresh v hv)
      refine ⟨u :: units, parses_cons_iff.mpr ⟨hu, htokens, ?_, fun v hv => (hunits v hv).2⟩,
        List.forall_mem_cons.mpr ⟨hfreshu, fun v hv => (hunits v hv).1⟩, hself⟩
      rw [List.drop_drop]
      exact hparses
    | err e =>
      rw [scanLoop_of_err hturn hi] at h
      cases h
    | panic => exact absurd hturn (turn_ne_panic hi)
  · rw [scanLoop, if_neg hi] at h
    cases h
    refine ⟨[], ⟨?_, nofun, List.nodup_nil⟩, nofun, rfl⟩
    exact List.drop_eq_nil_of_le (Nat.le_of_not_lt hi)

/-- The whole scan, from any position on. -/
theorem scanLoop_eq_ok_iff (hflags : FlagLists valueFlags boolFlags) :
    scanLoop args valueFlags boolFlags i self = .ok self'
      ↔ ∃ units, Parses valueFlags boolFlags (args.drop i) units ∧ (∀ u ∈ units, self.Fresh u)
        ∧ self' = units.foldl take self := by
  refine ⟨exists_units_of_scanLoop hflags, ?_⟩
  rintro ⟨units, hparses, hfresh, rfl⟩
  induction units generalizing i self with
  | nil =>
    have hend : args.length ≤ i := List.drop_eq_nil_iff.mp hparses.tokens
    rw [scanLoop, if_neg (Nat.not_lt.mpr hend)]
    rfl
  | cons u units ih =>
    obtain ⟨hu, htokens, hunits, hne⟩ := parses_cons_iff.mp hparses
    obtain ⟨hfreshu, hfreshs⟩ := List.forall_mem_cons.mp hfresh
    have hturn := (turn_eq_ok_iff hflags).mpr ⟨u, hu, htokens, hfreshu, rfl, rfl⟩
    have hi : i < args.length := by
      have hlen := htokens.length_le
      have hpos := List.length_pos_iff.mpr (tokens_ne_nil u)
      rw [List.length_drop] at hlen
      omega
    rw [List.drop_drop] at hunits
    rw [scanLoop_of_turn hturn hi, ih hunits]
    · rfl
    · exact fun v hv => (fresh_take_iff hflags hu (hunits.valid v hv)).mpr
        ⟨hfreshs v hv, hne v hv⟩

theorem scanLoop_ne_panic : scanLoop args valueFlags boolFlags i self ≠ .panic := by
  induction hleft : args.length - i using Nat.strong_induction_on generalizing i self with
  | _ left ih =>
  by_cases hi : i < args.length
  · cases hturn : turn args valueFlags boolFlags i self with
    | ok next =>
      have hlt := turn_lt hturn
      rw [scanLoop_of_turn hturn hi]
      exact ih (args.length - next.1) (by omega) rfl
    | err e =>
      rw [scanLoop_of_err hturn hi]
      nofun
    | panic => exact absurd hturn (turn_ne_panic hi)
  · rw [scanLoop, if_neg hi]
    nofun

/-! ## What the maps hold -/

/-- The maps hold the values and the flags of the units, and every other bool flag as unset. -/
structure Holds (boolFlags : List String) (units : List ArgUnit) (maps : ArgScanner) : Prop where
  values : ∀ f v, maps.values f = some v ↔ .inline f v ∈ units ∨ .separate f v ∈ units
  flags : ∀ f, maps.flags f =
    if .boolFlag f ∈ units then some true else if f ∈ boolFlags then some false else none

theorem Holds.unique (h : Holds boolFlags units self) (h' : Holds boolFlags units' self')
    (hperm : units.Perm units') : self = self' := by
  ext f : 2
  · ext v
    rw [h.values, h'.values, hperm.mem_iff, hperm.mem_iff]
  · rw [h.flags, h'.flags]
    simp only [hperm.mem_iff]

theorem values_take_eq_some_iff (hfresh : self.Fresh u) {f w : String} :
    (self.take u).values f = some w
      ↔ (.inline f w = u ∨ .separate f w = u) ∨ self.values f = some w := by
  have hset {g x : String} (hg : self.values g = none) :
      Function.update self.values g (some x) f = some w
        ↔ (f = g ∧ w = x) ∨ self.values f = some w := by
    by_cases h : f = g
    · rw [h, Function.update_self, Option.some.injEq, hg]
      simp [eq_comm]
    · rw [Function.update_of_ne h]
      simp [h]
  cases u with
  | boolFlag g => simp [take, value]
  | inline g x => simpa [take, value, name] using hset hfresh
  | separate g x => simpa [take, value, name] using hset hfresh

theorem flags_take (f : String) :
    (self.take u).flags f = if .boolFlag f = u then some true else self.flags f := by
  cases u with
  | boolFlag g =>
    by_cases h : f = g
    · simp [take, value, name, h]
    · simp [take, value, name, h]
  | inline g x => simp [take, value]
  | separate g x => simp [take, value]

theorem values_foldl_take (hflags : FlagLists valueFlags boolFlags)
    (hparses : Parses valueFlags boolFlags args units) (hfresh : ∀ u ∈ units, self.Fresh u)
    {f w : String} : (units.foldl take self).values f = some w
      ↔ (.inline f w ∈ units ∨ .separate f w ∈ units) ∨ self.values f = some w := by
  induction units generalizing self args with
  | nil => simp
  | cons u units ih =>
    obtain ⟨hu, -, hunits, hne⟩ := parses_cons_iff.mp hparses
    obtain ⟨hfreshu, hfreshs⟩ := List.forall_mem_cons.mp hfresh
    have hrest (v) (hv : v ∈ units) : (self.take u).Fresh v :=
      (fresh_take_iff hflags hu (hunits.valid v hv)).mpr ⟨hfreshs v hv, hne v hv⟩
    rw [List.foldl_cons, ih hunits hrest, values_take_eq_some_iff hfreshu, List.mem_cons,
      List.mem_cons]
    tauto

theorem flags_foldl_take (f : String) : (units.foldl take self).flags f =
    if .boolFlag f ∈ units then some true else self.flags f := by
  induction units generalizing self with
  | nil => rfl
  | cons u units ih =>
    rw [List.foldl_cons, ih, flags_take]
    simp only [List.mem_cons]
    by_cases hu : ArgUnit.boolFlag f = u
    · simp [hu]
    · simp [hu]

theorem fresh_start (u : ArgUnit) : (start boolFlags).Fresh u := by
  rw [Fresh]
  cases u.value with
  | none =>
    dsimp only [start]
    split <;> nofun
  | some v => rfl

theorem scan_eq_ok_iff (hflags : FlagLists valueFlags boolFlags) {maps : ArgScanner} :
    scan args valueFlags boolFlags = .ok maps
      ↔ ∃ units, Parses valueFlags boolFlags args units
        ∧ maps = units.foldl take (start boolFlags) := by
  rw [scan, scanLoop_eq_ok_iff hflags, List.drop_zero]
  refine exists_congr fun units => and_congr_right fun _ => ?_
  exact and_iff_right fun u _ => fresh_start u

theorem Parses.holds (hflags : FlagLists valueFlags boolFlags)
    (hparses : Parses valueFlags boolFlags args units) :
    (units.foldl take (start boolFlags)).Holds boolFlags units := by
  refine ⟨fun f v => ?_, fun f => flags_foldl_take f⟩
  rw [values_foldl_take hflags hparses fun u _ => fresh_start u]
  exact or_iff_left nofun

theorem Parses.perm (hparses : Parses valueFlags boolFlags args units)
    (hperm : units.Perm units') :
    Parses valueFlags boolFlags (units'.flatMap ArgUnit.tokens) units' := by
  refine ⟨rfl, fun u hu => hparses.valid u (hperm.mem_iff.mpr hu), ?_⟩
  exact (hperm.map name).nodup_iff.mp hparses.nodup

/-- **The scan accepts exactly its grammar**, and the order of the units is nothing to it. -/
theorem scan_accepts_grammar (hflags : FlagLists valueFlags boolFlags) (args : List String) :
    (∀ i self i' self', turn args valueFlags boolFlags i self = .ok (i', self') → i < i')
      ∧ scan args valueFlags boolFlags ≠ .panic
      ∧ ((∃ maps, scan args valueFlags boolFlags = .ok maps)
        ↔ ∃ units, Parses valueFlags boolFlags args units)
      ∧ ∀ units, Parses valueFlags boolFlags args units →
        ∃ maps, scan args valueFlags boolFlags = .ok maps ∧ maps.Holds boolFlags units
          ∧ ∀ units', units.Perm units' →
            scan (units'.flatMap tokens) valueFlags boolFlags = .ok maps := by
  refine ⟨fun i self i' self' h => turn_lt h, scanLoop_ne_panic, ⟨?_, ?_⟩, ?_⟩
  · rintro ⟨maps, h⟩
    obtain ⟨units, hparses, -⟩ := (scan_eq_ok_iff hflags).mp h
    exact ⟨units, hparses⟩
  · rintro ⟨units, hparses⟩
    exact ⟨_, (scan_eq_ok_iff hflags).mpr ⟨units, hparses, rfl⟩⟩
  · intro units hparses
    refine ⟨_, (scan_eq_ok_iff hflags).mpr ⟨units, hparses, rfl⟩, hparses.holds hflags, ?_⟩
    intro units' hperm
    have hparses' := hparses.perm hperm
    rw [(hparses.holds hflags).unique (hparses'.holds hflags) hperm]
    exact (scan_eq_ok_iff hflags).mpr ⟨units', hparses', rfl⟩

theorem scan_accepts_grammar_in_out :
    ∃ maps, scan ["--out", "b", "--raw", "--in=-a=b"] ["--in", "--out"] ["--raw"] = .ok maps
      ∧ scan ["--raw", "--in=-a=b", "--out", "b"] ["--in", "--out"] ["--raw"] = .ok maps := by
  have hflags : FlagLists ["--in", "--out"] ["--raw"] := ⟨by simp, by decide, by decide⟩
  have hparses : Parses ["--in", "--out"] ["--raw"] ["--out", "b", "--raw", "--in=-a=b"]
      [.separate "--out" "b", .boolFlag "--raw", .inline "--in" "-a=b"] := by
    refine ⟨rfl, ?_, by decide⟩
    rw [List.forall_mem_cons, List.forall_mem_cons, List.forall_mem_singleton]
    exact ⟨⟨by decide, by decide, by decide⟩, by simp [Valid], by simp [Valid]⟩
  obtain ⟨maps, hscan, -, hperm⟩ := (scan_accepts_grammar hflags _).2.2.2 _ hparses
  exact ⟨maps, hscan,
    hperm [.boolFlag "--raw", .inline "--in" "-a=b", .separate "--out" "b"] (by decide)⟩

end Runs

end ArgScanner

end UaCrypt.Cli
