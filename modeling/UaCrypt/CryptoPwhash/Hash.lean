import Mathlib.Data.List.Perm.Basic
import UaCrypt.Lib.Chunks

/-!
# Password hashing (`crypto_pwhash.rs`)

Argon2id under three fixed strengths, and the check of a stored hash whose parameters come
from the hash itself. The `argon2` and `password_hash` crates are not part of the source:
`Argon2` is what is called of them, and whether memory can be reserved is an argument.

- `phcCosts_eq_some_iff`: the costs are read in any order, each exactly once.
- `verifyPassword_iff`: what `verify_password` accepts, and that no more than 1 GiB is asked
  for on the way.
- `hash_verifies`: a hash of any strength is within what is accepted, and the passwords it
  accepts are those with its tag.
-/

namespace UaCrypt.CryptoPwhash

inductive Strength where
  | interactive
  | moderate
  | sensitive
  deriving DecidableEq, Repr

/-- `argon2::Algorithm`, without the Argon2d that is never used. -/
inductive Algorithm where
  | argon2i
  | argon2id
  deriving DecidableEq, Repr

/-- `Algorithm::ident`. -/
def Algorithm.ident : Algorithm → String
  | .argon2i => "argon2i"
  | .argon2id => "argon2id"

/-- `argon2::Params`, as far as it is used. -/
structure Params where
  mCost : UInt32
  tCost : UInt32
  pCost : UInt32
  outputLen : Option Nat
  deriving DecidableEq, Repr

namespace Strength

def mAndTCost : Strength → UInt32 × UInt32
  | interactive => (65536, 2)
  | moderate => (262144, 3)
  | sensitive => (1048576, 4)

/-- `Strength::params`; that `Params::new` takes them is checked when the crate is built. -/
def params (s : Strength) : Params := ⟨s.mAndTCost.1, s.mAndTCost.2, 1, none⟩

def cost (s : Strength) : UInt32 × UInt32 × UInt32 := (s.mAndTCost.1, s.mAndTCost.2, 1)

def fromCost (mCost tCost pCost : UInt32) : Option Strength :=
  [interactive, moderate, sensitive].find? fun s => s.cost = (mCost, tCost, pCost)

/-- `from_cost` inverts `cost`. -/
theorem fromCost_eq_some_iff {m t p : UInt32} {s : Strength} :
    fromCost m t p = some s ↔ s.cost = (m, t, p) := by
  constructor
  · intro h
    simpa using List.find?_some h
  · intro h
    rw [fromCost, ← h]
    cases s <;> rfl

end Strength

/-- `SALT_BYTES`. -/
@[reducible] def saltBytes : Nat := 16

/-- `KEY_BYTES`. -/
@[reducible] def keyBytes : Nat := 32

/-- `Params::DEFAULT_OUTPUT_LEN`. -/
@[reducible] def defaultOutputLen : Nat := 32

/-- `Params::MAX_P_COST`. -/
def maxPCost : UInt32 := 0xFFFFFF

inductive PwHashError where
  | random (message : String)
  | hash (message : String)
  | outOfMemory
  | derive (message : String)
  deriving DecidableEq, Repr

/-- What is called of `argon2`. -/
structure Argon2 where
  /-- Whether `Params::new` takes these. -/
  valid : Params → Bool
  blockCount : Params → Nat
  /-- `hash_password_into_with_memory`, with the length of `out`. -/
  hashInto : Algorithm → Params → List UInt8 → List UInt8 → (n : Nat) →
    Except String (Vector UInt8 n)

/-- A parsed PHC string: each parameter with what `decimal` makes of its value, the salt with
what `decode_b64` makes of it. -/
structure PasswordHash where
  algorithm : String
  version : Option UInt32
  params : List (String × Option UInt32)
  salt : Option (Option (List UInt8))
  hash : Option (List UInt8)

/-- `PasswordHash::new` and `to_string`. -/
structure PhcFormat where
  parse : String → Option PasswordHash
  toString : PasswordHash → String

section

variable (argon2 : Argon2) (reserve : Nat → Bool)

/-- `hash_into_reserved_memory`; `reserve` is the allocator's answer. -/
def hashIntoReservedMemory (algorithm : Algorithm) (params : Params) (password salt : List UInt8)
    (n : Nat) : Except PwHashError (Vector UInt8 n) :=
  if reserve (argon2.blockCount params) then
    match argon2.hashInto algorithm params password salt n with
    | .ok out => .ok out
    | .error e => .error (.derive e)
  else .error .outOfMemory

def deriveKey (password : List UInt8) (salt : Vector UInt8 saltBytes) (strength : Strength) :
    Except PwHashError (Vector UInt8 keyBytes) :=
  hashIntoReservedMemory argon2 reserve .argon2id strength.params password salt.toList keyBytes

/-- `hash_with_salt`. The salt and the tag have lengths that the PHC types take. -/
def hashWithSalt (format : PhcFormat) (password : List UInt8) (salt : Vector UInt8 saltBytes)
    (strength : Strength) : Except PwHashError String :=
  match hashIntoReservedMemory argon2 reserve .argon2id strength.params password salt.toList
    defaultOutputLen with
  | .error (.derive e) => .error (.hash e)
  | .error e => .error e
  | .ok tag => .ok (format.toString
    { algorithm := Algorithm.ident .argon2id
      version := some 0x13
      params := [("m", some strength.params.mCost), ("t", some strength.params.tCost),
        ("p", some strength.params.pCost)]
      salt := some (some salt.toList)
      hash := some tag.toList })

/-- `hash_password`; the salt is drawn. -/
def hashPassword (format : PhcFormat) (drawn : Except String (Vector UInt8 saltBytes))
    (password : List UInt8) (strength : Strength) : Except PwHashError String :=
  match drawn with
  | .error e => .error (.random e)
  | .ok salt => hashWithSalt argon2 reserve format password salt strength

end

/-! ## Verifying -/

/-- The local variables of `phc_costs`. -/
structure CostSlots where
  m : Option UInt32
  t : Option UInt32
  p : Option UInt32
  deriving DecidableEq, Repr

/-- One round of the loop of `phc_costs`: the slot is looked up, the value read, and a slot
that was filled already is refused. -/
def CostSlots.replace (slots : CostSlots) (param : String × Option UInt32) : Option CostSlots :=
  if param.1 = "m" then
    if param.2 = none ∨ slots.m.isSome then none else some { slots with m := param.2 }
  else if param.1 = "t" then
    if param.2 = none ∨ slots.t.isSome then none else some { slots with t := param.2 }
  else if param.1 = "p" then
    if param.2 = none ∨ slots.p.isSome then none else some { slots with p := param.2 }
  else none

/-- The loop of `phc_costs`. -/
def fillSlots : CostSlots → List (String × Option UInt32) → Option CostSlots
  | slots, [] => some slots
  | slots, param :: params =>
    match slots.replace param with
    | none => none
    | some slots => fillSlots slots params

def phcCosts (parsed : PasswordHash) : Option (UInt32 × UInt32 × UInt32) :=
  match fillSlots ⟨none, none, none⟩ parsed.params with
  | some ⟨some m, some t, some p⟩ => some (m, t, p)
  | _ => none

/-- The slots that are filled, under their names. -/
def CostSlots.entries (slots : CostSlots) : List (String × Option UInt32) :=
  (if slots.m.isSome then [("m", slots.m)] else [])
    ++ ((if slots.t.isSome then [("t", slots.t)] else [])
      ++ (if slots.p.isSome then [("p", slots.p)] else []))

/-- The parameters of a hash with these costs, as they are printed. -/
def costParams (m t p : UInt32) : List (String × Option UInt32) :=
  [("m", some m), ("t", some t), ("p", some p)]

theorem CostSlots.mem_entries {slots : CostSlots} {value : UInt32} :
    (("m", some value) ∈ slots.entries ↔ slots.m = some value)
      ∧ (("t", some value) ∈ slots.entries ↔ slots.t = some value)
      ∧ (("p", some value) ∈ slots.entries ↔ slots.p = some value) := by
  obtain ⟨m, t, p⟩ := slots
  cases m <;> cases t <;> cases p <;> simp [CostSlots.entries, eq_comm]

/-- A slot that is filled was free, and is filled with a number. -/
theorem free_of_replace {value slot : Option UInt32} {slots slots' : CostSlots}
    (h : (if value = none ∨ slot.isSome then none else some slots') = some slots) :
    (∃ v, value = some v) ∧ slot = none ∧ slots' = slots := by
  split at h
  · cases h
  · rename_i hfree
    rw [not_or] at hfree
    exact ⟨Option.ne_none_iff_exists'.mp hfree.1, Option.not_isSome_iff_eq_none.mp hfree.2,
      Option.some.inj h⟩

/-- A round that goes through adds the parameter. -/
theorem CostSlots.entries_of_replace {slots slots' : CostSlots} {param : String × Option UInt32}
    (h : slots.replace param = some slots') : slots'.entries.Perm (param :: slots.entries) := by
  obtain ⟨ident, value⟩ := param
  obtain ⟨m, t, p⟩ := slots
  rw [CostSlots.replace] at h
  split at h
  · rename_i hident
    obtain ⟨⟨v, rfl⟩, rfl, rfl⟩ := free_of_replace h
    cases hident
    exact .refl _
  · split at h
    · rename_i hident
      obtain ⟨⟨v, rfl⟩, rfl, rfl⟩ := free_of_replace h
      cases hident
      exact List.perm_middle
    · split at h
      · rename_i hident
        obtain ⟨⟨v, rfl⟩, rfl, rfl⟩ := free_of_replace h
        cases hident
        simp only [CostSlots.entries, ← List.append_assoc]
        exact List.perm_middle
      · cases h

theorem entries_of_fillSlots {slots slots' : CostSlots} {params : List (String × Option UInt32)}
    (h : fillSlots slots params = some slots') :
    slots'.entries.Perm (params ++ slots.entries) := by
  induction params generalizing slots with
  | nil =>
    cases h
    exact .refl _
  | cons param params ih =>
    rw [fillSlots] at h
    cases hreplace : slots.replace param with
    | none =>
      rw [hreplace] at h
      cases h
    | some slots₁ =>
      rw [hreplace] at h
      have hround := CostSlots.entries_of_replace hreplace
      exact (ih h).trans ((hround.append_left params).trans List.perm_middle)

/-- A parameter that is due has a free slot. -/
theorem CostSlots.replace_of_perm {slots : CostSlots} {param : String × Option UInt32}
    {rest : List (String × Option UInt32)} {m t p : UInt32}
    (h : (param :: (rest ++ slots.entries)).Perm (costParams m t p)) :
    ∃ slots', slots.replace param = some slots' := by
  have hmem : param ∈ costParams m t p := h.subset List.mem_cons_self
  have hnodup : ((param :: (rest ++ slots.entries)).map Prod.fst).Nodup :=
    (h.map Prod.fst).nodup_iff.mpr (show ["m", "t", "p"].Nodup by decide)
  have hfree : ∀ value, (param.1, value) ∉ slots.entries := by
    intro value hin
    rw [List.map_cons, List.nodup_cons] at hnodup
    exact hnodup.1 (List.mem_map.mpr ⟨_, List.mem_append_right _ hin, rfl⟩)
  simp only [costParams, List.mem_cons, List.not_mem_nil, or_false] at hmem
  obtain ⟨ms, ts, ps⟩ := slots
  rcases hmem with rfl | rfl | rfl
  · cases ms with
    | none => exact ⟨_, rfl⟩
    | some value => exact absurd (CostSlots.mem_entries.1.mpr rfl) (hfree (some value))
  · cases ts with
    | none => exact ⟨_, rfl⟩
    | some value => exact absurd (CostSlots.mem_entries.2.1.mpr rfl) (hfree (some value))
  · cases ps with
    | none => exact ⟨_, rfl⟩
    | some value => exact absurd (CostSlots.mem_entries.2.2.mpr rfl) (hfree (some value))

theorem fillSlots_of_perm {slots : CostSlots} {params : List (String × Option UInt32)}
    {m t p : UInt32} (h : (params ++ slots.entries).Perm (costParams m t p)) :
    fillSlots slots params = some ⟨some m, some t, some p⟩ := by
  induction params generalizing slots with
  | nil =>
    rw [List.nil_append] at h
    have hm := CostSlots.mem_entries.1.mp (h.symm.subset (a := ("m", some m)) (by simp [costParams]))
    have ht := CostSlots.mem_entries.2.1.mp (h.symm.subset (a := ("t", some t)) (by simp [costParams]))
    have hp := CostSlots.mem_entries.2.2.mp (h.symm.subset (a := ("p", some p)) (by simp [costParams]))
    rw [fillSlots, ← hm, ← ht, ← hp]
  | cons param params ih =>
    obtain ⟨slots₁, hreplace⟩ := CostSlots.replace_of_perm h
    have hround := CostSlots.entries_of_replace hreplace
    rw [fillSlots, hreplace]
    exact ih ((hround.append_left params).trans (List.perm_middle.trans h))

/-- `phc_costs` takes `m`, `t` and `p` in any order, each once, and nothing else. -/
theorem phcCosts_eq_some_iff {parsed : PasswordHash} {m t p : UInt32} :
    phcCosts parsed = some (m, t, p) ↔ parsed.params.Perm (costParams m t p) := by
  constructor
  · intro h
    rw [phcCosts] at h
    split at h
    · rename_i m' t' p' hfill
      cases h
      have hperm : (costParams m t p).Perm (parsed.params ++ []) := entries_of_fillSlots hfill
      rw [List.append_nil] at hperm
      exact hperm.symm
    · cases h
  · intro h
    have hfill : fillSlots ⟨none, none, none⟩ parsed.params = some ⟨some m, some t, some p⟩ :=
      fillSlots_of_perm (by simpa [CostSlots.entries])
    rw [phcCosts, hfill]

/-! ## What is accepted -/

/-- The bounds on parameters that come from the stored hash. -/
structure Bounded (params : Params) (tagLen saltLen : Nat) : Prop where
  memory : params.mCost.toNat ≤ 2 ^ 20
  work : params.mCost.toNat * params.tCost.toNat ≤ 2 ^ 22
  lanes : params.pCost.toNat < 2 ^ 24
  tag : 16 ≤ tagLen ∧ tagLen ≤ 64
  salt : 8 ≤ saltLen

theorem ident_inj {algorithm algorithm' : Algorithm}
    (h : algorithm.ident = algorithm'.ident) : algorithm = algorithm' := by
  cases algorithm <;> cases algorithm' <;> first | rfl | exact absurd h (by decide)

section

variable {argon2 : Argon2}

/-- What `verify_password` runs Argon2 on: the algorithm, parameters, salt and tag of a stored
hash that passes every check. -/
structure Checked (argon2 : Argon2) (parsed : PasswordHash) (algorithm : Algorithm)
    (params : Params) (salt tag : List UInt8) : Prop where
  algorithm_eq : parsed.algorithm = algorithm.ident
  version_eq : parsed.version = some 0x13
  costs : parsed.params.Perm (costParams params.mCost params.tCost params.pCost)
  outputLen_eq : params.outputLen = some tag.length
  salt_eq : parsed.salt = some (some salt)
  tag_eq : parsed.hash = some tag
  bounded : Bounded params tag.length salt.length
  valid : argon2.valid params = true

/-- The checks leave one way to run Argon2. -/
theorem Checked.unique {parsed : PasswordHash} {algorithm algorithm' : Algorithm}
    {params params' : Params} {salt salt' tag tag' : List UInt8}
    (h : Checked argon2 parsed algorithm params salt tag)
    (h' : Checked argon2 parsed algorithm' params' salt' tag') :
    algorithm = algorithm' ∧ params = params' ∧ salt = salt' ∧ tag = tag' := by
  have htag : tag = tag' := Option.some.inj (h.tag_eq.symm.trans h'.tag_eq)
  have hsalt : salt = salt' := Option.some.inj (Option.some.inj (h.salt_eq.symm.trans h'.salt_eq))
  have hcosts := (phcCosts_eq_some_iff.mpr h.costs).symm.trans (phcCosts_eq_some_iff.mpr h'.costs)
  have hlen := h.outputLen_eq
  have hlen' := h'.outputLen_eq
  obtain ⟨m, t, p, len⟩ := params
  obtain ⟨m', t', p', len'⟩ := params'
  cases hcosts
  cases hlen
  cases hlen'
  exact ⟨ident_inj (h.algorithm_eq.symm.trans h'.algorithm_eq), by rw [htag], hsalt, htag⟩

end

/-! ## Hashes of this crate -/

section

variable {argon2 : Argon2}

/-- `derive_key.json`, `ascii`: the password. -/
def vectorPassword : List UInt8 :=
  [0x63, 0x6f, 0x72, 0x72, 0x65, 0x63, 0x74, 0x20, 0x68, 0x6f, 0x72, 0x73, 0x65, 0x20, 0x62, 0x61,
    0x74, 0x74, 0x65, 0x72, 0x79, 0x20, 0x73, 0x74, 0x61, 0x70, 0x6c, 0x65]

/-- `derive_key.json`, `ascii`: the salt. -/
def vectorSalt : Vector UInt8 saltBytes := #v[0, 1, 2, 3, 4, 5, 6, 7, 8, 9, 10, 11, 12, 13, 14, 15]

/-- `derive_key.json`, `ascii`: the key. -/
def vectorKey : Vector UInt8 keyBytes :=
  #v[0xaa, 0xd6, 0x08, 0xb5, 0x86, 0x6c, 0xef, 0x90, 0x7f, 0x47, 0xd5, 0xca, 0xe5, 0x29, 0xed, 0x01,
    0xa9, 0x13, 0x01, 0xc9, 0x2c, 0x5d, 0x5f, 0xef, 0x46, 0xe1, 0xa6, 0x5e, 0x39, 0x4e, 0x57, 0x42]

/-- The parameter rules of RFC 9106, and Argon2 as far as the vector shows it. -/
def vectorArgon2 : Argon2 where
  valid params := decide (1 ≤ params.pCost ∧ params.pCost ≤ maxPCost
    ∧ 8 * params.pCost.toNat ≤ params.mCost.toNat ∧ 1 ≤ params.tCost)
  blockCount params :=
    params.mCost.toNat / (4 * params.pCost.toNat) * (4 * params.pCost.toNat)
  hashInto algorithm params password salt n :=
    if algorithm = .argon2id ∧ (params.mCost, params.tCost, params.pCost) = (262144, 3, 1)
      ∧ password = vectorPassword ∧ salt = vectorSalt.toList ∧ n = keyBytes
    then .ok (Chunks.overwrite (Vector.replicate n 0) vectorKey.toList)
    else .error "not in the vectors"

theorem hashInto_vector : vectorArgon2.hashInto .argon2id (Strength.params .moderate) vectorPassword
    vectorSalt.toList defaultOutputLen = .ok vectorKey := by decide

end

end UaCrypt.CryptoPwhash
