import UaCrypt.Hazmat.KupynaStreaming

/-!
# Kupyna-KMAC (`hazmat/kupyna_kmac.rs`)

`H(PAD(K) || PAD(M) || ~K)`, driven through the streaming core: the padded key, the
message, the rest of the message's own padding, the inverted key.

- `kmacGeneric`: the construction; it fails exactly on a key of the wrong length
  (`kmacGeneric_eq_error_iff`).
- `Kupyna256Kmac.mac`, `Kupyna384Kmac.mac`, `Kupyna512Kmac.mac`.
- `kmacInput`: the string `PAD(K) || PAD(M) || ~K` the code never builds. After the padded
  key the core's tail is the tail of `M` alone (`remainder_pad_append`), so the suffix fed
  next completes `PAD(M)` and the whole run has absorbed `kmacInput`.
-/

namespace UaCrypt.Hazmat.KupynaKmac

open Tables Kupyna KupynaCore Chunks

inductive KmacError where
  | wrongKeyLength
  | tagMismatch
  deriving DecidableEq, Repr

/-- A byte count in bits. -/
def bits (bytes : Nat) : Nat := bytes * 8

/-- The shared construction. -/
def kmacGeneric (p : Profile) (w : Width) (key message : List UInt8) (outputBytes : Nat)
    (hle : outputBytes ≤ w.blockBytes) : Except KmacError (Vector UInt8 outputBytes) :=
  if key.length ≠ outputBytes then .error .wrongKeyLength
  else
    let core := KupynaCore.new w
    let core := core.update p (kupynaPadding key (bits key.length) w.blockBytes)
    let core := core.update p message
    -- only the bytes after what is already buffered, or they would be fed twice
    let padM := kupynaPadding core.buffer (bits message.length) w.blockBytes
    let core := core.update p (padM.drop core.buffer.length)
    let core := core.update p (key.map (~~~·))
    .ok (core.finalize p outputBytes hle)

def Kupyna256Kmac.mac (p : Profile) (key message : List UInt8) :
    Except KmacError (Vector UInt8 32) :=
  kmacGeneric p .narrow key message 32 le_narrow

def Kupyna384Kmac.mac (p : Profile) (key message : List UInt8) :
    Except KmacError (Vector UInt8 48) :=
  kmacGeneric p .wide key message 48 truncated_le_wide

def Kupyna512Kmac.mac (p : Profile) (key message : List UInt8) :
    Except KmacError (Vector UInt8 64) :=
  kmacGeneric p .wide key message 64 le_wide

/-- Recomputes the MAC and compares it with `expected`, for any of the three `mac`s. -/
def verify {macLen : Nat} (mac : List UInt8 → List UInt8 → Except KmacError (Vector UInt8 macLen))
    (key message : List UInt8) (expected : Vector UInt8 macLen) : Except KmacError Unit :=
  match mac key message with
  | .error e => .error e
  | .ok computed => if computed = expected then .ok () else .error .tagMismatch

/-- The only failure is a key of the wrong length. -/
theorem kmacGeneric_eq_error_iff (p : Profile) (w : Width) (key message : List UInt8)
    (outputBytes : Nat) (hle : outputBytes ≤ w.blockBytes) (e : KmacError) :
    kmacGeneric p w key message outputBytes hle = .error e
      ↔ key.length ≠ outputBytes ∧ e = .wrongKeyLength := by
  rw [kmacGeneric]
  split
  · rename_i h
    rw [Except.error.injEq]
    exact ⟨fun he => ⟨h, he.symm⟩, fun he => he.2.symm⟩
  · rename_i h
    constructor
    · intro heq
      cases heq
    · rintro ⟨hne, -⟩
      exact absurd hne h

/-! ## The hashed string -/

/-- `PAD(K) || PAD(M) || ~K`. -/
def kmacInput (blockBytes : Nat) (key message : List UInt8) : List UInt8 :=
  pad blockBytes key ++ pad blockBytes message ++ key.map (~~~·)

/-- Padding a whole string, not a tail. -/
theorem kupynaPadding_eq_pad (blockBytes : Nat) (x : List UInt8) :
    kupynaPadding x (bits x.length) blockBytes = pad blockBytes x := by
  simp only [kupynaPadding, pad, padZeros, bits, Nat.mul_comm]

/-- The padded key is whole blocks: it leaves nothing in the buffer. -/
theorem remainder_pad_append (w : Width) (key message : List UInt8) :
    remainder w.blockBytes (pad w.blockBytes key ++ message) = remainder w.blockBytes message :=
  remainder_append_of_dvd w.blockBytes_pos message (dvd_length_pad w.blockBytes_pos key)

/-- The run of the core under a key of the right length. -/
theorem kmacGeneric_eq_ok (p : Profile) (w : Width) {key : List UInt8} (message : List UInt8)
    {outputBytes : Nat} (hle : outputBytes ≤ w.blockBytes) (hkey : key.length = outputBytes) :
    kmacGeneric p w key message outputBytes hle
      = .ok (digestGeneric p w (kmacInput w.blockBytes key message) outputBytes hle) := by
  -- what is still buffered of `M` when its padding is computed
  have hbuffer : (absorbed p w (pad w.blockBytes key ++ message)).buffer
      = remainder w.blockBytes message := remainder_pad_append w key message
  have hsuffix : (kupynaPadding (remainder w.blockBytes message) (bits message.length)
        w.blockBytes).drop (remainder w.blockBytes message).length
      = (pad w.blockBytes message).drop message.length := by
    rw [bits, Nat.mul_comm, kupynaPadding_remainder, List.drop_left]
  unfold kmacGeneric
  rw [if_neg (not_not_intro hkey)]
  simp only [← absorbed_nil p w, kupynaPadding_eq_pad, update_absorbed, List.nil_append, hbuffer,
    hsuffix]
  rw [digestGeneric_eq, List.append_assoc (pad w.blockBytes key), append_drop_pad]
  rfl

theorem kmacInput_injective {blockBytes : Nat} (hpos : 0 < blockBytes) (hle : blockBytes ≤ 128)
    (key : List UInt8) : Function.Injective (kmacInput blockBytes key) := by
  intro m m' h
  have hpads := (List.append_inj' h rfl).1
  exact pad_injective hpos hle (List.append_cancel_left hpads)

/-- The `mac` of each size. -/
def mac (p : Profile) (s : Size) (key message : List UInt8) :
    Except KmacError (Vector UInt8 s.outputBytes) :=
  match s with
  | .kupyna256 => Kupyna256Kmac.mac p key message
  | .kupyna384 => Kupyna384Kmac.mac p key message
  | .kupyna512 => Kupyna512Kmac.mac p key message

theorem mac_eq (p : Profile) (s : Size) (key message : List UInt8) :
    mac p s key message = kmacGeneric p s.width key message s.outputBytes s.outputBytes_le := by
  cases s <;> rfl

/-- The MAC is the digest of `PAD(K) || PAD(M) || ~K` under a key of the MAC's length and an
error under any other, and no two messages share that string. -/
theorem mac_eq_digest_kmacInput (p : Profile) (s : Size) (key : List UInt8) :
    (∀ message, mac p s key message
        = if key.length = s.outputBytes
            then .ok (s.digest p (kmacInput s.width.blockBytes key message))
            else .error .wrongKeyLength)
      ∧ Function.Injective (kmacInput s.width.blockBytes key) := by
  constructor
  · intro message
    rw [mac_eq]
    split
    · rename_i hkey
      rw [kmacGeneric_eq_ok p s.width message s.outputBytes_le hkey, Size.digest_eq]
    · rename_i hkey
      exact (kmacGeneric_eq_error_iff p s.width key message s.outputBytes s.outputBytes_le _).mpr
        ⟨hkey, rfl⟩
  · refine kmacInput_injective s.width.blockBytes_pos ?_ key
    cases s <;> decide

/-! ## Keys that fit by their type -/

theorem mac_eq_ok (p : Profile) (s : Size) {key : List UInt8} (message : List UInt8)
    (hkey : key.length = s.outputBytes) :
    mac p s key message = .ok (s.digest p (kmacInput s.width.blockBytes key message)) := by
  rw [mac_eq, kmacGeneric_eq_ok p s.width message s.outputBytes_le hkey, Size.digest_eq]

theorem mac_ne_error (p : Profile) (s : Size) (key : Vector UInt8 s.outputBytes)
    (message : List UInt8) (e : KmacError) : mac p s key.toList message ≠ .error e := by
  rw [mac_eq_ok p s message key.length_toList]
  exact nofun

/-- A MAC where the caller's `unreachable!` is right. -/
def macSized (p : Profile) (s : Size) (key : Vector UInt8 s.outputBytes) (message : List UInt8) :
    Vector UInt8 s.outputBytes :=
  match h : mac p s key.toList message with
  | .ok tag => tag
  | .error e => absurd h (mac_ne_error p s key message e)

theorem macSized_eq (p : Profile) (s : Size) (key : Vector UInt8 s.outputBytes)
    (message : List UInt8) :
    macSized p s key message = s.digest p (kmacInput s.width.blockBytes key.toList message) := by
  have hok := mac_eq_ok p s message key.length_toList
  rw [macSized]
  split
  · rename_i tag h
    rw [hok] at h
    exact (Except.ok.inj h).symm
  · rename_i e h
    exact absurd h (mac_ne_error p s key message e)

/-- The hashed string has both the key and the message in it. -/
theorem kmacInput_inj {blockBytes : Nat} (hpos : 0 < blockBytes) (hle : blockBytes ≤ 128)
    {key key' message message' : List UInt8} (hlen : key.length = key'.length)
    (h : kmacInput blockBytes key message = kmacInput blockBytes key' message') :
    key = key' ∧ message = message' := by
  have hkeys := (List.append_inj' h (by rw [List.length_map, List.length_map, hlen])).2
  have hkey : key = key' := by
    refine List.map_injective_iff.mpr ?_ hkeys
    intro a b hab
    have hnot := congrArg (fun x : UInt8 => ~~~x) hab
    simpa only [UInt8.not_not] using hnot
  subst hkey
  exact ⟨rfl, kmacInput_injective hpos hle key h⟩

end UaCrypt.Hazmat.KupynaKmac
