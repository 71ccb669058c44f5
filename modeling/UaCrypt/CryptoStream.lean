import UaCrypt.Hazmat.StrumokStream

/-!
# The bare stream cipher (`crypto_stream.rs`)

A drawn IV, then the message XORed with the Strumok-256 keystream of key and IV. Nothing is
authenticated, and the crate says so: what an attacker can do is not left open but exact.

- `encrypt_eq`, `decrypt_append`: one pass over the keystream, `keystream`.
- `stream_malleable`: round trip, errors, and what becomes of every change to a sealed
  message.
-/

namespace UaCrypt.CryptoStream

open ByteStream Chunks Keystream Hazmat Hazmat.Tables Hazmat.Strumok

/-- `IV_LEN`. -/
@[reducible] def ivLen : Nat := 32

inductive StreamError where
  | truncated
  | random
  deriving DecidableEq, Repr

variable (p : Profile) (key : Vector UInt8 32)

/-- `encrypt`, with the IV drawn; `none` where the system has no randomness. -/
def encrypt (iv : Option (Vector UInt8 ivLen)) (plaintext : List UInt8) :
    Except StreamError (List UInt8) :=
  match iv with
  | none => .error .random
  | some iv =>
    .ok (iv.toList ++ ((Strumok256.new p key iv).applyKeystream p plaintext).2)

/-- `decrypt`. -/
def decrypt (sealed : List UInt8) : Except StreamError (List UInt8) :=
  if sealed.length < ivLen then .error .truncated
  else
    let iv := overwrite (Vector.replicate ivLen 0) (sealed.take ivLen)
    .ok ((Strumok256.new p key iv).applyKeystream p (sealed.drop ivLen)).2

/-- The keystream of a key and an IV. -/
def keystream (iv : Vector UInt8 ivLen) : Nat → UInt8 := (Strumok256.new p key iv).stream p

theorem applyKeystream_new (iv : Vector UInt8 ivLen) (data : List UInt8) :
    ((Strumok256.new p key iv).applyKeystream p data).2 = xorWith (keystream p key iv) data := by
  obtain ⟨core, hcall, -, -⟩ := Core.call_streams p (Strumok256.new p key iv) data trivial
  exact congrArg Prod.snd (Option.some.inj hcall)

theorem encrypt_eq (iv : Vector UInt8 ivLen) (plaintext : List UInt8) :
    encrypt p key (some iv) plaintext
      = .ok (iv.toList ++ xorWith (keystream p key iv) plaintext) := by
  rw [encrypt, applyKeystream_new]

/-- Decrypting is the same pass over what follows the IV. -/
theorem decrypt_append (iv : Vector UInt8 ivLen) (ciphertext : List UInt8) :
    decrypt p key (iv.toList ++ ciphertext) = .ok (xorWith (keystream p key iv) ciphertext) := by
  have hiv : iv.toList.length = ivLen := Vector.length_toList
  have hlen : ¬(iv.toList ++ ciphertext).length < ivLen := by
    rw [List.length_append, hiv]
    omega
  have hhead : overwrite (Vector.replicate ivLen 0) ((iv.toList ++ ciphertext).take ivLen)
      = iv := by
    apply Vector.toList_inj.mp
    rw [List.take_left' hiv, toList_overwrite_of_length _ hiv]
  rw [decrypt, if_neg hlen]
  simp only [hhead, List.drop_left' hiv, applyKeystream_new]

theorem decrypt_short {sealed : List UInt8} (h : sealed.length < ivLen) :
    decrypt p key sealed = .error .truncated := by
  rw [decrypt, if_pos h]

/-- What is long enough is an IV and a ciphertext. -/
theorem exists_append {sealed : List UInt8} (h : ¬sealed.length < ivLen) :
    ∃ (iv : Vector UInt8 ivLen) (ciphertext : List UInt8), sealed = iv.toList ++ ciphertext := by
  have hiv : (sealed.take ivLen).length = ivLen := by
    rw [List.length_take, Nat.min_eq_left (Nat.le_of_not_lt h)]
  refine ⟨overwrite (Vector.replicate ivLen 0) (sealed.take ivLen), sealed.drop ivLen, ?_⟩
  rw [toList_overwrite_of_length _ hiv, List.take_append_drop]

/-- **No authentication, exactly.** A byte string decrypts to `q` exactly when encrypting `q`
under some IV gives it, and the only error is `Truncated`, below 32 bytes. A mask XORed onto a
ciphertext is XORed onto the message, a ciphertext cut short is the message cut short, and two
messages under one IV show their XOR. -/
theorem stream_malleable (p : Profile) (key : Vector UInt8 32) :
    (∀ sealed plaintext, decrypt p key sealed = .ok plaintext
      ↔ ∃ iv, encrypt p key (some iv) plaintext = .ok sealed)
    ∧ (∀ sealed e, decrypt p key sealed = .error e ↔ sealed.length < 32 ∧ e = .truncated)
    ∧ ∀ iv plaintext sealed, encrypt p key (some iv) plaintext = .ok sealed →
      sealed.length = plaintext.length + 32
      ∧ (∀ mask, decrypt p key (sealed.take 32 ++ xorBytes (sealed.drop 32) mask)
          = .ok (xorBytes plaintext mask))
      ∧ (∀ k, decrypt p key (sealed.take (32 + k)) = .ok (plaintext.take k))
      ∧ ∀ other sealed', encrypt p key (some iv) other = .ok sealed' →
        xorBytes (sealed.drop 32) (sealed'.drop 32) = xorBytes plaintext other := by
  refine ⟨?_, ?_, ?_⟩
  · intro sealed plaintext
    constructor
    · intro h
      by_cases hshort : sealed.length < ivLen
      · rw [decrypt_short p key hshort] at h
        cases h
      · obtain ⟨iv, ciphertext, rfl⟩ := exists_append hshort
        rw [decrypt_append] at h
        cases h
        exact ⟨iv, by rw [encrypt_eq, xorWith_xorWith]⟩
    · rintro ⟨iv, h⟩
      rw [encrypt_eq] at h
      cases h
      rw [decrypt_append, xorWith_xorWith]
  · intro sealed e
    constructor
    · intro h
      by_cases hshort : sealed.length < ivLen
      · rw [decrypt_short p key hshort] at h
        cases h
        exact ⟨hshort, rfl⟩
      · obtain ⟨iv, ciphertext, rfl⟩ := exists_append hshort
        rw [decrypt_append] at h
        cases h
    · rintro ⟨hshort, rfl⟩
      exact decrypt_short p key hshort
  · intro iv plaintext sealed h
    rw [encrypt_eq] at h
    cases h
    have hiv : iv.toList.length = 32 := Vector.length_toList
    refine ⟨?_, ?_, ?_, ?_⟩
    · rw [List.length_append, hiv, length_xorWith, Nat.add_comm]
    · intro mask
      rw [List.take_left' hiv, List.drop_left' hiv, xorBytes_xorWith, decrypt_append,
        xorWith_xorWith]
    · intro k
      have hcut : (iv.toList ++ xorWith (keystream p key iv) plaintext).take (32 + k)
          = iv.toList ++ (xorWith (keystream p key iv) plaintext).take k := by
        rw [← hiv, List.take_length_add_append]
      rw [hcut, decrypt_append, xorWith_take, xorWith_xorWith]
    · intro other sealed' h'
      rw [encrypt_eq] at h'
      cases h'
      rw [List.drop_left' hiv, List.drop_left' hiv, xorBytes_xorWith_xorWith]

end UaCrypt.CryptoStream
