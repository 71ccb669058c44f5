import UaCrypt.CryptoSign.SigningKey
import UaCrypt.CryptoBox.Box

/-!
# Subkeys, and what the crate's keyed hash is used for (`crypto_kdf.rs`, `hazmat/kupyna_kdf.rs`)

A subkey is the MAC of a context and an id under the master key. The stream format, the boxes
and the signatures on the smaller curve draw keys and nonces from the same MAC, under labels of
their own or none; every message has its own length.

- `KmacUse`: the calls, with their key and message.
- `kmac_uses_separated`: each call is one hash of a string that says which call it is, under
  which key and for which arguments.
-/

namespace UaCrypt.CryptoKdf

open LittleEndian Hazmat Hazmat.Kupyna Hazmat.KupynaKmac Secretstream CryptoBox CryptoSign
open Hazmat.Signature (signatureParams)
open Hazmat.Tables (Profile)

/-- `derive_subkey` of the three variants. -/
def deriveSubkey (p : Profile) (s : Size) (masterKey : Vector UInt8 s.outputBytes)
    (subkeyId : UInt64) (context : Vector UInt8 8) : Vector UInt8 s.outputBytes :=
  macSized p s masterKey (context.toList ++ (toLeBytes subkeyId).toList)

/-- `MasterKey::derive_subkey`. -/
def MasterKey.deriveSubkey (p : Profile) (masterKey : Vector UInt8 32) (subkeyId : UInt64)
    (context : Vector UInt8 8) : Vector UInt8 32 :=
  CryptoKdf.deriveSubkey p .kupyna256 masterKey subkeyId context

/-- What the 256-bit MAC is called for, with messages that the crate makes up. -/
inductive KmacUse where
  | subkey (masterKey : Vector UInt8 32) (subkeyId : UInt64) (context : Vector UInt8 8)
  | initialSubkey (key header : Vector UInt8 32)
  | rekey (old : Vector UInt8 32)
  | streamKey (c : Curve) (seed : Vector UInt8 32) (kemCiphertext : Vector UInt8 c.kemCiphertextLen)
    (recipient : Dstu9041.Bytes c.size.curve) (version : UInt8)
  | nonce (key : SigningKey .m163) (digest : Vector UInt8 32) (counter : UInt8)

namespace KmacUse

/-- The key of the MAC. -/
def key : KmacUse → List UInt8
  | subkey masterKey _ _ => masterKey.toList
  | initialSubkey key _ => key.toList
  | rekey old => old.toList
  | streamKey _ seed _ _ _ => seed.toList
  | nonce key _ _ => List.replicate 11 0 ++ key.toBytes.toList

/-- The message. -/
def message : KmacUse → List UInt8
  | subkey _ subkeyId context => context.toList ++ (toLeBytes subkeyId).toList
  | initialSubkey _ header => initialSubkeyLabel ++ header.toList
  | rekey _ => rekeyContext
  | streamKey c _ kemCiphertext recipient version =>
    c.kdfLabel ++ [version] ++ kemCiphertext.toList ++ recipient.toList
  | nonce _ digest counter => digest.toList ++ [counter]

/-- The string that is hashed. -/
def hashed (use : KmacUse) : List UInt8 := kmacInput Width.narrow.blockBytes use.key use.message

end KmacUse

/-- What a call is for. -/
inductive Purpose where
  | subkey
  | initialSubkey
  | rekey
  | streamKey (c : Curve)
  | nonce
  deriving DecidableEq

/-- The length of the message. -/
def Purpose.messageLen : Purpose → Nat
  | subkey => 16
  | initialSubkey => 52
  | rekey => 23
  | streamKey c => 9 + c.kemCiphertextLen + 8 * c.size.curve.field.limbs
  | nonce => 33

theorem Purpose.messageLen_injective : Function.Injective Purpose.messageLen := by
  have hcurve (c : Curve) : 100 < (streamKey c).messageLen := by cases c <;> decide
  have hother : subkey.messageLen < 100 ∧ initialSubkey.messageLen < 100 ∧ rekey.messageLen < 100
    ∧ nonce.messageLen < 100 := by decide
  intro a a' h
  cases a with
  | streamKey c =>
    have hc := hcurve c
    cases a' with
    | streamKey c' => cases c <;> cases c' <;> first | rfl | exact absurd h (by decide)
    | _ => omega
  | _ =>
    cases a' with
    | streamKey c' =>
      have hc := hcurve c'
      omega
    | _ => first | rfl | exact absurd h (by decide)

namespace KmacUse

def purpose : KmacUse → Purpose
  | subkey .. => .subkey
  | initialSubkey .. => .initialSubkey
  | rekey _ => .rekey
  | streamKey c .. => .streamKey c
  | nonce .. => .nonce

theorem length_message (use : KmacUse) : use.message.length = use.purpose.messageLen := by
  cases use with
  | subkey _ subkeyId context => simp [message, purpose, Purpose.messageLen]
  | initialSubkey _ header =>
    rw [message, List.length_append, Vector.length_toList]
    rfl
  | rekey _ => rfl
  | streamKey c _ kemCiphertext recipient version =>
    have hlabel : c.kdfLabel.length = 8 := by cases c <;> rfl
    simp only [message, purpose, Purpose.messageLen, List.length_append, List.length_cons,
      List.length_nil, Vector.length_toList, hlabel]
  | nonce _ digest counter => simp [message, purpose, Purpose.messageLen]

theorem length_key (use : KmacUse) : use.key.length = 32 := by
  cases use with
  | nonce signer digest counter =>
    rw [key, List.length_append, List.length_replicate, Vector.length_toList]
    rfl
  | _ => exact Vector.length_toList

/-- The lengths tell the purposes apart, the fixed widths the arguments. -/
theorem eq_of_key_message {use use' : KmacUse} (hkey : use.key = use'.key)
    (hmessage : use.message = use'.message) : use = use' := by
  have hpurpose : use.purpose = use'.purpose := by
    apply Purpose.messageLen_injective
    rw [← length_message, ← length_message, hmessage]
  cases use with
  | subkey masterKey subkeyId context =>
    cases use' with
    | subkey masterKey' subkeyId' context' =>
      obtain ⟨hcontext, hid⟩ := List.append_inj hmessage
        (by rw [Vector.length_toList, Vector.length_toList])
      have hids : subkeyId = subkeyId' := toLeBytes_injective (Vector.toList_inj.mp hid)
      rw [Vector.toList_inj.mp hkey, Vector.toList_inj.mp hcontext, hids]
    | _ => cases hpurpose
  | initialSubkey key header =>
    cases use' with
    | initialSubkey key' header' =>
      have hheader := List.append_cancel_left hmessage
      rw [Vector.toList_inj.mp hkey, Vector.toList_inj.mp hheader]
    | _ => cases hpurpose
  | rekey old =>
    cases use' with
    | rekey old' => rw [Vector.toList_inj.mp hkey]
    | _ => cases hpurpose
  | streamKey c seed kemCiphertext recipient version =>
    cases use' with
    | streamKey c' seed' kemCiphertext' recipient' version' =>
      obtain rfl : c = c' := by
        cases hpurpose
        rfl
      obtain ⟨hfront, hrecipient⟩ := List.append_inj' hmessage
        (by rw [Vector.length_toList, Vector.length_toList])
      obtain ⟨hhead, hkem⟩ := List.append_inj' hfront
        (by rw [Vector.length_toList, Vector.length_toList])
      have hversion := List.append_cancel_left hhead
      rw [Vector.toList_inj.mp hkey, Vector.toList_inj.mp hrecipient, Vector.toList_inj.mp hkem,
        (List.cons.inj hversion).1]
    | _ => cases hpurpose
  | nonce signer digest counter =>
    cases use' with
    | nonce signer' digest' counter' =>
      obtain ⟨hdigest, hcounter⟩ := List.append_inj hmessage
        (by rw [Vector.length_toList, Vector.length_toList])
      have hbytes := Vector.toList_inj.mp (List.append_cancel_left hkey)
      have hread := SigningKey.fromBytes_eq_some_iff.mpr hbytes
      rw [SigningKey.fromBytes_eq_some_iff.mpr rfl] at hread
      rw [Option.some.inj hread, Vector.toList_inj.mp hdigest, (List.cons.inj hcounter).1]
    | _ => cases hpurpose

theorem hashed_injective : Function.Injective hashed := by
  intro use use' h
  obtain ⟨hkey, hmessage⟩ := kmacInput_inj Width.narrow.blockBytes_pos (by decide)
    (by rw [length_key, length_key]) h
  exact eq_of_key_message hkey hmessage

end KmacUse

/-! ## The calls -/

theorem macOf_eq (p : Profile) (key : Vector UInt8 32) (message : List UInt8) :
    macOf p key message = Kupyna256.digest p (kmacInput Width.narrow.blockBytes key.toList message) := by
  have hok : Kupyna256Kmac.mac p key.toList message
      = .ok (Size.digest p .kupyna256 (kmacInput Size.kupyna256.width.blockBytes key.toList message)) :=
    mac_eq_ok p .kupyna256 message key.length_toList
  rw [macOf]
  split
  · rename_i tag h
    rw [hok] at h
    exact (Except.ok.inj h).symm
  · rename_i e h
    rw [hok] at h
    cases h

theorem deriveNonce_eq (b : Build) {curve : Dstu4145.Curve} (key : SigningKey curve)
    (digest : Vector UInt8 32) (counter : UInt8) :
    deriveNonce b key digest counter
      = Dstu4145.Scalar.reduceWideBytes ((nonceKmac curve).digest b.profile
        (kmacInput (nonceKmac curve).width.blockBytes
          (Chunks.overwriteAt (Vector.replicate (nonceKmac curve).outputBytes 0)
            ((nonceKmac curve).outputBytes - (signatureParams curve).curve.scalarBytes)
            key.toBytes.toList).toList
          (digest.toList ++ [counter]))).toList := by
  rw [deriveNonce, macSized_eq]

/-- The scalar of a nonce, zeros in front. -/
theorem toList_nonceKey (key : SigningKey .m163) :
    (Chunks.overwriteAt (Vector.replicate 32 0) 11 key.toBytes.toList).toList
      = List.replicate 11 0 ++ key.toBytes.toList := by
  have hlen : key.toBytes.toList.length = 21 := Vector.length_toList
  rw [Chunks.toList_overwriteAt _ (by rw [hlen]), Vector.toList_replicate, Chunks.writeAt, hlen]
  simp

/-- **The uses of the keyed hash are separate.** Each of the five derivations is the Kupyna-256
digest of one string, and two such strings are equal only for the same derivation under the same
key with the same arguments: no subkey, stream key, rekeyed key, box key or signature nonce is
ever the hash of another's input. -/
theorem kmac_uses_separated (b : Build) :
    (∀ masterKey subkeyId context, MasterKey.deriveSubkey b.profile masterKey subkeyId context
        = Kupyna256.digest b.profile (KmacUse.subkey masterKey subkeyId context).hashed)
    ∧ (∀ key header, initialSubkey b key header
        = Kupyna256.digest b.profile (KmacUse.initialSubkey key header).hashed)
    ∧ (∀ old, rekey b old = Kupyna256.digest b.profile (KmacUse.rekey old).hashed)
    ∧ (∀ (ε : Type) (c : Curve) seed kemCiphertext recipient version,
      (streamKey b seed kemCiphertext recipient version : Outcome ε (Vector UInt8 32))
        = .ok (Kupyna256.digest b.profile
          (KmacUse.streamKey c seed kemCiphertext recipient version).hashed))
    ∧ (∀ (key : SigningKey .m163) digest counter, deriveNonce b key digest counter
        = Dstu4145.Scalar.reduceWideBytes
          (Kupyna256.digest b.profile (KmacUse.nonce key digest counter).hashed).toList)
    ∧ Function.Injective KmacUse.hashed := by
  refine ⟨?_, ?_, ?_, ?_, ?_, KmacUse.hashed_injective⟩
  · intro masterKey subkeyId context
    exact macSized_eq b.profile .kupyna256 masterKey _
  · intro key header
    rw [initialSubkey, macOf_eq]
    rfl
  · intro old
    rw [rekey, macOf_eq]
    rfl
  · intro ε c seed kemCiphertext recipient version
    have hok : Kupyna256Kmac.mac b.profile seed.toList
        (c.kdfLabel ++ [version] ++ kemCiphertext.toList ++ recipient.toList) = .ok _ :=
      mac_eq_ok b.profile .kupyna256 _ seed.length_toList
    rw [streamKey]
    simp only [hok]
    rfl
  · intro key digest counter
    rw [KmacUse.hashed, KmacUse.key, KmacUse.message, ← toList_nonceKey]
    exact deriveNonce_eq b key digest counter

end UaCrypt.CryptoKdf
