import UaCrypt.Secretstream.FileFormat

/-!
# Sealed boxes on the wire (`crypto_box.rs`, `crypto_box384.rs`, `crypto_box512.rs`)

A sealed box is `version (3) || KEM ciphertext || stream file`. The three curves differ
in the KEM; what is on the wire around it, and how it is opened, is the same.
-/

namespace UaCrypt.CryptoBox

open Chunks Hazmat Secretstream

/-- The curve size of a key. -/
inductive Curve where
  | l256
  | l384
  | l512
  deriving DecidableEq, Repr

/-- `KEM_CIPHERTEXT_LEN`. -/
def Curve.kemCiphertextLen : Curve → Nat
  | .l256 => 128
  | .l384 => 176
  | .l512 => 256

/-- `FORMAT_VERSION`, the sealed blob's first byte. -/
def formatVersion : UInt8 := 3

/-- `PREFIX_LEN`, also `OPEN_STREAM_PREFIX_BYTES`: everything in front of the stream file. -/
def Curve.prefixLen (c : Curve) : Nat := 1 + c.kemCiphertextLen

/-- `SEAL_STREAM_PREFIX_BYTES`. -/
def Curve.sealStreamPrefixBytes (c : Curve) : Nat := c.prefixLen + filePrefixBytes

/-- `MIN_SEALED_LEN`: the prefix and one empty `Final` record. -/
def Curve.minSealedLen (c : Curve) : Nat := c.sealStreamPrefixBytes + recordOverheadBytes

inductive OpenError where
  | truncated
  | unsupportedVersion
  | invalidCiphertext
  deriving DecidableEq, Repr

/-- The KEM half of opening under one secret key: the stream key for a KEM ciphertext. -/
abbrev Decapsulate (c : Curve) := Vector UInt8 c.kemCiphertextLen → Except OpenError (Vector UInt8 32)

variable {c : Curve} (b : Build) (decapsulate : Decapsulate c)

/-- Starts opening: `front` is the version byte and the KEM ciphertext. -/
def openStream (front : Vector UInt8 c.prefixLen) : Except OpenError FileDecryptor :=
  if front.toList.head? ≠ some formatVersion then .error .unsupportedVersion
  else
    match decapsulate (overwrite (Vector.replicate c.kemCiphertextLen 0) (front.toList.drop 1)) with
    | .error e => .error e
    | .ok key => .ok (FileDecryptor.new key)

/-- `open`: a sealed box in memory. -/
def openSealed (sealed : List UInt8) : Except OpenError (List UInt8) :=
  match sealed.head? with
  | none => .error .truncated
  | some version =>
    if version ≠ formatVersion then .error .unsupportedVersion
    else if sealed.length < c.minSealedLen then .error .truncated
    else if hlen : c.prefixLen ≤ sealed.length then
      match openStream decapsulate (headChunk c.prefixLen sealed hlen) with
      | .error e => .error e
      | .ok dec =>
        match openAll b dec (sealed.drop c.prefixLen) with
        | .ok plaintext => .ok plaintext
        | .error .truncated => .error .truncated
        | .error _ => .error .invalidCiphertext
    else .error .truncated

end UaCrypt.CryptoBox
