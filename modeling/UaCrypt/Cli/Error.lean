import UaCrypt.Lib.FileTree
import UaCrypt.Cli.KeyFile
import UaCrypt.Secretstream.File

/-!
# Errors of the command line (`CliError` in `lib.rs`)

The variants the modelled commands return, and the conversions from the library's own
errors. Where the source writes `unreachable!`, the outcome is a panic.
-/

namespace UaCrypt.Cli

open FileTree Secretstream

/-- `std::io::Error`: its `kind()` as far as it is looked at, and its text. -/
structure IoError where
  alreadyExists : Bool
  message : String
  deriving DecidableEq, Repr

/-- The system's error texts. -/
def IoError.ofErrno : Errno → IoError
  | .noent => ⟨false, "No such file or directory (os error 2)"⟩
  | .exist => ⟨true, "File exists (os error 17)"⟩
  | .notdir => ⟨false, "Not a directory (os error 20)"⟩
  | .isdir => ⟨false, "Is a directory (os error 21)"⟩
  | .loop => ⟨false, "Too many levels of symbolic links (os error 40)"⟩
  | .other code => ⟨false, "os error " ++ toString code⟩

/-- What has a wrong length. -/
inductive LengthOf where
  | key
  | nonce
  | tweak
  | iv
  | signingKey
  | verifyingKey
  | boxSecretKey
  | boxPublicKey
  | box384SecretKey
  | box384PublicKey
  | box512SecretKey
  | box512PublicKey
  | inputBlock
  | signature
  | tag
  deriving DecidableEq, Repr

inductive CliError where
  | io (path : PathName) (message : String)
  | random (message : String)
  | wrongLength (what : LengthOf) (expected actual : Nat)
  | outputExists (path : PathName) (sameAsInput : Bool)
  | sameOutputPath (flag other : String)
  | outputIsKeyFile (path : PathName) (kind : KeyKind)
  | outputUncheckable (path : PathName) (message : String)
  | emptyInput (command : String)
  | plaintextTooLong
  | aadTooLong
  | ccmVerifyFailed
  | gcmVerifyFailed
  | secretstreamTruncated
  | secretstreamVerifyFailed
  | secretstreamUnknownTag
  | secretstreamTrailingData
  | secretstreamChunkTooLarge
  | secretstreamUnsupportedVersion (version : UInt8)
  | secretstreamBadChunkLength
  | boxOpenTruncated (curve : String)
  | boxOpenFailed (curve : String)
  | boxOpenUnsupportedVersion
  | binaryToTerminal
  | stdoutIncomplete (inner : CliError)
  deriving DecidableEq, Repr

/-- `impl From<FileError> for CliError`. -/
def CliError.ofFile : FileError → Outcome CliError Unit
  | .unsupportedVersion version => .err (.secretstreamUnsupportedVersion version)
  | .truncated => .err .secretstreamTruncated
  | .chunkTooLarge _ => .err .secretstreamChunkTooLarge
  | .badChunkLength _ => .err .secretstreamBadChunkLength
  | .unknownTag => .err .secretstreamUnknownTag
  | .trailingData => .err .secretstreamTrailingData
  | .auth => .err .secretstreamVerifyFailed
  | .invalidLength => .panic
  | .finished => .panic
  | .counterExhausted => .panic

/-- A write that reports failures as `CliError`: `Output`, or a `Vec`. -/
structure WriteOutput (ω : Type) where
  writeAll : ω → List UInt8 → Except CliError Unit × ω

/-- Everything written arrives, in order. -/
def WriteOutput.Collects {ω : Type} (w : WriteOutput ω) (written : ω → List UInt8) : Prop :=
  ∀ out data, ∃ out', w.writeAll out data = (.ok (), out')
    ∧ written out' = written out ++ data

/-- `impl WriteOutput for Vec<u8>`. -/
def vecOutput : WriteOutput (List UInt8) where
  writeAll out data := (.ok (), out ++ data)

theorem collects_vecOutput : vecOutput.Collects id := fun out data => ⟨out ++ data, rfl, rfl⟩

end UaCrypt.Cli
