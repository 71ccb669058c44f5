import UaCrypt.Lib.FinIndex
import UaCrypt.Lib.LittleEndian
import UaCrypt.Lib.XorLinear
import UaCrypt.Lib.ByteTable
import UaCrypt.Lib.ByteStream
import UaCrypt.Lib.BufferedStream
import UaCrypt.Lib.BinaryPoly
import UaCrypt.Lib.BinaryIrreducible
import UaCrypt.Lib.PolyHash
import UaCrypt.Hazmat.TableData
import UaCrypt.Hazmat.StrumokData
import UaCrypt.Hazmat.Tables
import UaCrypt.Hazmat.ColumnState
import UaCrypt.Hazmat.Gf2mWide
import UaCrypt.Hazmat.Gf2mCorrect
import UaCrypt.Hazmat.Gf2mField
import UaCrypt.Hazmat.Kalyna
import UaCrypt.Hazmat.KalynaCorrect
import UaCrypt.Hazmat.KalynaGcm
import UaCrypt.Hazmat.KalynaGmac
import UaCrypt.Hazmat.GcmInput
import UaCrypt.Hazmat.KalynaCtr
import UaCrypt.Hazmat.KalynaCcm
import UaCrypt.Hazmat.KalynaCfb
import UaCrypt.Hazmat.KalynaKw
import UaCrypt.Hazmat.KalynaKwP
import UaCrypt.Hazmat.Kupyna
import UaCrypt.Hazmat.KupynaStreaming
import UaCrypt.Hazmat.KupynaKmac
import UaCrypt.Hazmat.StrumokStream
import UaCrypt.Hazmat.Profiles
import UaCrypt.Lib.Framing
import UaCrypt.Lib.Runs
import UaCrypt.Secretstream.File
import UaCrypt.Secretstream.FileCalls
import UaCrypt.Secretstream.FileFormat
import UaCrypt.Cli.AeadCommand
import UaCrypt.Cli.BoxOpen
import UaCrypt.Cli.OutputRace
import UaCrypt.Cli.KeyCodec
import UaCrypt.Lib.ScriptedReads
import UaCrypt.Cli.LateData
import UaCrypt.Cli.CheckList
import UaCrypt.Lib.BinaryCurve
import UaCrypt.Lib.BinaryLadder
import UaCrypt.Hazmat.VerifyCombine
import UaCrypt.Lib.EdwardsCurve
import UaCrypt.Lib.EdwardsInfinity
import UaCrypt.Lib.Residues
import UaCrypt.Lib.EdwardsOrder
import UaCrypt.Lib.Primality
import UaCrypt.Lib.LargePrimes
import UaCrypt.Hazmat.Dstu9041.Orders
import UaCrypt.CryptoBox.Box
import UaCrypt.Hazmat.CcmInput
import UaCrypt.Hazmat.KalynaXts
import UaCrypt.Hazmat.KalynaOfb
import UaCrypt.Hazmat.KalynaCbc
import UaCrypt.Hazmat.KalynaCmac
import UaCrypt.Hazmat.KupynaCorrect
import UaCrypt.Hazmat.KalynaSchedule
import UaCrypt.Lib.SpacedPoly
import UaCrypt.Lib.Limbs
import UaCrypt.Hazmat.Limb
import UaCrypt.Hazmat.Scalar
import UaCrypt.Hazmat.Dstu9041.Fp
import UaCrypt.Hazmat.Gf2mCurve
import UaCrypt.Hazmat.Gf2mCurveField
import UaCrypt.Hazmat.CurvePoint
import UaCrypt.Hazmat.Dstu9041.Curve
import UaCrypt.Hazmat.Dstu9041.CurveGroup
import UaCrypt.Hazmat.Dstu9041.Subgroup
import UaCrypt.Hazmat.Dstu9041.Encryption
import UaCrypt.Hazmat.BasePoint
import UaCrypt.Hazmat.Signature
import UaCrypt.CryptoSign
import UaCrypt.Hazmat.StrumokFeedback
import UaCrypt.Cli.ArgScanner
import UaCrypt.Lib.Channel
import UaCrypt.Secretstream.Channel
import UaCrypt.CryptoSecretbox
import UaCrypt.CryptoStream
import UaCrypt.CryptoSign.SigningKey
import UaCrypt.Lib.RejectionSampling
import UaCrypt.CryptoKdf
import UaCrypt.Lib.ReadLoop
import UaCrypt.Cli.HashCommand
import UaCrypt.CryptoPwhash.Hash
import UaCrypt.CryptoPwhash.PassphraseFile
import UaCrypt.Cli.EncryptCommand
