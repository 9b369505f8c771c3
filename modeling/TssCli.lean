import TssCli.Lib.AssocValues
import TssCli.Lib.Transition
import TssCli.Lib.Script
import TssCli.Lib.Net
import TssCli.Lib.Guarded
import TssCli.Lib.Retries
import TssCli.Lib.Completion
import TssCli.Lib.Arrivals
import TssCli.Lib.Mapped
import TssCli.Lib.Supply
import TssCli.Lib.Primality
import TssCli.Lib.Sharing
import TssCli.Common.Rust
import TssCli.Common.BigInt
import TssCli.Common.Hex
import TssCli.Common.Client
import TssCli.Common.Exchange
import TssCli.Common.Delivery
import TssCli.Common.Schedule
import TssCli.Common.Session
import TssCli.Common.Barrier
import TssCli.Common.Signup
import TssCli.Common.SigningRoom
import TssCli.Common.Manager
import TssCli.Protocols.Curve
import TssCli.Protocols.HdKeys
import TssCli.Protocols.ChainCode
import TssCli.Protocols.Sealed
import TssCli.Protocols.Keygen
import TssCli.Protocols.Ecdsa.Keygen
import TssCli.Protocols.Ecdsa.KeyStore
import TssCli.Protocols.Eddsa.Keygen
import TssCli.Protocols.Eddsa.EphKeygen
import TssCli.Protocols.Eddsa.Signer
import TssCli.Protocols.Ecdsa.Signer
import TssCli.Protocols.Additive
import TssCli.Protocols.KeygenAgreement
import TssCli.Protocols.SharesSurvive
import TssCli.Protocols.Secp256k1
import TssCli.Protocols.Ecdsa.Conversion
import TssCli.Protocols.Ecdsa.TweakedShares
import TssCli.Protocols.Ecdsa.LeaderSecret
import TssCli.Protocols.Ecdsa.MtaRounds
import TssCli.Protocols.Ecdsa.Signing
import TssCli.Protocols.Eddsa.Signing
import TssCli.Protocols.Eddsa.NonceCommitment
import TssCli.Protocols.Eddsa.ShareProofs
import TssCli.Protocols.ReportedMessage
import TssCli.Protocols.Barriers
import TssCli.Protocols.HdCompose
import TssCli.Protocols.HdInputs
import TssCli.Counter.Run
import TssCli.Counter.Numbers
import TssCli.Counter.Parameters
import TssCli.Room.WellFormed
import TssCli.Room.Run
import TssCli.Room.Closing
import TssCli.Room.Seats
import TssCli.Room.Agreement
import TssCli.Room.Outcome
import TssCli.Room.Comeback
import TssCli.Room.Recovery
import TssCli.Room.Repeats
import TssCli.Room.OneMessage
import TssCli.Room.Frame
import TssCli.Room.Panics
import TssCli.Manager.Retry
import TssCli.Manager.Poison
import TssCli.Manager.Handlers
import TssCli.System.World
import TssCli.System.Session
import TssCli.System.Completion
import TssCli.System.Seats
import TssCli.System.Gathering
import TssCli.System.Beginnings
import TssCli.System.Tool
import TssCli.System.Quorum
import TssCli.System.Keygens
import TssCli.System.Rooms
import TssCli.System.EddsaSignatures
import TssCli.System.EcdsaSignatures
import TssCli.System.Reports
