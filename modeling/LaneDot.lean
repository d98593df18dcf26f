import LaneDot.Rounding
import LaneDot.Layout
import LaneDot.Single.Basic
import LaneDot.Single.Exact
import LaneDot.Single.Arithmetic
import LaneDot.Double
import LaneDot.Code.Basic
import LaneDot.Code.Formula
import LaneDot.Code.Decode
import LaneDot.Code.Register
import LaneDot.Lanes
import LaneDot.Level
import LaneDot.Backend
import LaneDot.Memory
import LaneDot.Kernel
import LaneDot.Extents
import LaneDot.Dot
import LaneDot.Conversion
import LaneDot.Text.WhiteSpace
import LaneDot.Text.Decimal
import LaneDot.Override
import LaneDot.Dispatch
import LaneDot.Session
import LaneDot.Throughput
import LaneDot.Demo
import LaneDot.Main
import LaneDot.Proofs.Single.Place
import LaneDot.Proofs.Single.Nearest
import LaneDot.Proofs.Double.Digits
import LaneDot.Proofs.Double.Arithmetic
import LaneDot.Proofs.Code.Decoding
import LaneDot.Proofs.Code.Formula
import LaneDot.Proofs.Code.LaneDecoding
import LaneDot.Proofs.Single.SignedZero
import LaneDot.Proofs.Single.Alike
import LaneDot.Proofs.Single.Negation
import LaneDot.Proofs.Kernel.Placement
import LaneDot.Proofs.Kernel.Run
import LaneDot.Proofs.Dispatch
import LaneDot.Proofs.Kernel.LaneSum
import LaneDot.Proofs.Code.Decoders
import LaneDot.Proofs.Kernel.RowSum
import LaneDot.Proofs.Single.Value
import LaneDot.Proofs.Kernel.Agreement
import LaneDot.Proofs.Kernel.Fusion
import LaneDot.Proofs.Single.Grid
import LaneDot.Proofs.Kernel.ExactDomain
import LaneDot.Proofs.Conversion
import LaneDot.Proofs.Coverage
import LaneDot.Proofs.Kernel.Simulation
import LaneDot.Proofs.Kernel.Confinement
import LaneDot.Proofs.Kernel.Wrapping
import LaneDot.Proofs.Single.RoundingError
import LaneDot.Proofs.Single.Estimate
import LaneDot.Proofs.Kernel.Accuracy
import LaneDot.Proofs.Kernel.Comparison
import LaneDot.Proofs.Kernel.Progress
import LaneDot.Proofs.Single.Special
import LaneDot.Proofs.Kernel.Special
import LaneDot.Proofs.Kernel.Masking
import LaneDot.Proofs.Kernel.SignSymmetry
import LaneDot.Proofs.Single.Monotone
import LaneDot.Proofs.Kernel.Monotone
import LaneDot.Proofs.Override
import LaneDot.Proofs.Session.Legal
import LaneDot.Proofs.Session.Routes
import LaneDot.Proofs.Session.Dependence
import LaneDot.Proofs.Session.Indifference
import LaneDot.Proofs.Session.Selection
