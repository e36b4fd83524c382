import TensorProgram.Inference.Outputs
import TensorProgram.Mesh.Groups
import TensorProgram.Program.Call
import TensorProgram.Program.Complete
import TensorProgram.Proofs.Changes
import TensorProgram.Proofs.Step
import TensorProgram.Proofs.Runs
import TensorProgram.Proofs.Search
import TensorProgram.Proofs.Calls
import TensorProgram.Proofs.Effects
import TensorProgram.Proofs.Growth
import TensorProgram.Proofs.Scoping
import TensorProgram.Proofs.Forest
import TensorProgram.Proofs.Naming
import TensorProgram.Proofs.Rendered
import TensorProgram.Proofs.Ownership
import TensorProgram.Proofs.Regions
import TensorProgram.Proofs.Frozen
import TensorProgram.Proofs.Outcomes
import TensorProgram.Proofs.Endings
import TensorProgram.Proofs.FunctionNames
import TensorProgram.Proofs.Accepted
import TensorProgram.Proofs.Validity
import TensorProgram.Proofs.Explicit
import TensorProgram.Proofs.Faults
import TensorProgram.Proofs.Guards
import TensorProgram.Proofs.Rejection
import TensorProgram.Proofs.GivenShapes
import TensorProgram.Proofs.Recorded
import TensorProgram.Proofs.CollectiveAxes
import TensorProgram.Proofs.Channels
import TensorProgram.Proofs.Numbering
import TensorProgram.Proofs.Renaming
import TensorProgram.Proofs.RenamedChecks
import TensorProgram.Proofs.RenamedRuns
import TensorProgram.Proofs.RenamedText
import TensorProgram.Proofs.Scripts
import TensorProgram.Proofs.Independence
import TensorProgram.Proofs.Distribution
import TensorProgram.Proofs.ShownShardings
import TensorProgram.Proofs.MirroredAccess
import TensorProgram.Proofs.Coordinates
import TensorProgram.Proofs.Meshes
import TensorProgram.Proofs.GroupSizes
import TensorProgram.Proofs.SharedCoordinates
import TensorProgram.Proofs.ReplicaGroups
import TensorProgram.Proofs.AxisUse
import TensorProgram.Proofs.ShardCounts
import TensorProgram.Proofs.Evaluation
import TensorProgram.Proofs.BetterPair
import TensorProgram.Proofs.ExtremePositions
import TensorProgram.Proofs.Extents
import TensorProgram.Proofs.Reductions
import TensorProgram.Proofs.WindowStages
import TensorProgram.Proofs.Enclosed
import TensorProgram.Proofs.RecordTexts
import TensorProgram.Proofs.ConvolutionTexts
import TensorProgram.Proofs.TensorTypes
import TensorProgram.Proofs.Literals
import TensorProgram.Proofs.ElementTexts
import TensorProgram.Proofs.LiteralTexts
import TensorProgram.Proofs.LiteralRanges
import TensorProgram.Proofs.Combinators
import TensorProgram.Proofs.WindowPlaces
import TensorProgram.Proofs.ConvolvedExtents
import TensorProgram.Proofs.GatheredAxes
import TensorProgram.Proofs.RemainingAxes
import TensorProgram.Proofs.DotProducts
import TensorProgram.Proofs.AcceptedShardings
import TensorProgram.Proofs.ReductionStages
import TensorProgram.Proofs.SearchEffects
import TensorProgram.Proofs.AxisByAxis
import TensorProgram.Proofs.Slices
import TensorProgram.Proofs.Pads
import TensorProgram.Proofs.Concatenations
import TensorProgram.Proofs.AxisMaps
import TensorProgram.Proofs.Transposes
import TensorProgram.Proofs.BroadcastOrder
import TensorProgram.Proofs.Broadcasts
import TensorProgram.Proofs.Bitcasts
import TensorProgram.Proofs.Spectra
import TensorProgram.Proofs.Exchanges
import TensorProgram.Proofs.DeviceLists
import TensorProgram.Proofs.OneLine
import TensorProgram.Proofs.Indentation
import TensorProgram.Proofs.Declarations
import TensorProgram.Proofs.AlikeMeshes
import TensorProgram.Proofs.CustomCalls
import TensorProgram.Proofs.QuotedTexts
import TensorProgram.Proofs.Roundings
import TensorProgram.Proofs.WrittenNumbers
import TensorProgram.Proofs.RealTexts
import TensorProgram.Proofs.PositionalNames
import TensorProgram.Proofs.Identifiers
