import SetPipeline.Client
import SetPipeline.Session.Step
import SetPipeline.Proofs.Double
import SetPipeline.Proofs.Decimal
import SetPipeline.Proofs.Number
import SetPipeline.Proofs.Config
import SetPipeline.Proofs.Pipeline.Correlation
import SetPipeline.Proofs.Pipeline.Exhaustion
import SetPipeline.Proofs.Pipeline.Window
import SetPipeline.Proofs.Pipeline.Order
import SetPipeline.Proofs.Pipeline.Failures
import SetPipeline.Proofs.Pipeline.Sequential
import SetPipeline.Proofs.Pipeline.Typing
import SetPipeline.Proofs.Pipeline.Raised
import SetPipeline.Proofs.Pipeline.Dispatch
import SetPipeline.Proofs.Pipeline.Rounds
import SetPipeline.Proofs.Pipeline.Closing
import SetPipeline.Proofs.Pipeline.Progress
import SetPipeline.Proofs.Pipeline.Clock
import SetPipeline.Proofs.Pipeline.Clock.Ends
import SetPipeline.Proofs.Pipeline.Clock.Single
import SetPipeline.Proofs.Store.Unchanged
import SetPipeline.Proofs.Store.Representation
import SetPipeline.Proofs.Store.Locality
import SetPipeline.Proofs.Store.Tally
import SetPipeline.Proofs.Store.Stored
import SetPipeline.Proofs.Store.Draining
import SetPipeline.Proofs.Store.Moves
import SetPipeline.Proofs.Serving.Unbroken
import SetPipeline.Proofs.Serving.Sequence
import SetPipeline.Proofs.Serving.Clock
import SetPipeline.Proofs.Serving.Direct
import SetPipeline.Proofs.Client.Building
import SetPipeline.Proofs.Client.Chaining
import SetPipeline.Proofs.Client.Admission
import SetPipeline.Proofs.Client.Arguments
import SetPipeline.Proofs.Client.Calls
import SetPipeline.Proofs.Client.Gate
import SetPipeline.Proofs.Client.Surface
import SetPipeline.Proofs.Client.Direct
