import LambdaOnOpenStack.Support.Program
import LambdaOnOpenStack.Support.Runs
import LambdaOnOpenStack.Support.Collection
import LambdaOnOpenStack.Support.Decimal
import LambdaOnOpenStack.Support.Delivery
import LambdaOnOpenStack.Support.Interleaving
import LambdaOnOpenStack.Support.Picking
import LambdaOnOpenStack.Support.Reading
import LambdaOnOpenStack.Support.Redirection
import LambdaOnOpenStack.Support.ReplacePair
import LambdaOnOpenStack.Support.Writes
import LambdaOnOpenStack.Values.EventCoding
import LambdaOnOpenStack.Values.EventReading
import LambdaOnOpenStack.Values.Json
import LambdaOnOpenStack.Values.JsonReader
import LambdaOnOpenStack.Values.RubyText
import LambdaOnOpenStack.Registry.Documents
import LambdaOnOpenStack.Registry.GridFS
import LambdaOnOpenStack.Registry.WebApi
import LambdaOnOpenStack.Registry.Listener
import LambdaOnOpenStack.Registry.Requests
import LambdaOnOpenStack.Registry.Changes
import LambdaOnOpenStack.Registry.ChunkStorage
import LambdaOnOpenStack.Registry.ConcurrentPuts
import LambdaOnOpenStack.Registry.Consistency
import LambdaOnOpenStack.Registry.Deletion
import LambdaOnOpenStack.Registry.Dispatch
import LambdaOnOpenStack.Registry.FirstRecord
import LambdaOnOpenStack.Registry.Footprint
import LambdaOnOpenStack.Registry.Frame
import LambdaOnOpenStack.Registry.FunctionMap
import LambdaOnOpenStack.Registry.Growth
import LambdaOnOpenStack.Registry.Guards
import LambdaOnOpenStack.Registry.Invariant
import LambdaOnOpenStack.Registry.Listing
import LambdaOnOpenStack.Registry.Messages
import LambdaOnOpenStack.Registry.NamedFunction
import LambdaOnOpenStack.Registry.Numbering
import LambdaOnOpenStack.Registry.References
import LambdaOnOpenStack.Registry.Refinement
import LambdaOnOpenStack.Registry.RunKeys
import LambdaOnOpenStack.Registry.Storage
import LambdaOnOpenStack.Registry.TextNames
import LambdaOnOpenStack.Registry.Transitions
import LambdaOnOpenStack.Registry.Turns
import LambdaOnOpenStack.Registry.UniqueNames
import LambdaOnOpenStack.Registry.Updates
import LambdaOnOpenStack.Registry.View
import LambdaOnOpenStack.Execution.Attempts
import LambdaOnOpenStack.Execution.Reports
import LambdaOnOpenStack.Execution.Leftovers
import LambdaOnOpenStack.Execution.SharedFiles
import LambdaOnOpenStack.Execution.FailedDispatch
import LambdaOnOpenStack.Execution.EventQueue
import LambdaOnOpenStack.Execution.LogPath
import LambdaOnOpenStack.Execution.Autoscaler
import LambdaOnOpenStack.Execution.NodeListing
import LambdaOnOpenStack.Execution.Utilisation
import LambdaOnOpenStack.Execution.ScalerLoop
import LambdaOnOpenStack.Execution.Fleet
import LambdaOnOpenStack.Registry.CreatedKeys
import LambdaOnOpenStack.Registry.MemoryLimit
import LambdaOnOpenStack.Registry.UploadPaths
import LambdaOnOpenStack.Execution.AddressParser
import LambdaOnOpenStack.Registry.ObjectIds
import LambdaOnOpenStack.Execution.ScalerPace
import LambdaOnOpenStack.Registry.Accounting
import LambdaOnOpenStack.Execution.Swarm
import LambdaOnOpenStack.Registry.Attribution
import LambdaOnOpenStack.Registry.Bystanders
import LambdaOnOpenStack.Registry.Shares
import LambdaOnOpenStack.Registry.WholeFiles
import LambdaOnOpenStack.Support.Scripts
import LambdaOnOpenStack.Execution.Provisioning
import LambdaOnOpenStack.Execution.ClusterSetup
import LambdaOnOpenStack.Execution.ScalerScript
import LambdaOnOpenStack.Support.Services
import LambdaOnOpenStack.Support.Versions
import LambdaOnOpenStack.Execution.EventSource
import LambdaOnOpenStack.Execution.Deployment
import LambdaOnOpenStack.Execution.RunNumbers
import LambdaOnOpenStack.Execution.LogEndpoint
