import RttRos2.Topics.Stream
import RttRos2.Topics.Barrier
import RttRos2.Topics.Drain
import RttRos2.Topics.Names
import RttRos2.Topics.Transport
import RttRos2.Topics.Delivery
import RttRos2.Node.Spinner
import RttRos2.Node.Service
import RttRos2.Services.Dispatch
import RttRos2.Services.Callers
import RttRos2.Services.Types
import RttRos2.Services.Failures
import RttRos2.Services.Independence
import RttRos2.Typekit.Options
import RttRos2.Typekit.Primitives
import RttRos2.Typekit.Time
import RttRos2.Typekit.Parameters
import RttRos2.Params.SetOrDeclare
import RttRos2.Params.Refusals
import RttRos2.Params.Load
import RttRos2.Params.Store
import RttRos2.Params.Owners
import RttRos2.Idl.Members
import RttRos2.Idl.Paths
import RttRos2.Actions.Abandon
import RttRos2.Actions.Cancel
import RttRos2.Actions.Shutdown
import RttRos2.Actions.Accept
import RttRos2.Actions.Reject
import RttRos2.Actions.Finish
import RttRos2.Actions.GoalHook
import RttRos2.Actions.Handler
import RttRos2.Actions.Results
import RttRos2.Actions.Progress
import RttRos2.Actions.Server
import RttRos2.Import.Order
import RttRos2.Import.Result
import RttRos2.Import.Repeat
import RttRos2.Kdl.Chain
import RttRos2.Kdl.Targets
import RttRos2.Kdl.Inputs
import RttRos2.Kdl.Legacy
import RttRos2.Kdl.Mqueue
import RttRos2.Kdl.Corba
