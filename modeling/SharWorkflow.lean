import SharWorkflow.Nats.Linearizability
import SharWorkflow.Join.Completion
import SharWorkflow.Messages.Delivery
import SharWorkflow.Messages.Missing
import SharWorkflow.Messages.Waiting
import SharWorkflow.Tokens.Exits
import SharWorkflow.Engine.Isolation
import SharWorkflow.Timers.Boundary
import SharWorkflow.Timers.Schedule
import SharWorkflow.Calls.Completion
import SharWorkflow.Fatal.Dropped
import SharWorkflow.Fatal.Retry
import SharWorkflow.Launch.Rollback
import SharWorkflow.Launch.Deprecation
import SharWorkflow.Links.Agreement
import SharWorkflow.Registry.Rejection
import SharWorkflow.Registry.Reload
import SharWorkflow.Registry.Mapping
import SharWorkflow.Registry.Parameters
import SharWorkflow.Registry.Ledger
import SharWorkflow.Client.Settlement
import SharWorkflow.Join.Merge
import SharWorkflow.Parser.Validation
import SharWorkflow.Gateways.CollectedKeys
import SharWorkflow.Linter.Termination
import SharWorkflow.Variables.Definedness
import SharWorkflow.Tokens.Selection
import SharWorkflow.Client.Backoff
import SharWorkflow.Parser.Durations
import SharWorkflow.Executions.Destruction
import SharWorkflow.Registry.Usage
import SharWorkflow.Users.Owners
import SharWorkflow.Users.Tasks
import SharWorkflow.Client.KeepAlive
import SharWorkflow.Client.Executors
import SharWorkflow.Client.Definitions
import SharWorkflow.Fatal.Disclosure
import SharWorkflow.Api.Streaming
import SharWorkflow.Timers.Workers
import SharWorkflow.Api.Endpoints
import SharWorkflow.Api.Auth
import SharWorkflow.Registry.Base62
import SharWorkflow.Registry.Keys
import SharWorkflow.Variables.Buffers
import SharWorkflow.Setup.Streams
