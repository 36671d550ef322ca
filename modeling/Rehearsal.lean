import Rehearsal.Auth.Broker
import Rehearsal.Auth.Config
import Rehearsal.Auth.Http
import Rehearsal.Auth.Reading
import Rehearsal.Auth.TokenService
import Rehearsal.Broker
import Rehearsal.Broker.Client
import Rehearsal.Broker.Cluster
import Rehearsal.Broker.Message
import Rehearsal.Codec
import Rehearsal.Document
import Rehearsal.Document.Coerce
import Rehearsal.Execution
import Rehearsal.Execution.Broker
import Rehearsal.Execution.Http
import Rehearsal.Execution.World
import Rehearsal.Fault
import Rehearsal.Fault.Class
import Rehearsal.Fault.Misconfiguration
import Rehearsal.Gherkin.Sentence
import Rehearsal.Gherkin.Scene
import Rehearsal.Gherkin.Suite
import Rehearsal.Http.Request
import Rehearsal.Http.Response
import Rehearsal.Json.Reader
import Rehearsal.Json.Writer
import Rehearsal.Keyed
import Rehearsal.Logging
import Rehearsal.Machine
import Rehearsal.Number.Binary64
import Rehearsal.Number.Decimal
import Rehearsal.Number.Numeral
import Rehearsal.Number.Shortest
import Rehearsal.Path
import Rehearsal.Pool
import Rehearsal.Record
import Rehearsal.Report
import Rehearsal.Scenario
import Rehearsal.Scenario.Construction
import Rehearsal.Scenario.Engine
import Rehearsal.Scenario.Word
import Rehearsal.Script.World
import Rehearsal.Script.Assertion
import Rehearsal.Script.Auth
import Rehearsal.Script.Call
import Rehearsal.Script.Scenario
import Rehearsal.Script.Machine
import Rehearsal.Script.Step
import Rehearsal.Script.Value
import Rehearsal.Settings
import Rehearsal.Settings.Cache
import Rehearsal.Settings.Loading
import Rehearsal.Settings.Reading
import Rehearsal.Step
import Rehearsal.Step.Change
import Rehearsal.Step.Draft
import Rehearsal.Step.Result
import Rehearsal.Step.Same
import Rehearsal.Step.Tuning
import Rehearsal.Text.Base64
import Rehearsal.Text.Basic
import Rehearsal.Text.LetterCase
import Rehearsal.Text.Quoted
import Rehearsal.Text.Utf8
import Rehearsal.Time.Instant
import Rehearsal.Url.Host
import Rehearsal.Url.Reference
import Rehearsal.Url.Target
import Rehearsal.Validation
import Rehearsal.Validation.Check
import Rehearsal.Value
import Rehearsal.Value.Float
import Rehearsal.Value.Order
import Rehearsal.Value.Same
import Rehearsal.Value.Shown
import Rehearsal.Yaml
import Rehearsal.Yaml.Block
import Rehearsal.Yaml.Cursor
import Rehearsal.Yaml.Node
import Rehearsal.Yaml.Plain
import Rehearsal.Yaml.Quoted
import Rehearsal.Yaml.Scalar
import Rehearsal.Yaml.Tag
import Rehearsal.Yaml.Timestamp
import Rehearsal.Yaml.Token
import Rehearsal.Proofs.Broker.Log
import Rehearsal.Proofs.Broker.Position
import Rehearsal.Proofs.Broker.Run
import Rehearsal.Proofs.Broker.Delivery
import Rehearsal.Proofs.Fallible
import Rehearsal.Proofs.Scenario.Construction
import Rehearsal.Proofs.Scenario.History
import Rehearsal.Proofs.Path.Grammar
import Rehearsal.Proofs.Value.Tree
import Rehearsal.Proofs.Document.Lookup
import Rehearsal.Proofs.Json.Text
import Rehearsal.Proofs.Text.Utf8
import Rehearsal.Proofs.Json.Number
import Rehearsal.Proofs.Value.Sorting
import Rehearsal.Proofs.Json.Container
import Rehearsal.Proofs.Value.Alike
import Rehearsal.Proofs.Json.RoundTrip
import Rehearsal.Proofs.Codec.RoundTrip
import Rehearsal.Proofs.Broker.Stored
import Rehearsal.Proofs.Broker.Sends
import Rehearsal.Proofs.Execution.Result
import Rehearsal.Proofs.Execution.BatchOrder
import Rehearsal.Proofs.Execution.Laws
import Rehearsal.Proofs.Broker.Unread
import Rehearsal.Proofs.Execution.Traffic
import Rehearsal.Proofs.Scenario.Runs
import Rehearsal.Proofs.Scenario.Traffic
import Rehearsal.Proofs.Keyed
import Rehearsal.Proofs.Auth.Overlay
import Rehearsal.Proofs.Scenario.Reach
import Rehearsal.Proofs.Auth.Cache
import Rehearsal.Proofs.Number.Rounding
import Rehearsal.Proofs.Scenario.SignIn
import Rehearsal.Proofs.Auth.Lifetime
import Rehearsal.Proofs.Http.Merging
import Rehearsal.Proofs.Execution.Layers
import Rehearsal.Proofs.Scenario.HeaderCalls
import Rehearsal.Proofs.Auth.Sharing
import Rehearsal.Proofs.Json.Tree
import Rehearsal.Proofs.Validation.JsonPath
import Rehearsal.Proofs.Document.Typed
import Rehearsal.Proofs.Document.Resent
import Rehearsal.Proofs.Scenario.Resource
import Rehearsal.Proofs.Pool.Sharing
import Rehearsal.Proofs.Execution.Provenance
import Rehearsal.Proofs.Settings.Switch
import Rehearsal.Proofs.Settings.Reading
import Rehearsal.Proofs.Broker.KeyOrder
import Rehearsal.Proofs.Value.Plain
import Rehearsal.Proofs.Report.Secrets
import Rehearsal.Proofs.Json.Limit
import Rehearsal.Proofs.Json.Line
import Rehearsal.Proofs.Report.Export
import Rehearsal.Proofs.Scenario.Pending
import Rehearsal.Proofs.Gherkin.Judged
import Rehearsal.Proofs.Document.Exact
import Rehearsal.Proofs.Scenario.Modifiers
import Rehearsal.Proofs.Scenario.Milliseconds
import Rehearsal.Proofs.Scenario.Validity
import Rehearsal.Proofs.Settings.Environment
import Rehearsal.Proofs.Scenario.Failure
import Rehearsal.Proofs.Gherkin.Equality
import Rehearsal.Proofs.Scenario.CustomHeaders
import Rehearsal.Proofs.Auth.Footprint
import Rehearsal.Proofs.Auth.Credentials
import Rehearsal.Proofs.Scenario.TokenFailure
import Rehearsal.Proofs.Execution.Release
import Rehearsal.Proofs.Step.Timing
import Rehearsal.Proofs.Document.Expanded
import Rehearsal.Proofs.Scenario.Query
import Rehearsal.Proofs.Step.Evolution
import Rehearsal.Proofs.Execution.ResponseHeaders
