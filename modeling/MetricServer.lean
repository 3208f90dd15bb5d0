import MetricServer.Base.CString
import MetricServer.Base.Ledger
import MetricServer.Base.Memory
import MetricServer.Base.Monitor
import MetricServer.Base.OrderedMap
import MetricServer.Base.Split
import MetricServer.Base.Tokens
import MetricServer.Base.Trace
import MetricServer.Client.Calls
import MetricServer.Client.Client
import MetricServer.Client.Outcomes
import MetricServer.Demo.Autoscaler
import MetricServer.Demo.Joint
import MetricServer.Demo.Messages
import MetricServer.Demo.Sendreq
import MetricServer.Handler.Attempt
import MetricServer.Handler.Connections
import MetricServer.Handler.Iteration
import MetricServer.Handler.Loop
import MetricServer.Handler.Machine
import MetricServer.Handler.Numbers
import MetricServer.Handler.Ownership
import MetricServer.Handler.Presence
import MetricServer.Handler.Runs
import MetricServer.Handler.Server
import MetricServer.Handler.Table
import MetricServer.Handler.Transfers
import MetricServer.Http.Bytes
import MetricServer.Http.Checked
import MetricServer.Http.Fields
import MetricServer.Http.FirstLine
import MetricServer.Http.Leftover
import MetricServer.Http.Message
import MetricServer.Http.Request
import MetricServer.Http.RequestLine
import MetricServer.Http.Response
import MetricServer.Http.Store
import MetricServer.Lifecycle.Lifetime
import MetricServer.Lifecycle.Threads
import MetricServer.Properties.Announcements
import MetricServer.Properties.Attention
import MetricServer.Properties.Bounds
import MetricServer.Properties.Buffer
import MetricServer.Properties.Capacity
import MetricServer.Properties.Conduct
import MetricServer.Properties.Custody
import MetricServer.Properties.Dialogues
import MetricServer.Properties.Distribution
import MetricServer.Properties.Encryption
import MetricServer.Properties.Endpoints
import MetricServer.Properties.Framing
import MetricServer.Properties.Headers
import MetricServer.Properties.Holdings
import MetricServer.Properties.Isolation
import MetricServer.Properties.KeepAlive
import MetricServer.Properties.Lifetime
import MetricServer.Properties.Loads
import MetricServer.Properties.Metrics
import MetricServer.Properties.PartialSends
import MetricServer.Properties.Pipelining
import MetricServer.Properties.Residue
import MetricServer.Properties.Routing
import MetricServer.Properties.Scaling
import MetricServer.Properties.Scraping
import MetricServer.Properties.Segments
import MetricServer.Properties.Sequencing
import MetricServer.Properties.Sessions
import MetricServer.Properties.Settlement
import MetricServer.Properties.Shutdown
import MetricServer.Properties.Survival
import MetricServer.Properties.Transmission
import MetricServer.Properties.Truncation
import MetricServer.Properties.Usage
import MetricServer.Properties.Workload
