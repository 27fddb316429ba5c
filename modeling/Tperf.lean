import Tperf.Lib.Machine
import Tperf.Lib.Circle
import Tperf.Lib.Text
import Tperf.Config.Hostlist
import Tperf.Proto.Basic
import Tperf.Testplan.Basic
import Tperf.Testplan.Lemmas.Rounds
import Tperf.Testplan.Theorems
import Tperf.Testplan.Lemmas.Assignments
import Tperf.Lib.Bytes
import Tperf.Lib.HighWater
import Tperf.Lib.Word
import Tperf.Dataplane.Basic
import Tperf.Dataplane.Lemmas.Packet
import Tperf.Dataplane.Lemmas.Recv
import Tperf.Dataplane.Lemmas.Send
import Tperf.Dataplane.Link
import Tperf.Dataplane.Lemmas.Link
import Tperf.Dataplane.Theorems.Drops
import Tperf.Dataplane.Lemmas.Pass
import Tperf.Dataplane.Theorems.Accounting
import Tperf.Server.MetricsLoop
import Tperf.Server.Lemmas.MetricsLoop
import Tperf.Lib.Telescope
import Tperf.Metrics.Fields
import Tperf.Server.Theorems.Windows
import Tperf.Server.Theorems.Grid
import Tperf.Lib.Framing
import Tperf.Lib.Wire
import Tperf.Proto.Frame
import Tperf.Server.Session
import Tperf.Server.Lemmas.Session
import Tperf.Server.Lemmas.Stream
import Tperf.Server.Theorems.Frames
import Tperf.Server.Theorems.Lifecycle
import Tperf.Server.Lemmas.Replies
import Tperf.Server.Theorems.Replies
import Tperf.Proto.Theorems
import Tperf.Client.Pump
import Tperf.Dataplane.Theorems.Gaps
import Tperf.Analyze.Basic
import Tperf.Lib.Mediant
import Tperf.Analyze.Lemmas.Stats
import Tperf.Analyze.Lemmas.Load
import Tperf.Analyze.Lemmas.Pairs
import Tperf.Analyze.Theorems.Stats
import Tperf.Analyze.Lemmas.Inserted
import Tperf.Analyze.Theorems.Inserted
import Tperf.Analyze.Theorems.Buckets
import Tperf.Client.Run
import Tperf.Client.Lemmas.Rounds
import Tperf.Client.Theorems.Barrier
import Tperf.Client.Lemmas.Stored
import Tperf.Client.Lemmas.Still
import Tperf.Client.Theorems.Persist
import Tperf.Lib.Ledger
import Tperf.Metrics.Ledger
import Tperf.Dataplane.Io
import Tperf.Dataplane.Lemmas.Ledger
import Tperf.Dataplane.Theorems.Ledger
import Tperf.Db.Thread
import Tperf.Db.Lemmas.Thread
import Tperf.Db.Theorems
import Tperf.Config.Pattern
import Tperf.Config.Lemmas.Expand
import Tperf.Config.Theorems.Expansion
import Tperf.Config.Lemmas.Reach
import Tperf.Config.Theorems.Substitution
import Tperf.Config.Theorems.Oversize
import Tperf.Lib.Rounding
import Tperf.Config.Size
import Tperf.Config.Lemmas.Size
import Tperf.Config.Theorems.Size
import Tperf.Net.Addr
import Tperf.Net.Theorems
import Tperf.Config.Validate
import Tperf.Config.Lemmas.Validate
import Tperf.Config.Theorems.Tag
import Tperf.Lib.Checked
import Tperf.Net.Resolve
import Tperf.Dataplane.Checked
import Tperf.Dataplane.Lemmas.Checked
import Tperf.Server.Launch
import Tperf.Server.Lemmas.Launch
import Tperf.Server.Theorems.Launch
import Tperf.Server.Lemmas.Simulation
import Tperf.Client.Lemmas.Merged
import Tperf.Control.Basic
import Tperf.Control.Lemmas.Heard
import Tperf.Control.Theorems.Refinement
import Tperf.Server.Lemmas.LastStop
import Tperf.Client.Lemmas.Lockstep
import Tperf.Control.Lemmas.Delivered
import Tperf.Control.Theorems.Delivery
import Tperf.Control.Theorems.InStep
import Tperf.Control.Theorems.Schedule
import Tperf.Config.File
import Tperf.Config.Lemmas.File
import Tperf.Config.Lemmas.Hosts
import Tperf.Config.Theorems.File
import Tperf.Dataplane.Fleet
import Tperf.Dataplane.Lemmas.Books
import Tperf.Dataplane.Lemmas.TcpBooks
import Tperf.Dataplane.Lemmas.TcpFleet
import Tperf.Dataplane.Lemmas.UdpBooks
import Tperf.Dataplane.Lemmas.UdpFleet
import Tperf.Dataplane.Theorems.TcpFleet
import Tperf.Dataplane.Theorems.UdpFleet
import Tperf.Server.Lemmas.Measured
import Tperf.Server.Theorems.Measured
import Tperf.Analyze.Report
import Tperf.Analyze.Theorems.Report
import Tperf.Server.Serve
import Tperf.Server.Lemmas.Serve
import Tperf.Server.Theorems.Serve
