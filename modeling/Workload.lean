import Workload.Lib.Trace
import Workload.Lib.Intrusive
import Workload.Lib.Ranking
import Workload.Lib.Tiers
import Workload.Lib.Sums
import Workload.Lib.Shuffle
import Workload.Model.Text
import Workload.Model.Math
import Workload.Model.Db
import Workload.Model.Xml
import Workload.Model.State
import Workload.Model.Meta
import Workload.Model.File
import Workload.Model.Access
import Workload.Model.Storage
import Workload.Model.Config
import Workload.Model.Control
import Workload.Model.System
import Workload.Correctness.Views
import Workload.Correctness.Placement
import Workload.Correctness.Loading
import Workload.Correctness.Assigning
import Workload.Correctness.Counting
import Workload.Correctness.Services
import Workload.Correctness.Ranks
import Workload.Correctness.Lists
import Workload.Correctness.Tiering
import Workload.Correctness.Conservation
import Workload.Correctness.Sampling
import Workload.Correctness.Copies
import Workload.Correctness.Divisors
import Workload.Correctness.Veils
import Workload.Correctness.Verbosity
import Workload.Correctness.Reloading
import Workload.Correctness.Writing
import Workload.Correctness.Cleaning
import Workload.Lib.Runs
import Workload.Model.Udp
import Workload.Correctness.Datagrams
import Workload.Correctness.Requests
import Workload.Correctness.ServiceLife
import Workload.Lib.Locking
import Workload.Model.Locks
import Workload.Correctness.Locking
import Workload.Correctness.Ledger
import Workload.Lib.Mirror
import Workload.Correctness.Commands
import Workload.Correctness.Names
import Workload.Correctness.Balance
import Workload.Correctness.Transfers
import Workload.Lib.Memory
import Workload.Model.Results
import Workload.Correctness.Results
import Workload.Lib.Quoting
import Workload.Model.Sql
import Workload.Correctness.Statements
import Workload.Lib.Trees
import Workload.Model.Directories
import Workload.Correctness.Directories
import Workload.Correctness.Failures
import Workload.Correctness.Mirror
import Workload.Correctness.Random
import Workload.Correctness.Disks
import Workload.Correctness.Timer
import Workload.Correctness.Numerals
import Workload.Correctness.View
import Workload.Correctness.Pattern
import Workload.Lib.Linked
import Workload.Lib.MarkedStack
import Workload.Model.Paths
import Workload.Correctness.Paths
import Workload.Correctness.Basename
import Workload.Lib.Blocks
import Workload.Model.Rendering
import Workload.Correctness.Rendering
import Workload.Correctness.Roundtrip
import Workload.Correctness.Lookup
import Workload.Lib.Parents
import Workload.Model.Ezxml
import Workload.Model.Parser
import Workload.Correctness.Tags
import Workload.Correctness.Outline
import Workload.Correctness.Syntax
import Workload.Correctness.Decoding
import Workload.Correctness.Scanning
import Workload.Correctness.Filling
import Workload.Correctness.Nodes
import Workload.Correctness.Parsing
import Workload.Lib.Spans
import Workload.Correctness.Utf8
import Workload.Correctness.Handlers
import Workload.Correctness.Reading
import Workload.Correctness.Opening
import Workload.Model.Reply
import Workload.Correctness.Replies
import Workload.Correctness.Serving
