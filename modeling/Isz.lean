import Isz.Amdgpu.Index
import Isz.Amdgpu.Bucket
import Isz.Library.Bucketing
import Isz.Library.Text
import Isz.Library.Runs
import Isz.Library.Except
import Isz.Library.Trace
import Isz.Library.Dict
import Isz.Library.Grouping
import Isz.Library.Base64
import Isz.Library.Cipher
import Isz.Amdgpu.Histogram
import Isz.Amdgpu.Batch
import Isz.Amdgpu.Recording
import Isz.Amdgpu.Finite
import Isz.Amdgpu.Derive
import Isz.Amdgpu.Report
import Isz.Amdgpu.Layout
import Isz.Amdgpu.Encoding
import Isz.Amdgpu.Reader
import Isz.Library.AttrSet
import Isz.Syncoid.Allow
import Isz.Syncoid.Delegation
import Isz.Syncoid.Naming
import Isz.Syncoid.Services
import Isz.Syncoid.Replication
import Isz.Dns.Zone
import Isz.Dns.Conversion
import Isz.Dns.Router
import Isz.Dns.Update
import Isz.Dns.Reconcile
import Isz.Dns.Visit
import Isz.Dns.Completion
import Isz.Dns.Convergence
import Isz.Dns.DryRun
import Isz.Dns.Resumption
import Isz.Fluke.Protocol
import Isz.Fluke.Pairing
import Isz.Fluke.Mixing
import Isz.Fluke.Wakeup
import Isz.Rapl.Script
import Isz.Rapl.Energy
import Isz.Journald.Pipeline
import Isz.Journald.Delivery
import Isz.Linkzone.Token
import Isz.Climate.Control
import Isz.Climate.Setpoint
import Isz.Amdgpu.Parsing
import Isz.Amdgpu.Ctypes
import Isz.Wago.Chunking
import Isz.Wago.Resync
import Isz.Dashboard.Weathergram
import Isz.Library.Regex
import Isz.Library.PyNumber
import Isz.Mikrotik.Duration
import Isz.Library.PyDict
import Isz.Mikrotik.Ttl
import Isz.Mikrotik.Parsers
import Isz.Mikrotik.Detection
import Isz.Mikrotik.Collection
import Isz.Library.Lexer
import Isz.Library.Condition
import Isz.Grafana.Rendering
import Isz.Grafana.Literals
import Isz.Grafana.Flux
import Isz.Grafana.FluxFilter
import Isz.Grafana.Sql
import Isz.Grafana.SqlFilter
import Isz.Library.Pyparsing
import Isz.Mikrotik.Swos
import Isz.Linkzone.Obfuscation
import Isz.Climate.Settling
import Isz.Climate.Range
import Isz.Wago.Fields
import Isz.Mikrotik.Counters
import Isz.Dashboard.Lines
import Isz.Library.Dataflow
import Isz.Library.Delimited
import Isz.Fluke.Framing
import Isz.LogWidget.Message
import Isz.LogWidget.Widget
import Isz.Hugoai.Light
import Isz.Dns.Leases
import Isz.Amdgpu.Reporting
import Isz.Dns.Economy
import Isz.Library.FileSystem
import Isz.Bitmagnet.Persist
import Isz.QtInstaller.Recovery
import Isz.Syncoid.Client
import Isz.Syncoid.Holds
import Isz.Library.Retained
import Isz.MqttImage.Convergence
import Isz.MqttImage.Tearing
import Isz.Bsproxy.Forwarding
import Isz.Mikrotik.Ports
import Isz.Journald.Remap
