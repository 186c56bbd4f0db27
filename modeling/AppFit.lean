import AppFit.Lib.Runs
import AppFit.Agent.Report
import AppFit.Agent.ProcessTree
import AppFit.Lib.Shell
import AppFit.Server.PlotFiles
import AppFit.Server.LaunchAgent
import AppFit.Server.Analytics
import AppFit.Server.BuiltImages
import AppFit.Server.FreshPlots
import AppFit.Server.CpuSets
import AppFit.Server.Upload
import AppFit.Browser.Page
import AppFit.Browser.Session
import AppFit.Browser.Mounts
import AppFit.Browser.Recording
import AppFit.Browser.UploadFirst
import AppFit.Lib.Bytes
import AppFit.Lib.Awk
import AppFit.Lib.Json
import AppFit.Agent.Message
import AppFit.Agent.SlotOrder
import AppFit.Server.Options
import AppFit.Browser.FormSync
import AppFit.Browser.Recommendation
import AppFit.Agent.ProcessGraph
import AppFit.Lib.Dict
import AppFit.Lib.JsonRoundTrip
import AppFit.Server.CacheStore
import AppFit.Agent.Aggregate
import AppFit.Agent.Queue
import AppFit.Agent.ReportText
import AppFit.Browser.Delivery
import AppFit.Browser.Requests
import AppFit.Browser.Shown
import AppFit.Server.Service
import AppFit.Agent.Lifecycle
import AppFit.Server.Compose
import AppFit.Redis.QueueKey
import AppFit.Redis.ListStore
import AppFit.Browser.EndToEnd
