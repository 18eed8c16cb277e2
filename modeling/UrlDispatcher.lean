import UrlDispatcher.Db.Basic
import UrlDispatcher.Db.Create
import UrlDispatcher.Db.Integrity
import UrlDispatcher.Db.Registry
import UrlDispatcher.Db.Routes
import UrlDispatcher.Db.Suffix
import UrlDispatcher.Dispatch.AppId
import UrlDispatcher.Dispatch.Application
import UrlDispatcher.Dispatch.Availability
import UrlDispatcher.Dispatch.Client
import UrlDispatcher.Dispatch.Forward
import UrlDispatcher.Dispatch.Generic
import UrlDispatcher.Dispatch.Host
import UrlDispatcher.Dispatch.Intent
import UrlDispatcher.Dispatch.Origin
import UrlDispatcher.Dispatch.Parser
import UrlDispatcher.Dispatch.Preview
import UrlDispatcher.Dispatch.Registered
import UrlDispatcher.Dispatch.Reply
import UrlDispatcher.Dispatch.Routing
import UrlDispatcher.Dispatch.Service
import UrlDispatcher.Dispatch.Session
import UrlDispatcher.Dispatch.Url
import UrlDispatcher.Machine.Basic
import UrlDispatcher.Machine.Simulation
import UrlDispatcher.Overlay.Calls
import UrlDispatcher.Overlay.ExecTool
import UrlDispatcher.Overlay.Notification
import UrlDispatcher.Overlay.Threaded
import UrlDispatcher.Overlay.Tracker
import UrlDispatcher.Path.Basic
import UrlDispatcher.Regex.Basic
import UrlDispatcher.Regex.Newline
import UrlDispatcher.Report.Filing
import UrlDispatcher.Report.Occasion
import UrlDispatcher.Report.Problem
import UrlDispatcher.Sql.Like
import UrlDispatcher.Sql.Table
import UrlDispatcher.Thread.Queue
import UrlDispatcher.Thread.Quit
import UrlDispatcher.Update.Basic
import UrlDispatcher.Update.Concurrent
import UrlDispatcher.Update.Convergence
import UrlDispatcher.Update.Entries
import UrlDispatcher.Update.Fleet
import UrlDispatcher.Update.Frame
import UrlDispatcher.Update.Installed
import UrlDispatcher.Update.Isolation
import UrlDispatcher.Update.Overlap
import UrlDispatcher.Update.Process
import UrlDispatcher.Update.Provenance
import UrlDispatcher.Update.Rebuild
import UrlDispatcher.Update.Recovery
import UrlDispatcher.Update.Refinement
import UrlDispatcher.Update.Rerun
import UrlDispatcher.Update.Solo
import UrlDispatcher.Update.Termination
import UrlDispatcher.Update.Times
