import FleetRouter.Api.Dashboard
import FleetRouter.ChainApi.BlockAnswer
import FleetRouter.ChainApi.Probe
import FleetRouter.ChainApi.Push
import FleetRouter.ChainApi.Resolve
import FleetRouter.ChainApi.RoundRobin
import FleetRouter.Config.Tls
import FleetRouter.Fleet.Abi
import FleetRouter.Fleet.Alternative
import FleetRouter.Fleet.Canonical
import FleetRouter.Fleet.Hub
import FleetRouter.Fleet.Legs
import FleetRouter.Fleet.Monitor
import FleetRouter.Fleet.Observe
import FleetRouter.Fleet.Pool
import FleetRouter.Fleet.Preference
import FleetRouter.Fleet.Quarantine
import FleetRouter.Fleet.Recheck
import FleetRouter.Fleet.Report
import FleetRouter.Net.Empty
import FleetRouter.Net.Positions
import FleetRouter.Net.Replay
import FleetRouter.Runtime.Connections
import FleetRouter.Runtime.Editor
import FleetRouter.Session.Budget
import FleetRouter.Session.Frames
import FleetRouter.Session.LegEnd
import FleetRouter.Session.Ring
import FleetRouter.Session.StatusOrder
import FleetRouter.Api.Capture
import FleetRouter.ChainApi.Slots
import FleetRouter.Session.Timer
import FleetRouter.Fleet.Poll
import FleetRouter.Fleet.Stale
import FleetRouter.Fleet.Upstream
import FleetRouter.Config.Reload
import FleetRouter.ChainApi.Relay
