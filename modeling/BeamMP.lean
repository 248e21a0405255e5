import BeamMP.Client.VehicleLoss
import BeamMP.Server.CarLimit
import BeamMP.Server.VehicleIDs
import BeamMP.Server.HandlerAgreement
import BeamMP.Server.UdpPackets
import BeamMP.Server.VehicleOwnership
import BeamMP.Network.Session
import BeamMP.Network.GhostVehicles
import BeamMP.Network.Broadcast
import BeamMP.Network.OpenID
import BeamMP.Network.StreamRoundTrip
import BeamMP.Network.TornFrames
import BeamMP.Network.ConnectionLimiter
import BeamMP.Network.PlayerLimit
import BeamMP.Network.StaleSessions
import BeamMP.Network.FrameLimit
import BeamMP.Network.DeadSocket
import BeamMP.Network.UdpBinding
import BeamMP.Lua.EngineLocks
import BeamMP.Server.PidVid
import BeamMP.Server.PositionPackets
import BeamMP.Common.Decompression
import BeamMP.Server.VehiclePositions
import BeamMP.Server.PPSMonitor
import BeamMP.Server.RelayedConfigs
import BeamMP.Lua.TimedEvents
import BeamMP.Common.Settings
import BeamMP.Console.SettingsCommand
import BeamMP.Network.InformationPacket
import BeamMP.Resources.ResourceManager
import BeamMP.Resources.ProtectedMods
import BeamMP.Lua.ResultSnapshots
import BeamMP.Network.Admission
import BeamMP.Network.DatagramBounds
import BeamMP.Network.VersionGate
import BeamMP.Network.WireForm
import BeamMP.Server.EventPackets
import BeamMP.Common.JsonEquality
import BeamMP.Lua.JsonConversion
import BeamMP.Lua.GlobalEvents
import BeamMP.Network.WholeDownloads
import BeamMP.Common.JsonMembers
import BeamMP.Resources.HashCache
import BeamMP.Common.PrettyTags
import BeamMP.Common.Profiling
import BeamMP.Network.FreeIDs
import BeamMP.Common.ArgsParser
import BeamMP.Network.CurlLeases
import BeamMP.Foundation.Iteration
import BeamMP.Console.ParseCommand
import BeamMP.Common.ConfigFile
import BeamMP.Foundation.Substrings
import BeamMP.Resources.AdvertisedMods
import BeamMP.Foundation.WorkQueues
import BeamMP.Lua.StateQueues
import BeamMP.Foundation.Alternation
import BeamMP.Lua.ResultChecks
import BeamMP.Foundation.Spacing
import BeamMP.Lua.EventTimers
import BeamMP.Lua.PluginMonitor
import BeamMP.Lua.Startup
import BeamMP.Console.Autocomplete
import BeamMP.Console.LuaConsole
import BeamMP.Network.TimedReads
import BeamMP.Network.PlayerEvents
import BeamMP.Network.StartGate
import BeamMP.Server.HandlerFrames
import BeamMP.Server.PluginCalls
import BeamMP.Server.ServerRuns
import BeamMP.Foundation.Replay
import BeamMP.Server.VehicleEvents
import BeamMP.Server.VehicleRoster
import BeamMP.Server.PluginView
import BeamMP.Common.Shutdown
import BeamMP.Console.PlayerCommands
import BeamMP.Server.PlayerIDs
