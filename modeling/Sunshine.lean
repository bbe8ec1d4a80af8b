import Sunshine.Lib.Slices
import Sunshine.Lib.Bytes
import Sunshine.Lib.Transitions
import Sunshine.Lib.Occurrences
import Sunshine.Lib.Entries
import Sunshine.Video.ConcatAndInsert
import Sunshine.Video.FecBlocks
import Sunshine.Video.FecEncode
import Sunshine.Video.Packetize
import Sunshine.Video.Transmit
import Sunshine.Video.FecInfo
import Sunshine.Video.Pacing
import Sunshine.Video.Deadline
import Sunshine.Session.Nonces
import Sunshine.Session.Lifecycle
import Sunshine.Session.Control
import Sunshine.Session.ControlBounds
import Sunshine.Session.ControlPeers
import Sunshine.Session.ControlService
import Sunshine.Input.Drain
import Sunshine.Pairing.Phases
import Sunshine.Pairing.Requests
import Sunshine.Pairing.ClientStore
import Sunshine.Lib.Texts
import Sunshine.Lib.Outcomes
import Sunshine.Lib.Coalesce
import Sunshine.Session.RtspReader
import Sunshine.Session.RtspEncrypted
import Sunshine.Session.Admission
import Sunshine.Session.Handoff
import Sunshine.Config.Parse
import Sunshine.Config.Lines
import Sunshine.Config.Save
import Sunshine.Profile.ClientProfiles
import Sunshine.Profile.Launch
import Sunshine.Audio.Broadcast
import Sunshine.Input.Batch
import Sunshine.Input.BatchRuns
import Sunshine.Input.Reset
import Sunshine.Input.ResetRuns
import Sunshine.Input.Layout
import Sunshine.Input.Dispatch
import Sunshine.Input.DispatchBounds
import Sunshine.Lib.Identifiers
import Sunshine.Input.Gamepads
import Sunshine.Lib.Threads
import Sunshine.Update.Install
import Sunshine.Update.Worker
import Sunshine.Update.Phases
import Sunshine.Update.Cancel
import Sunshine.Update.Verified
import Sunshine.Process.Commands
import Sunshine.Process.Refresh
import Sunshine.Lib.Scatter
import Sunshine.Platform.SendBatch
import Sunshine.Video.Invalidation
import Sunshine.Web.Tokens
import Sunshine.Web.Requests
import Sunshine.Web.Handlers
import Sunshine.Session.History
import Sunshine.Video.Probe
import Sunshine.Video.Advertised
import Sunshine.Process.Parse
import Sunshine.Process.AppIds
import Sunshine.Video.CaptureSessions
import Sunshine.Video.CaptureHandover
import Sunshine.Video.CaptureThread
import Sunshine.Video.CaptureFrames
import Sunshine.Video.PacketLifetime
import Sunshine.Input.HomeEmulation
import Sunshine.Input.HomeRuns
import Sunshine.Lib.Changes
import Sunshine.Input.MouseButtons
import Sunshine.Input.Modifiers
import Sunshine.Input.ModifierRuns
import Sunshine.Lib.Remainders
import Sunshine.Input.Scroll
import Sunshine.Input.ScrollSplits
import Sunshine.Pairing.Retries
import Sunshine.Lib.Trials
import Sunshine.Pairing.CertChain
import Sunshine.Lib.Agenda
import Sunshine.Tasks.TaskPool
import Sunshine.Tasks.TimerOrder
import Sunshine.Tasks.ThreadPool
import Sunshine.Tasks.WorkerSteps
import Sunshine.Tasks.WakeUps
import Sunshine.Tasks.WakeRuns
import Sunshine.Video.AdaptiveBitrate
import Sunshine.Video.BitrateRecovery
import Sunshine.Lib.Networks
import Sunshine.Pairing.TrustedSubnet
import Sunshine.Lib.Fifo
import Sunshine.ThreadSafe.Queue
import Sunshine.ThreadSafe.QueueRuns
import Sunshine.ThreadSafe.Mail
import Sunshine.ThreadSafe.MailRuns
import Sunshine.Session.Pings
import Sunshine.Lib.Registrations
import Sunshine.Session.PingRuns
import Sunshine.Config.Options
import Sunshine.Config.Independence
import Sunshine.Config.Layout
import Sunshine.Lib.Cursors
import Sunshine.Lib.Brackets
import Sunshine.Process.EnvVal
import Sunshine.Session.Announce
import Sunshine.Config.ListOption
import Sunshine.Lib.FixedWindow
import Sunshine.Web.RateLimit
import Sunshine.Platform.Touchpad
import Sunshine.Lib.Compaction
import Sunshine.Platform.TouchSlots
import Sunshine.Platform.TouchRuns
import Sunshine.Platform.NvPrefs
import Sunshine.Platform.HeadlessCompositor
import Sunshine.Process.Headless
import Sunshine.Lib.Cyclic
import Sunshine.Video.Numbering
import Sunshine.Lib.LastSeen
import Sunshine.Video.ImagePool
import Sunshine.Lib.Padded
import Sunshine.Update.Versions
import Sunshine.Lib.Decimals
import Sunshine.Display.Parsing
import Sunshine.Display.Remapping
import Sunshine.Lib.FirstMatch
import Sunshine.Lib.Utf8
import Sunshine.Lib.Json
import Sunshine.Lib.JsonTexts
import Sunshine.Lib.JsonNumbers
import Sunshine.Logging.JsonLines
import Sunshine.Session.HistoryFile
import Sunshine.Session.HistoryRoundTrip
import Sunshine.Lib.Clamps
import Sunshine.Input.TouchPort
import Sunshine.Lib.Extremum
import Sunshine.Session.LatencyCells
import Sunshine.Session.LatencyRuns
import Sunshine.ThreadSafe.Shared
import Sunshine.ThreadSafe.SharedRuns
import Sunshine.Audio.Effects
import Sunshine.Audio.EffectsTiming
import Sunshine.Lib.CommandLine
import Sunshine.Platform.WindowsArguments
import Sunshine.Lib.KeyEntry
import Sunshine.Platform.UnicodeTyping
import Sunshine.Lib.Overlaps
import Sunshine.Platform.CursorPixels
import Sunshine.Platform.KmsCursor
import Sunshine.Platform.X11Cursor
import Sunshine.Platform.RamCursor
import Sunshine.Platform.BlendStates
import Sunshine.Platform.VramCursor
import Sunshine.Platform.VramMasks
import Sunshine.Lib.Picks
import Sunshine.Display.KmsNames
import Sunshine.Display.KmsPlanes
import Sunshine.Display.KmsTables
import Sunshine.Display.KmsAgreement
import Sunshine.Lib.Rings
import Sunshine.Audio.WasapiBuffer
import Sunshine.Lib.Frames
import Sunshine.Audio.SystemTap
import Sunshine.Audio.HostSink
import Sunshine.Platform.TouchFingers
import Sunshine.Display.Screencopy
import Sunshine.Lib.Pacing
import Sunshine.Display.HermesKms
import Sunshine.Platform.MacPointer
import Sunshine.Lib.Globs
import Sunshine.Platform.SeatRule
import Sunshine.Pairing.Identity
import Sunshine.Lib.Doubles
import Sunshine.Display.FramePacing
import Sunshine.Display.PipewirePacing
import Sunshine.Web.Telemetry
import Sunshine.Video.PacedGroups
import Sunshine.Lib.JoinedOrders
import Sunshine.Display.DisplayOrder
import Sunshine.Config.Integers
import Sunshine.Platform.Upnp
import Sunshine.Lib.ReadUntil
import Sunshine.Process.GameFiles
import Sunshine.Process.GameScanner
import Sunshine.Display.PipewireBuffers
import Sunshine.Web.StaticFiles
