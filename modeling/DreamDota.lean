import DreamDota.Dispatcher.Level
import DreamDota.Dispatcher.Discard
import DreamDota.Dispatcher.Registration
import DreamDota.Dispatcher.Current
import DreamDota.Packet.EventData
import DreamDota.Packet.Origin
import DreamDota.Packet.Selection
import DreamDota.Timer.Pass
import DreamDota.Timer.Timing
import DreamDota.Timer.Callback
import DreamDota.Timer.Ownership
import DreamDota.Auth.MessageRoundTrip
import DreamDota.Auth.Xxtea
import DreamDota.Auth.StringManager
import DreamDota.Auth.KeyDisclosure
import DreamDota.Auth.Change
import DreamDota.Auth.StopWaits
import DreamDota.Interface.Table
import DreamDota.Interface.Input
import DreamDota.Units.UnitGroup
import DreamDota.Packet.SelectionPacket
import DreamDota.Packet.Payload
import DreamDota.Units.LastHit
import DreamDota.Hooks.ObjectHookManager
import DreamDota.Timer.Handles
import DreamDota.Script.Callbacks
import DreamDota.Script.Scheduler
import DreamDota.Script.References
import DreamDota.Http.Buffer
import DreamDota.Http.Lock
import DreamDota.Auth.EncryptedData
import DreamDota.Auth.GetUpdate
import DreamDota.Stats.LatencyReset
import DreamDota.Stats.LatencyWindow
import DreamDota.Stats.Apm
import DreamDota.Stats.ChanceGreaterEqual
import DreamDota.Auth.WorkerState
import DreamDota.Auth.StopRequest
import DreamDota.Auth.AliveThread
import DreamDota.Build.Skip
import DreamDota.Auth.LoginPacket
import DreamDota.Units.EnemyAlert
import DreamDota.Units.PreselectUIBind
import DreamDota.Interface.UIObject
import DreamDota.Auth.UpdateCancel
import DreamDota.Auth.SessionBroken
import DreamDota.Stats.DistributionMap
import DreamDota.Stats.Convolution
import DreamDota.Interface.DynamicHotkey
import DreamDota.Interface.PlayerColor
import DreamDota.Interface.ProductionRefresh
import DreamDota.Interface.KeyRepeatFlags
import DreamDota.Units.AgentAncestor
import DreamDota.Units.NearestUnit
import DreamDota.Units.CountUnitTypeId
import DreamDota.Units.UnitFilter
import DreamDota.Dispatcher.TriggerEventFilter
import DreamDota.Script.FilterGroup
import DreamDota.Script.GroupAll
import DreamDota.Units.MissileManager
import DreamDota.Script.AttackRangeImages
import DreamDota.Interface.FilterStringColor
import DreamDota.Interface.DisBtnPath
import DreamDota.Interface.Profile
import DreamDota.Installer.ThreadFileIO
import DreamDota.Protect.Crc32
import DreamDota.Build.JassNativeAgree
import DreamDota.Auth.RoamingProfile
import DreamDota.Auth.War3InjectCleanup
import DreamDota.Auth.FindProcessHandle
import DreamDota.Auth.Memcpy
import DreamDota.Auth.SimpleBlock
import DreamDota.Auth.Rand
import DreamDota.Auth.MessageFields
import DreamDota.Script.ObjectId
import DreamDota.Json.JsonObject
import DreamDota.Json.RoundTrip
import DreamDota.Hooks.HideModule
import DreamDota.Auth.GameInit
import DreamDota.Units.PlayerGroup
import DreamDota.Build.OffsetAgree
