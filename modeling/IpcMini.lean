import IpcMini.Application
import IpcMini.AudioOutput
import IpcMini.CaptureClock
import IpcMini.ConfigConsumers
import IpcMini.DetectionTexts
import IpcMini.Detections
import IpcMini.Detector
import IpcMini.DrainWakeup
import IpcMini.EncodedStream
import IpcMini.EncoderChannels
import IpcMini.FailedJoins
import IpcMini.GopLimits
import IpcMini.Heartbeat
import IpcMini.JsoncppReader
import IpcMini.JsoncppTexts
import IpcMini.KeptBoxes
import IpcMini.MediaSequence
import IpcMini.MemoryFile
import IpcMini.Microphone
import IpcMini.OsdDate
import IpcMini.OsdRegions
import IpcMini.PeerConnection
import IpcMini.PeerViews
import IpcMini.PendingCandidates
import IpcMini.PlaylistCounts
import IpcMini.PlaylistForms
import IpcMini.PlaylistPut
import IpcMini.QueueLimits
import IpcMini.Reconnect
import IpcMini.RecordContainment
import IpcMini.RecordPut
import IpcMini.RecordRanges
import IpcMini.RecordScan
import IpcMini.RecordUrls
import IpcMini.RecorderQueue
import IpcMini.RecorderSegments
import IpcMini.Replay
import IpcMini.ReplayDays
import IpcMini.RetainCap
import IpcMini.RetainLoop
import IpcMini.RoomTable
import IpcMini.SessionSubscriptions
import IpcMini.SignalDelivery
import IpcMini.SignalFrames
import IpcMini.SignalingTexts
import IpcMini.SignalingUrls
import IpcMini.StaleEvents
import IpcMini.StopSignals
import IpcMini.StreamDemand
import IpcMini.UploadKeys
import IpcMini.UploadOrder
import IpcMini.UploadPrune
import IpcMini.UploadRetries
import IpcMini.UploadUrls
import IpcMini.ViewerPeer
import IpcMini.ViewerSignals
import IpcMini.WsFrames
