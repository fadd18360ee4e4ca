import Rovio.Kit.Runs
import Rovio.Kit.Split
import Rovio.Kit.Cycles
import Rovio.Kit.Effect
import Rovio.Kit.Device
import Rovio.Kit.Bytes
import Rovio.Kit.Wire
import Rovio.Kit.Threads
import Rovio.Kit.Ring
import Rovio.Http.Params
import Rovio.Http.Accounts
import Rovio.Account.ConfigInterface
import Rovio.Account.Requests
import Rovio.Account.LastAdmin
import Rovio.Account.Escalation
import Rovio.Account.Mirror
import Rovio.Command.Common
import Rovio.Usb.Session
import Rovio.Usb.Codec
import Rovio.Usb.RoundTrip
import Rovio.Upload.Ring
import Rovio.Upload.Boundary
import Rovio.Upload.Update
import Rovio.Upload.Part
import Rovio.Upload.FileBody
import Rovio.Upload.WholeBody
import Rovio.Nand.Flash
import Rovio.Nand.Driver
import Rovio.Nand.Update
import Rovio.Nand.Access
import Rovio.Nand.Transcript
import Rovio.Nand.Plans
import Rovio.Nand.Update512
import Rovio.Nand.Update2K
import Rovio.Nand.Stored
import Rovio.Nand.Merge
import Rovio.Nand.Atomicity
import Rovio.Hic.Fifo
import Rovio.Hic.Reading
import Rovio.Hic.Writing
import Rovio.Hic.Command
import Rovio.Hic.Framing
import Rovio.Hic.Response
import Rovio.Upload.Exclusion
import Rovio.Msg.Queue
import Rovio.Period.Task
import Rovio.Period.Lists
import Rovio.Period.Round
import Rovio.Period.Integrity
import Rovio.Period.Deletion
import Rovio.Mcu.Uart
import Rovio.Mcu.Pairing
import Rovio.Firmware.Usi
import Rovio.Firmware.UsiView
import Rovio.Firmware.Cut
import Rovio.Firmware.Image
import Rovio.Firmware.Usb
import Rovio.Firmware.Http
import Rovio.Firmware.Post
import Rovio.Firmware.HalfImage
import Rovio.Config.Flash
import Rovio.Config.Saves
import Rovio.Config.Reset
import Rovio.Config.AtRest
import Rovio.Media.Pc
import Rovio.Media.Decoder
import Rovio.Media.DecoderToken
import Rovio.Media.Events
import Rovio.Media.Wakeup
import Rovio.Media.Interrupt
import Rovio.Media.Pool
import Rovio.Media.Playback
import Rovio.Media.PlaybackAccounts
import Rovio.Media.Encoder
import Rovio.Media.EncoderBuffers
import Rovio.Media.EncoderFrames
import Rovio.Kit.Held
import Rovio.Kit.Handles
import Rovio.Kit.Linked
import Rovio.Nand.FreeList
import Rovio.Nand.Ranges
import Rovio.Nand.Bounds
import Rovio.Nand.Retry
import Rovio.Config.PowerCut
import Rovio.Select.Fd
import Rovio.Select.Clients
import Rovio.Select.Thread
import Rovio.Select.Sockets
import Rovio.Select.Books
import Rovio.Select.Reach
import Rovio.Select.Relay
import Rovio.Command.Registered
import Rovio.Command.LockBalance
import Rovio.Usb.Handlers
import Rovio.Usb.Authorisation
import Rovio.Camera.Picture
import Rovio.Camera.Published
import Rovio.Config.CheckSum
import Rovio.Kit.Parity
import Rovio.Nand.Ecc
import Rovio.Nand.Glue
import Rovio.Nand.EccRead
import Rovio.Mcu.Control
import Rovio.Mcu.Dump
import Rovio.Account.Listing
import Rovio.Settings.Wlan
import Rovio.Nand.Reserved
import Rovio.Kit.Decimal
import Rovio.Kit.Ini
import Rovio.Config.CameraIni
import Rovio.Config.IniRoundTrip
import Rovio.Config.IniPlain
import Rovio.Firmware.Download
import Rovio.Firmware.Region
import Rovio.Command.PostData
import Rovio.Usb.CustomCommand
import Rovio.Usb.Received
import Rovio.Kit.Window
import Rovio.Usb.DebugRing
import Rovio.Period.Passes
import Rovio.Period.Timing
import Rovio.HttpClient.Delivery
import Rovio.Settings.VNet
import Rovio.HttpClient.Response
import Rovio.Kit.Base64
import Rovio.Mail.Base64
import Rovio.HttpClient.Formed
import Rovio.Command.Reply
import Rovio.Command.ReplyText
import Rovio.Command.ReplyObject
import Rovio.Command.ReplyFlaws
import Rovio.VideoPhone.Pll
import Rovio.VideoPhone.Scaling
import Rovio.VideoPhone.Window
import Rovio.VideoPhone.Stable
import Rovio.Kit.Cuts
import Rovio.VideoPhone.Splitter
import Rovio.VideoPhone.Frames
import Rovio.VideoPhone.Osd
import Rovio.VideoPhone.OsdClip
import Rovio.VideoPhone.OsdWrite
import Rovio.VideoPhone.OsdCommand
import Rovio.VideoPhone.Pattern
import Rovio.VideoPhone.Index
import Rovio.VideoPhone.IndexSearch
import Rovio.VideoPhone.IndexStream
import Rovio.Kit.Frames
import Rovio.VideoPhone.Audio
import Rovio.VideoPhone.AudioRuns
import Rovio.VideoPhone.ImaRing
import Rovio.Hic.Fifo8
import Rovio.VideoPhone.Caption
import Rovio.VideoPhone.Notification
import Rovio.Hic.Transfer
import Rovio.Hic.SoftPipe
import Rovio.Rtsp.TunnelInput
import Rovio.TestNet.Client
import Rovio.Settings.ScanAP
import Rovio.TestNet.Runs
import Rovio.Settings.ScanRuns
import Rovio.Upload.Rotation
import Rovio.VideoPhone.SplitterMemory
import Rovio.Nand.Cells
import Rovio.Nand.ReadBack
import Rovio.Kit.Simulation
import Rovio.Media.MemPool
import Rovio.Nand.Carried
import Rovio.Nand.Conserved
import Rovio.Nand.PowerCycles
import Rovio.Account.ClientLog
import Rovio.HttpClient.UrlCgi
import Rovio.Rtsp.TunnelHolders
import Rovio.Rtsp.TunnelSessions
import Rovio.Kit.Fields
import Rovio.Period.Led
import Rovio.Period.LedConditions
import Rovio.Period.LedLights
import Rovio.Camera.Agreement
import Rovio.Camera.Asked
