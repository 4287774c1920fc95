import GuacServer.AppendedPaths
import GuacServer.AudioInputMessages
import GuacServer.AudioResampling
import GuacServer.ClientLayers
import GuacServer.ConfFile
import GuacServer.DirectoryEntries
import GuacServer.DisplaySizes
import GuacServer.EchoDecoding
import GuacServer.EncoderCommand
import GuacServer.EncoderCopy
import GuacServer.EncoderFlatten
import GuacServer.EncoderSlots
import GuacServer.EncoderTranscoding
import GuacServer.EncoderWatch
import GuacServer.GuacdConnections
import GuacServer.GuacdRouting
import GuacServer.GuacdTransfer
import GuacServer.IconvPrefix
import GuacServer.IconvRoundTrip
import GuacServer.IconvTermination
import GuacServer.ImageBuffers
import GuacServer.InputStreams
import GuacServer.KeyLog
import GuacServer.KubernetesQueue
import GuacServer.KubernetesUrls
import GuacServer.LagBaseline
import GuacServer.Letterboxing
import GuacServer.MessageTransport
import GuacServer.NumberedFiles
import GuacServer.Palette
import GuacServer.ParserTimeout
import GuacServer.PipeStreams
import GuacServer.PrintTitles
import GuacServer.ProcMap
import GuacServer.ProtocolLog
import GuacServer.RawEncoderProgress
import GuacServer.RdpHandles
import GuacServer.RdpLocks
import GuacServer.RdpSound
import GuacServer.RdpUploads
import GuacServer.RectSplit
import GuacServer.ScrollbarAgreement
import GuacServer.SelectionRange
import GuacServer.SelectionText
import GuacServer.SftpHandles
import GuacServer.SocketBroadcast
import GuacServer.SocketFd
import GuacServer.SocketTee
import GuacServer.StringMemory
import GuacServer.SurfaceBlend
import GuacServer.SurfaceHeat
import GuacServer.TabStops
import GuacServer.TerminalRecording
import GuacServer.TerminalRegions
import GuacServer.TerminalSequences
import GuacServer.TerminalWide
import GuacServer.TimedFree
import GuacServer.TokenSplitting
import GuacServer.Typescript
import GuacServer.UserHandshake
import GuacServer.UserList
