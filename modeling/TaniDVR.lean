import TaniDVR.Lib.Slice
import TaniDVR.Lib.Machine
import TaniDVR.Lib.Ring
import TaniDVR.Lib.PhaseLock
import TaniDVR.Lib.Ebml
import TaniDVR.Lib.Framing
import TaniDVR.Bintools
import TaniDVR.Dstf
import TaniDVR.Identify
import TaniDVR.Ledger
import TaniDVR.StreamLoop
import TaniDVR.QueueSpace
import TaniDVR.DhavRun
import TaniDVR.Resync
import TaniDVR.Pieces
import TaniDVR.FileRun
import TaniDVR.Truncated
import TaniDVR.AwaitedFrames
import TaniDVR.Btfifo
import TaniDVR.McParms
import TaniDVR.TsProc
import TaniDVR.Mkv
import TaniDVR.MkvRead
import TaniDVR.FrameSizes
import TaniDVR.Conversion
import TaniDVR.Divisors
import TaniDVR.MkvOutput
import TaniDVR.IFrameStart
import TaniDVR.FrameClock
import TaniDVR.Backwards
import TaniDVR.ReadSizes
import TaniDVR.Reparse
import TaniDVR.LlProtocol
import TaniDVR.HlProtocol
import TaniDVR.Framing
import TaniDVR.SystemInfo
import TaniDVR.MediaStream
import TaniDVR.Tunnel
import TaniDVR.Supervisor
import TaniDVR.Lib.Delimited
import TaniDVR.RawSplit
import TaniDVR.RawInfo
import TaniDVR.FifoReturns
import TaniDVR.DhavInfo
import TaniDVR.Jitter
import TaniDVR.Corrections
import TaniDVR.FifoFlush
import TaniDVR.FifoRewind
import TaniDVR.AlarmReply
import TaniDVR.BatchReplies
import TaniDVR.SubFields
import TaniDVR.StdioBuffer
import TaniDVR.PacketReads
import TaniDVR.PendingData
import TaniDVR.Recorder
import TaniDVR.Undisturbed
import TaniDVR.Identified
import TaniDVR.RecordedFile
import TaniDVR.Uninitialised
import TaniDVR.LaterConversion
import TaniDVR.Reconnects
import TaniDVR.Requests
import TaniDVR.Session
import TaniDVR.Lib.Relay
import TaniDVR.RawRecording
import TaniDVR.Pipeline
import TaniDVR.CommandLine
import TaniDVR.Lib.Signals
import TaniDVR.Signals
