import Svnsrv.Lib.Transition
import Svnsrv.Lib.Slots
import Svnsrv.Lib.Cells
import Svnsrv.Lib.CText
import Svnsrv.Lib.ScanNumber
import Svnsrv.Lib.CMemory
import Svnsrv.Lib.RaSvn
import Svnsrv.Lib.RaSvnDecode
import Svnsrv.Lib.Toml
import Svnsrv.Lib.RangeTable
import Svnsrv.Lib.Split
import Svnsrv.Lib.Files
import Svnsrv.Lib.Pump
import Svnsrv.Lib.Trace
import Svnsrv.Lib.Exchange
import Svnsrv.Lib.Family
import Svnsrv.Hds
import Svnsrv.HdsScan
import Svnsrv.HdsLayout
import Svnsrv.HdsDecode
import Svnsrv.HdsAccept
import Svnsrv.HdsSafety
import Svnsrv.HdsPrefix
import Svnsrv.HdsShape
import Svnsrv.Router
import Svnsrv.RouterTable
import Svnsrv.RouterLetters
import Svnsrv.RouterOrder
import Svnsrv.RouterLoad
import Svnsrv.RouterBytes
import Svnsrv.RouterCuts
import Svnsrv.RouterKeep
import Svnsrv.Profile
import Svnsrv.ConfigTypes
import Svnsrv.ConfigNumbers
import Svnsrv.Uri
import Svnsrv.UriParts
import Svnsrv.Klog
import Svnsrv.KlogFiles
import Svnsrv.KlogRotation
import Svnsrv.KlogStreams
import Svnsrv.KlogCount
import Svnsrv.Session
import Svnsrv.SessionBuffers
import Svnsrv.SessionMoves
import Svnsrv.SessionLog
import Svnsrv.SessionRoute
import Svnsrv.SessionRelay
import Svnsrv.SessionFrames
import Svnsrv.SessionWhole
import Svnsrv.SessionEnd
import Svnsrv.SessionChunks
import Svnsrv.SessionHandshake
import Svnsrv.KlogAccess
import Svnsrv.KlogLines
import Svnsrv.Daemon
import Svnsrv.DaemonLife
import Svnsrv.DaemonStart
import Svnsrv.DaemonRestart
import Svnsrv.DaemonSuccession
import Svnsrv.DaemonArgv
import Svnsrv.DaemonSignal
import Svnsrv.Server
import Svnsrv.ServerRuns
import Svnsrv.ServerEnd
import Svnsrv.ServerRoute
import Svnsrv.Title
import Svnsrv.TitleEnv
import Svnsrv.TitleArea
import Svnsrv.Getopt
import Svnsrv.GetoptRead
import Svnsrv.GetoptCalls
import Svnsrv.GetoptRuns
import Svnsrv.Launch
import Svnsrv.Cpptoml
import Svnsrv.CpptomlEnds
import Svnsrv.CpptomlLines
import Svnsrv.CpptomlText
import Svnsrv.CpptomlRead
import Svnsrv.RouterFile
