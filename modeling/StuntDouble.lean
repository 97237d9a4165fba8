import StuntDouble.Machine
import StuntDouble.ExpiringMaps
import StuntDouble.Json
import StuntDouble.JsonText
import StuntDouble.JsonShape
import StuntDouble.Messages
import StuntDouble.State
import StuntDouble.StateInvariant
import StuntDouble.StateReference
import StuntDouble.StateValues
import StuntDouble.StateBridge
import StuntDouble.LineReads
import StuntDouble.Worker
import StuntDouble.Fallback
import StuntDouble.FileRelay
import StuntDouble.UpstreamCalls
import StuntDouble.CheckedCalls
import StuntDouble.Extraction
import StuntDouble.FirstCall
import StuntDouble.FileAccess
import StuntDouble.RequestCalls
import StuntDouble.PercentDecoding
import StuntDouble.Ranges
import StuntDouble.Segments
import StuntDouble.MatchRoute
import StuntDouble.Query
import StuntDouble.Base64
import StuntDouble.Codecs
import StuntDouble.Utf16
import StuntDouble.Operands
import StuntDouble.FileTree
import StuntDouble.FilePaths
import StuntDouble.Transitions
import StuntDouble.Channels
import StuntDouble.PipeRelay
import StuntDouble.RelayRuns
import StuntDouble.CallFacts
import StuntDouble.RunFacts
import StuntDouble.Uploads
import StuntDouble.UploadParts
import StuntDouble.LogLines
import StuntDouble.Shapes
import StuntDouble.Paths
import StuntDouble.Schema
import StuntDouble.JsonStringify
import StuntDouble.ScriptLogs
import StuntDouble.TextSizes
import StuntDouble.LineLengths
import StuntDouble.FirstValues
import StuntDouble.PipeHeaders
import StuntDouble.ClientRange
import StuntDouble.LiveRoutes
import StuntDouble.SharedChain
import StuntDouble.ChainRuns
import StuntDouble.Numerals
import StuntDouble.RequestIds
import StuntDouble.Calls
import StuntDouble.ScriptWorker
import StuntDouble.WorkerPipes
import StuntDouble.WorkerTurns
import StuntDouble.WorkerRuns
import StuntDouble.WorkerExchange
import StuntDouble.WorkerEndings
import StuntDouble.BridgeCalls
import StuntDouble.Crypto
import StuntDouble.CryptoCalls
import StuntDouble.JsonTrees
import StuntDouble.StateCalls
import StuntDouble.Serving
import StuntDouble.ServingRuns
import StuntDouble.RequestViews
import StuntDouble.FileCalls
import StuntDouble.UploadCalls
import StuntDouble.HttpCalls
import StuntDouble.Uncaught
import StuntDouble.Replies
import StuntDouble.PipeReplies
import StuntDouble.StateSharing
