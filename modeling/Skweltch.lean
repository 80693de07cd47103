import Skweltch.Core.SinkBatches
import Skweltch.Core.SinkTimeouts
import Skweltch.Core.SinkWorker
import Skweltch.Lib.NumText
import Skweltch.Work.CharFreq
import Skweltch.Sink.CharFreq
import Skweltch.Lib.Callbacks
import Skweltch.Sink.Avg
import Skweltch.Vent.XmlParser
import Skweltch.Vent.XPathSplitter
import Skweltch.Vent.ChunkSlices
import Skweltch.Core.Vent
import Skweltch.Vent.Vents
import Skweltch.Vent.EmptyBatch
import Skweltch.Core.BatchProtocol
import Skweltch.Core.BatchOnce
import Skweltch.Work.CharFreqWords
import Skweltch.Core.Drain
import Skweltch.Config.Json
import Skweltch.Config.JsonPath
import Skweltch.Core.Ports
import Skweltch.Machine.PipeBuilder
import Skweltch.Machine.Wiring
import Skweltch.Config.JsonWriter
import Skweltch.Machine.TaskMonitor
import Skweltch.Machine.Launch
import Skweltch.Machine.Unresolved
import Skweltch.Machine.Server
import Skweltch.Machine.ServerInvariant
import Skweltch.Machine.Machinecmd
import Skweltch.Machine.MachineRunner
import Skweltch.Machine.Cleanup
import Skweltch.Machine.Verdict
import Skweltch.Machine.Leftover
import Skweltch.Graph.MachineGraph
import Skweltch.Graph.Readers
import Skweltch.Vent.Selection
import Skweltch.Lib.Shell
import Skweltch.Machine.Arguments
import Skweltch.Core.SocketErrors
import Skweltch.Core.TrackerRuns
import Skweltch.Config.PathSteps
import Skweltch.Config.PathUpdate
import Skweltch.Lib.FirstMatch
import Skweltch.Config.Lookups
import Skweltch.Lib.ActionParser
import Skweltch.Machine.IllWired
import Skweltch.Config.JsonReader
import Skweltch.Ui.Load
import Skweltch.Config.PathThrows
import Skweltch.Machine.MachineTuner
import Skweltch.Machine.StrayWiring
import Skweltch.Machine.Tune
import Skweltch.Lib.Truncation
import Skweltch.Lib.IStream
import Skweltch.Machine.Sweep
import Skweltch.Vent.WordTokens
import Skweltch.Vent.BrokenInput
import Skweltch.Vent.CallProtocol
import Skweltch.Vent.Markup
import Skweltch.Machine.Results
import Skweltch.Vent.WellFormed
import Skweltch.Lib.Columns
import Skweltch.Machine.Statistics
import Skweltch.Machine.TuneSteps
import Skweltch.Lib.Agreement
import Skweltch.Machine.Coverage
import Skweltch.Config.PathFootprint
import Skweltch.Machine.TuneColumns
import Skweltch.Machine.TuneRepeat
import Skweltch.Machine.TuneReports
import Skweltch.Lib.Regex
import Skweltch.Build.MakeAnalyser
import Skweltch.Lib.Positions
import Skweltch.Build.WorkBash
import Skweltch.Sink.Validation
import Skweltch.Vent.Pacing
import Skweltch.Core.Poll
import Skweltch.Build.PollDir
import Skweltch.Build.PollGit
import Skweltch.Lib.Readable
import Skweltch.Build.FileModChecker
import Skweltch.Ui.RequestHandler
import Skweltch.Lib.Throwing
import Skweltch.Ui.NodesAnswers
import Skweltch.Lib.Pieces
import Skweltch.Graph.DotText
import Skweltch.Graph.DotElements
import Skweltch.Lib.Recogniser
import Skweltch.Ui.RequestParser
import Skweltch.Ui.RequestText
import Skweltch.Ui.Reply
import Skweltch.Ui.HttpServer
import Skweltch.Ui.HttpAnswers
import Skweltch.Config.JsonGenerator
import Skweltch.Config.JsonScanner
import Skweltch.Config.JsonRoundTrip
import Skweltch.Machine.SetupMain
import Skweltch.Lib.Paths
import Skweltch.Ui.UiServer
import Skweltch.Core.BatchReport
import Skweltch.Vent.SentItems
import Skweltch.Machine.CharFreq
import Skweltch.Machine.AvgWordSize
import Skweltch.Machine.XPath
import Skweltch.Build.BuildLoop
import Skweltch.Pipe.Pipes
