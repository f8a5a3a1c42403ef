import Nak.Library.FiniteMap
import Nak.Library.Outcome
import Nak.Library.Action
import Nak.Library.Transition
import Nak.Library.Triple
import Nak.Library.Rank
import Nak.Library.Framing
import Nak.Library.Loops
import Nak.Library.Utf8
import Nak.Library.Log
import Nak.Library.Slices
import Nak.Library.Quoting
import Nak.Library.Traced
import Nak.Protocol
import Nak.Machine
import Nak.MachineRecursion
import Nak.MachineEnqueue
import Nak.MachineResolve
import Nak.MachineInvariant
import Nak.MachineRuns
import Nak.MachineCascade
import Nak.MachineMirror
import Nak.MachineProgress
import Nak.MachineCommute
import Nak.MachineAccount
import Nak.MachineAgreement
import Nak.MachineOrder
import Nak.MachineGating
import Nak.MachineStages
import Nak.Exec
import Nak.ExecRules
import Nak.ExecTasks
import Nak.ExecSpawn
import Nak.ExecEvents
import Nak.ExecCancel
import Nak.Waiters
import Nak.ExecHandles
import Nak.ExecFootprint
import Nak.ExecDuring
import Nak.ExecResults
import Nak.ExecHandled
import Nak.ExecTaken
import Nak.ExecShares
import Nak.ExecPending
import Nak.ExecReleases
import Nak.ExecStages
import Nak.ExecOrder
import Nak.ExecEdits
import Nak.EventLoop
import Nak.Endpoint
import Nak.Frontend
import Nak.Transports
import Nak.EndpointRules
import Nak.EndpointFrames
import Nak.Receipts
import Nak.Interrupts
import Nak.WaitProtocol
import Nak.References
import Nak.RemoteIds
import Nak.Grammar
import Nak.GrammarRules
import Nak.Parser
import Nak.ParserGrammar
import Nak.Printing
import Nak.EmptyWords
import Nak.Prefs
import Nak.Matching
import Nak.Aliases
import Nak.PlanBuilder
import Nak.OneLoop
import Nak.LineFrames
import Nak.PlanEnds
import Nak.PlanLinear
import Nak.PlanWiring
import Nak.PlanSupply
import Nak.LineRuns
import Nak.BothEnds
import Nak.Lines
import Nak.Turns
import Nak.Session
import Nak.World
import Nak.WorldMoves
import Nak.WorldSources
import Nak.WorldTraces
import Nak.WorldAccount
import Nak.WorldStreams
import Nak.PipeStreams
import Nak.PromptOutput
import Nak.RemoteTree
import Nak.RemoteResponses
import Nak.RemoteRequests
import Nak.SendFailures
import Nak.ExecDrains
import Nak.ExecAnswers
import Nak.ReaderThread
import Nak.Piper
import Nak.Recording
import Nak.Replay
import Nak.LineRequests
import Nak.ExecLedger
import Nak.WorldLedger
import Nak.WorldSession
import Nak.WorldReceives
import Nak.WorldEdits
import Nak.LineOrder
import Nak.ExecOwnership
import Nak.WorldServes
import Nak.WorldWaits
import Nak.WorldProgress
import Nak.WorldSettles
import Nak.ColorCoded
import Nak.PipeEnds
import Nak.ParserTrace
