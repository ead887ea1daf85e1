import CppPlayground.Machine
import CppPlayground.ForLoop
import CppPlayground.Channel
import CppPlayground.Handoff
import CppPlayground.TripleBuffer
import CppPlayground.TripleBufferOwnership
import CppPlayground.TripleBufferStamps
import CppPlayground.TripleBufferFresh
import CppPlayground.TripleBufferLastStore
import CppPlayground.ExpressionTemplates
import CppPlayground.ExpressionTemplatesAssign
import CppPlayground.Queue
import CppPlayground.RealtimeExecutor
import CppPlayground.RealtimeExecutorShutdown
import CppPlayground.RealtimeExecutorCalls
import CppPlayground.GridBoard
import CppPlayground.GridWorld
import CppPlayground.GridWorldGame
import CppPlayground.GridWorldRuns
import CppPlayground.TcpClient
import CppPlayground.TcpClientConnected
import CppPlayground.TcpClientDestroy
import CppPlayground.UnixDomainSocket
import CppPlayground.Room
import CppPlayground.ChatServer
import CppPlayground.Nesting
import CppPlayground.Exploration
import CppPlayground.UmlDumper
import CppPlayground.UmlDumperBlocks
import CppPlayground.Delegate
import CppPlayground.DelegateSound
import CppPlayground.SimpleBarrier
import CppPlayground.Factory
import CppPlayground.Cleanup
import CppPlayground.ScopeAction
import CppPlayground.PolynomialFunctor
import CppPlayground.TripleBufferThreads
import CppPlayground.ExpressionTemplatesBounds
import CppPlayground.GridBoardState
import CppPlayground.GridWorldThrows
import CppPlayground.ReservoirSampling
import CppPlayground.ChatServerBounds
import CppPlayground.UdpData
import CppPlayground.UdpServer
import CppPlayground.CsvReader
import CppPlayground.UdpSender
import CppPlayground.DcfParameterFinder
import CppPlayground.DcfAttribution
import CppPlayground.CompressOutput
import CppPlayground.Trim
import CppPlayground.ActionNames
import CppPlayground.GuardName
import CppPlayground.CsvReaderColumns
import CppPlayground.DelegateAssign
import CppPlayground.TripleBufferSequential
import CppPlayground.UniqueTypes
import CppPlayground.RouteGuideParser
import CppPlayground.CanopenCounter
import CppPlayground.EthercatUser
import CppPlayground.MonotonicBuffer
import CppPlayground.RelaxedMemory
import CppPlayground.RelaxedOrdering
import CppPlayground.RouteGuideChat
import CppPlayground.RouteGuideService
import CppPlayground.UdpClient
import CppPlayground.WebsocketClient
import CppPlayground.DeadConditionVariable
import CppPlayground.EpollInput
import CppPlayground.RouteGuideClient
import CppPlayground.SmlMachines
import CppPlayground.TcpSelectClient
import CppPlayground.UnixSocketName
import CppPlayground.SharedList
import CppPlayground.LinkedRing
import CppPlayground.UrcuList
