import AimRT.Lib.AlarmQueue
import AimRT.Lib.LittleEndian
import AimRT.Lib.Framing
import AimRT.Executor.TimingWheel
import AimRT.Executor.TimeWheelExecutor
import AimRT.Executor.TimeManipulatorExecutor
import AimRT.Util.BufferUtil
import AimRT.Util.Context
import AimRT.Mqtt.MqttMessage
import AimRT.Rpc.RpcTypes
import AimRT.Mqtt.MqttRpcFrame
import AimRT.Channel.ChannelBackend
import AimRT.Net.AsioTcp
import AimRT.Lib.Completion
import AimRT.Rpc.RpcClientTool
import AimRT.Rpc.LocalRpcBackend
import AimRT.Mqtt.MqttRpcBackend
import AimRT.Net.HttpRpcBackend
import AimRT.Zenoh.ZenohRpcBackend
import AimRT.Grpc.GrpcRpcBackend
import AimRT.Ros2.Ros2AdapterRpcClient
import AimRT.Lib.Reading
import AimRT.Util.FrameReading
import AimRT.Lib.Ownership
import AimRT.Util.BufferArray
import AimRT.Zenoh.ZenohShm
import AimRT.Zenoh.ZenohChannelBackend
import AimRT.Zenoh.ZenohRpcFrame
import AimRT.Zenoh.ZenohShmSenders
import AimRT.Iceoryx.IceoryxChannelBackend
import AimRT.Iceoryx.ChunkSizes
import AimRT.Channel.ReceivedPayload
import AimRT.Grpc.GrpcServer
import AimRT.Net.ClientPool
import AimRT.Lib.Table
import AimRT.Net.AsioUdpServer
import AimRT.Net.AsioTcpServer
import AimRT.Grpc.ServerSession
import AimRT.Grpc.ServerConnection
import AimRT.Lib.Regex
import AimRT.Util.UrlParser
import AimRT.Util.UrlJoin
import AimRT.Lib.LexicalPath
import AimRT.Net.HttpServer
import AimRT.Net.HttpSession
import AimRT.Util.UrlEncode
import AimRT.Net.HttpDispatcher
import AimRT.Net.AsioHttpClient
import AimRT.Net.HttpClientInv
import AimRT.Net.HttpClientRuns
import AimRT.Lib.Fields
import AimRT.Net.HttpMessage
import AimRT.Net.HttpMeta
import AimRT.Net.HttpRoundTrip
import AimRT.Net.HttpChannelPublish
import AimRT.Net.HttpPublishRuns
import AimRT.Ros2.Ros2AdapterRpcServer
import AimRT.Core.ChannelMsg
import AimRT.Core.SubscribeTool
import AimRT.Ros2.Ros2ChannelBackend
import AimRT.Core.ChannelRegistry
import AimRT.Core.LocalChannelBackend
import AimRT.Lib.Chain
import AimRT.Lib.Unwinding
import AimRT.Core.FilterCollector
import AimRT.Core.FilterChain
import AimRT.Core.BackendRules
import AimRT.Core.RpcBackendManager
import AimRT.Core.ChannelBackendManager
import AimRT.Core.SubscribeCallback
import AimRT.Lib.SharedPtr
import AimRT.Lib.Storing
import AimRT.Lib.StringView
import AimRT.Ros2.RosMessage
import AimRT.Ros2.ConvertInside
import AimRT.Ros2.JsonConvert
import AimRT.Ros2.YamlConvert
import AimRT.Ros2.MessageMerge
import AimRT.Ros2.JsonRoundTrip
import AimRT.Core.ModuleManager
import AimRT.OpenTelemetry.TraceFilter
import AimRT.Lib.BinarySearch
import AimRT.RecordPlayback.RecordAction
import AimRT.RecordPlayback.PreparationCache
import AimRT.RecordPlayback.RecordWrites
import AimRT.RecordPlayback.SignalRecord
import AimRT.Lib.Trace
import AimRT.RecordPlayback.BagRotation
import AimRT.RecordPlayback.RecordHistory
import AimRT.RecordPlayback.CachedLastMsg
import AimRT.RecordPlayback.RecordRuns
import AimRT.RecordPlayback.RecordStatus
import AimRT.RecordPlayback.PlaybackAction
import AimRT.RecordPlayback.PlaybackReading
import AimRT.RecordPlayback.PlaybackCovers
import AimRT.RecordPlayback.BagContents
import AimRT.RecordPlayback.BagPlayback
import AimRT.Core.ParameterHandle
import AimRT.Util.DynamicLatch
import AimRT.Util.LightSignal
import AimRT.Executor.TimeWheelWindow
import AimRT.Executor.WheelDues
import AimRT.Executor.GuardThreadExecutor
import AimRT.Executor.TryExecute
import AimRT.Lib.Mutex
import AimRT.RecordPlayback.PlaybackLocks
import AimRT.RecordPlayback.PlaybackTopics
import AimRT.Logger.RotatedFileName
import AimRT.Logger.RotateFileLoggerBackend
import AimRT.Logger.CleanLogFile
import AimRT.Logger.RotationThreshold
import AimRT.Executor.Timer
import AimRT.Executor.TimerCycle
import AimRT.TopicLogger.TopicLoggerBackend
import AimRT.TopicLogger.TopicLoggerRuns
import AimRT.Grpc.GrpcTimeout
import AimRT.Util.Decimal
import AimRT.Net.HttpTimeout
import AimRT.Executor.TaskCount
import AimRT.RecordPlayback.PlaybackEnds
import AimRT.Executor.PastTimePoints
import AimRT.Executor.TBBThreadExecutor
import AimRT.Executor.TBBThreadExecutorLive
import AimRT.Mqtt.MsgHandleRegistry
import AimRT.Lib.Relay
import AimRT.Proxy.ProxyPlugin
import AimRT.Lib.Splitting
import AimRT.Util.KeyValue
import AimRT.Util.ListSearch
import AimRT.Util.KeySearch
import AimRT.Rpc.LocalRpcTarget
import AimRT.Lib.Assoc
import AimRT.Ros2.RemappedFuncName
import AimRT.Ros2.Ros2NameEncode
import AimRT.Net.HttpClientList
import AimRT.Util.Utf8Truncation
import AimRT.Logger.LogFormatter
import AimRT.Util.ReplaceString
import AimRT.Util.ReplaceEnvVars
import AimRT.Util.FlatAllocator
import AimRT.Util.BufferPointers
import AimRT.Util.BufferCalls
import AimRT.Lib.Fragments
import AimRT.Net.BodyCopy
import AimRT.Util.BufferPositions
import AimRT.Lib.EditDistance
import AimRT.Core.YamlTools
import AimRT.Lib.Holding
import AimRT.Util.Function
import AimRT.Lib.Fair
import AimRT.Lib.Places
import AimRT.Core.AimRTCore
import AimRT.Core.AimRTCoreLive
import AimRT.Util.BlockQueue
import AimRT.Util.ZeroCopyStream
import AimRT.Lib.Checks
import AimRT.Lib.Binding
import AimRT.Executor.ExecutorManager
