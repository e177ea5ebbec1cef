import UniEvent.Program.Exec
import UniEvent.Model.Queue
import UniEvent.Model.QueueRun
import UniEvent.Proofs.QueueStep
import UniEvent.Proofs.QueueCalls
import UniEvent.Proofs.QueueRun
import UniEvent.Program.Log
import UniEvent.Soundness.QueueSerial
import UniEvent.Proofs.QueueLive
import UniEvent.Soundness.QueueProgress
import UniEvent.Model.Stream
import UniEvent.Proofs.StreamSteps
import UniEvent.Proofs.StreamEffects
import UniEvent.Proofs.StreamCalls
import UniEvent.Proofs.StreamRequests
import UniEvent.Proofs.StreamCancel
import UniEvent.Proofs.StreamRun
import UniEvent.Soundness.StreamNotify
import UniEvent.Soundness.StreamOrder
import UniEvent.Proofs.StreamEnds
import UniEvent.Soundness.StreamCancelExact
import UniEvent.Soundness.StreamCounts
import UniEvent.Model.Resolver
import UniEvent.Program.Reach
import UniEvent.Proofs.ResolverSteps
import UniEvent.Proofs.ResolverPlaced
import UniEvent.Proofs.ResolverMoves
import UniEvent.Soundness.ResolverOnce
import UniEvent.Soundness.ResolverAnswers
import UniEvent.Soundness.ResolverPlacement
import UniEvent.Proofs.ResolverDebt
import UniEvent.Soundness.ResolverQueue
import UniEvent.Proofs.ResolverMild
import UniEvent.Soundness.ResolverReset
import UniEvent.Model.Streamer
import UniEvent.Proofs.StreamerCalls
import UniEvent.Proofs.StreamerPhase
import UniEvent.Model.StreamerFiles
import UniEvent.Proofs.StreamerFiles
import UniEvent.Soundness.StreamerFinish
import UniEvent.Soundness.StreamerInert
import UniEvent.Soundness.StreamerPressure
import UniEvent.Proofs.StreamerCopy
import UniEvent.Soundness.StreamerCopy
import UniEvent.Model.Timer
import UniEvent.Soundness.TimerResume
import UniEvent.Model.FsPoll
import UniEvent.Soundness.FsPollReports
import UniEvent.Model.FsWrite
import UniEvent.Soundness.FsWriteAll
import UniEvent.Model.Delayer
import UniEvent.Soundness.DelayerOnce
import UniEvent.Model.StreamOpen
import UniEvent.Soundness.StreamFlags
import UniEvent.Model.StreamerStream
import UniEvent.Soundness.StreamerStream
import UniEvent.Model.FileEnds
import UniEvent.Proofs.FileEnds
import UniEvent.Proofs.FileInput
import UniEvent.Proofs.FileOutput
import UniEvent.Soundness.FileEnds
import UniEvent.Proofs.QueueEven
import UniEvent.Soundness.QueueCounters
import UniEvent.Model.Udp
import UniEvent.Proofs.QueueTally
import UniEvent.Proofs.UdpRun
import UniEvent.Soundness.UdpCounts
import UniEvent.Proofs.StreamClear
import UniEvent.Soundness.StreamClear
import UniEvent.Program.Keep
import UniEvent.Proofs.StreamSubmit
import UniEvent.Soundness.Submission
import UniEvent.Proofs.StreamClosed
import UniEvent.Proofs.StreamReady
import UniEvent.Proofs.StreamTimeout
import UniEvent.Proofs.StreamTimeoutCancel
import UniEvent.Proofs.StreamTimeoutLate
import UniEvent.Soundness.ShutdownTimeout
import UniEvent.Soundness.StreamShut
import UniEvent.Model.FsPath
import UniEvent.Soundness.FsRemoveAll
import UniEvent.Soundness.FsMkpath
import UniEvent.Model.FsRequest
import UniEvent.Soundness.FsRequest
import UniEvent.Model.TcpConnect
import UniEvent.Soundness.TcpRoundRobin
import UniEvent.Proofs.ResolverTimer
import UniEvent.Soundness.ResolverTimer
import UniEvent.Model.FilterChain
import UniEvent.Soundness.FilterStack
import UniEvent.Model.Ssl
import UniEvent.Soundness.SslErrors
import UniEvent.Soundness.SslEof
import UniEvent.Proofs.Ssl
import UniEvent.Proofs.SslOutcome
import UniEvent.Proofs.SslShape
import UniEvent.Model.ReadBuffer
import UniEvent.Soundness.ReadBuffer
import UniEvent.Model.LoadAverage
import UniEvent.Model.WorkQueue
import UniEvent.Soundness.LoadAverage
import UniEvent.Model.UVDelayer
import UniEvent.Program.View
import UniEvent.Soundness.WorkRegistration
import UniEvent.Soundness.DelayerWakeups
import UniEvent.Model.FilterList
import UniEvent.Model.SslBio
import UniEvent.Soundness.FilterOrder
import UniEvent.Soundness.SslBioFifo
import UniEvent.Proofs.SslMoves
import UniEvent.Soundness.SslReading
import UniEvent.Model.Loop
import UniEvent.Soundness.DelayerSettles
import UniEvent.Soundness.LoopExceptions
import UniEvent.Soundness.SslOnce
import UniEvent.Soundness.StreamSetters
import UniEvent.Soundness.FileModels
