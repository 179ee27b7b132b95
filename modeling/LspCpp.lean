import LspCpp.LibTransition
import LspCpp.LibTable
import LspCpp.LibSearch
import LspCpp.LibLock
import LspCpp.LibSorted
import LspCpp.LibSort
import LspCpp.LibRecency
import LspCpp.LibJson
import LspCpp.LibJsonReads
import LspCpp.EndpointMessage
import LspCpp.StreamHeader
import LspCpp.StreamListen
import LspCpp.StreamDecode
import LspCpp.StreamRoundTrip
import LspCpp.StreamPieces
import LspCpp.WrapperListen
import LspCpp.WrapperClosed
import LspCpp.TcpWrite
import LspCpp.TcpSent
import LspCpp.DelimitedListen
import LspCpp.DelimitedBlocks
import LspCpp.DelimitedGrammar
import LspCpp.StreamDescriptor
import LspCpp.TextOffset
import LspCpp.WorkingFiles
import LspCpp.WorkingLookup
import LspCpp.WorkingVersions
import LspCpp.TextOrder
import LspCpp.TextLines
import LspCpp.TextRanges
import LspCpp.TextClamp
import LspCpp.TextPosition
import LspCpp.TextEncoding
import LspCpp.UriPath
import LspCpp.UriNormal
import LspCpp.UriCanonical
import LspCpp.UriRoundTrip
import LspCpp.UriPercent
import LspCpp.PathMapping
import LspCpp.WorkingRefines
import LspCpp.RouteReorder
import LspCpp.RouteOrder
import LspCpp.DispatchOrdered
import LspCpp.DispatchGate
import LspCpp.DispatchGateInvariant
import LspCpp.DispatchStranded
import LspCpp.ReplyClassify
import LspCpp.ReplySystem
import LspCpp.ReplyHeld
import LspCpp.ReplyOnce
import LspCpp.ReflectNumber
import LspCpp.ReflectVisitor
import LspCpp.ReflectType
import LspCpp.ReflectReads
import LspCpp.ReflectRoundTrip
import LspCpp.ReflectString
import LspCpp.ReflectAny
import LspCpp.ReflectGuess
import LspCpp.ReflectEither
import LspCpp.ReflectInteger
import LspCpp.ReflectCursor
import LspCpp.ReflectFallback
import LspCpp.ReflectPair
import LspCpp.LifecycleState
import LspCpp.LifecycleSystem
import LspCpp.LifecycleSteps
import LspCpp.LifecycleFrames
import LspCpp.LifecycleDrawn
import LspCpp.LifecycleSerial
import LspCpp.LifecycleRenewed
import LspCpp.LifecycleReaders
import LspCpp.LifecycleSources
import LspCpp.LifecycleIsolation
import LspCpp.LifecycleSlots
import LspCpp.PendingTable
import LspCpp.PendingRegister
import LspCpp.PendingRuns
import LspCpp.PendingMatch
import LspCpp.PendingStop
import LspCpp.PendingCovered
import LspCpp.PendingTimeout
import LspCpp.OverloadProgram
import LspCpp.OverloadRoom
import LspCpp.OverloadStop
import LspCpp.OverloadLocks
import LspCpp.CancelRegistry
import LspCpp.CancelSystem
import LspCpp.CancelHolder
import LspCpp.CancelHandler
import LspCpp.CancelLastHolder
import LspCpp.CancelWire
import LspCpp.CancelPrune
import LspCpp.CancelBounded
import LspCpp.EndpointLimits
import LspCpp.LruCache
import LspCpp.LruScores
import LspCpp.LruEviction
import LspCpp.LruLookup
import LspCpp.MarkupText
import LspCpp.MarkupEscape
import LspCpp.MarkupTree
import LspCpp.MarkupTrailing
import LspCpp.MarkupRuler
import LspCpp.MarkupFence
import LspCpp.MarkupDecode
import LspCpp.CancelRecency
import LspCpp.StreamLength
import LspCpp.QueueThreaded
import LspCpp.QueueRuns
import LspCpp.TextNewlines
import LspCpp.StreamCutOff
import LspCpp.ProcessPipe
import LspCpp.WrapperHandedOn
import LspCpp.TcpDelivered
import LspCpp.PendingFresh
import LspCpp.RpcSystem
import LspCpp.RpcAgreement
import LspCpp.PendingUnderway
import LspCpp.RpcCompletes
import LspCpp.ProcessOwned
import LspCpp.ProcessEnds
import LspCpp.AsyncLoop
import LspCpp.ContextRefine
import LspCpp.ContextRestored
import LspCpp.ProcessCommand
import LspCpp.TypedDelivered
import LspCpp.ServerConnections
import LspCpp.UriRemap
import LspCpp.DispatchSerial
import LspCpp.DocumentRelayed
import LspCpp.DocumentSynced
import LspCpp.LibMonitor
import LspCpp.QueueBlocking
import LspCpp.WrapperWoken
