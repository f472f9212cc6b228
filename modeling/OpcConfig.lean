import OpcConfig.Library.CString
import OpcConfig.Library.Binary64
import OpcConfig.Library.Printf
import OpcConfig.Library.LastWrite
import OpcConfig.Library.Loop
import OpcConfig.Library.Sweep
import OpcConfig.Library.Walks
import OpcConfig.Library.Printout
import OpcConfig.Json
import OpcConfig.OpenUa
import OpcConfig.Variant
import OpcConfig.Holds
import OpcConfig.SyncClient
import OpcConfig.AddressSpace
import OpcConfig.SyncTurn
import OpcConfig.SyncRequests
import OpcConfig.SyncPass
import OpcConfig.SyncTargets
import OpcConfig.SyncUpdate
import OpcConfig.SyncLater
import OpcConfig.SyncOrder
import OpcConfig.SyncRepeat
import OpcConfig.SyncCreate
import OpcConfig.SyncReport
import OpcConfig.SyncInert
import OpcConfig.Browse
import OpcConfig.BrowseWalks
import OpcConfig.BrowseRows
import OpcConfig.BrowsePaging
import OpcConfig.RoundTrip
import OpcConfig.Rendering
import OpcConfig.SecureClient
import OpcConfig.NewVariable
import OpcConfig.Nlohmann
import OpcConfig.CounterClient
import OpcConfig.CounterTurn
import OpcConfig.CounterRuns
import OpcConfig.CounterReport
import OpcConfig.Library.Parties
import OpcConfig.Library.Increments
import OpcConfig.Exchange
import OpcConfig.CounterTalk
import OpcConfig.SyncTalk
import OpcConfig.ServerMap
import OpcConfig.SharedServer
import OpcConfig.SharedSafety
import OpcConfig.SharedCounts
import OpcConfig.Library.Utf8
import OpcConfig.Utf8Dump
import OpcConfig.Library.Nearest
import OpcConfig.Library.Strtod
import OpcConfig.DumpInteger
import OpcConfig.Grisu
import OpcConfig.GrisuDigits
import OpcConfig.GrisuExact
import OpcConfig.DumpFloat
import OpcConfig.Serializer
import OpcConfig.Grammar
import OpcConfig.Lexer
import OpcConfig.LexerStrings
import OpcConfig.LexerNumbers
import OpcConfig.LexerTokens
import OpcConfig.Parser
import OpcConfig.ParserComplete
import OpcConfig.ParserSound
import OpcConfig.JsonText
import OpcConfig.CompactText
import OpcConfig.CounterLines
import OpcConfig.BrowseTalk
import OpcConfig.OwnServer
import OpcConfig.Startup
