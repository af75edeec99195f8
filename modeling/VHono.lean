import VHono.MachineRuns
import VHono.InsertionMap
import VHono.ByteString
import VHono.ByteDecimals
import VHono.ByteScan
import VHono.ByteCompare
import VHono.PathSegments
import VHono.PathTexts
import VHono.CompareSort
import VHono.IntervalTiling
import VHono.SlashRuns
import VHono.Trimming
import VHono.TextReplacement
import VHono.NumberTexts
import VHono.CheckedSlices
import VHono.JsonRecords
import VHono.EdgeTree
import VHono.PieceAssembly
import VHono.MarkerPages
import VHono.OffsetPages
import VHono.SqliteLexer
import VHono.SqlLiterals
import VHono.SqlTokens
import VHono.LikePatterns
import VHono.BigEndian
import VHono.HttpGrammar
import VHono.ResponseGrammar
import VHono.ChunkedCoding
import VHono.EventStream
import VHono.TimeWindows
import VHono.DoublyLinked
import VHono.RecencyHistory
import VHono.RecencyCache
import VHono.UserAgent
import VHono.Base64
import VHono.Utf8
import VHono.JsonText
import VHono.RouteCaches
import VHono.CacheLinks
import VHono.CacheEntries
import VHono.CacheHistory
import VHono.TriePatterns
import VHono.TrieRouter
import VHono.TrieCompleteness
import VHono.TrieCoherence
import VHono.RoutePatterns
import VHono.FastRouter
import VHono.FastRouterCoherence
import VHono.HybridRouter
import VHono.MethodIsolation
import VHono.App
import VHono.MiddlewareScope
import VHono.MountTree
import VHono.MountComposition
import VHono.Context
import VHono.PicoevRequest
import VHono.UsocketsRequest
import VHono.BackendRequests
import VHono.Dispatch
import VHono.DispatchAgreement
import VHono.QueryStrings
import VHono.UsocketsFraming
import VHono.Responses
import VHono.Compress
import VHono.ResponseDelivery
import VHono.ChunkForms
import VHono.ChunkStore
import VHono.ChunkUploads
import VHono.ChunkCompletion
import VHono.OrderlyUploads
import VHono.MergeAtomicity
import VHono.StorageErrors
import VHono.LocalStorage
import VHono.UploadTables
import VHono.ChunkManager
import VHono.MultipartCompleteness
import VHono.UploadProgress
import VHono.FileNames
import VHono.BucketListing
import VHono.BucketPaging
import VHono.StorageCalls
import VHono.Confinement
import VHono.StorageConfig
import VHono.FileRecords
import VHono.FileService
import VHono.ProviderSwitches
import VHono.DeleteIsolation
import VHono.FileUpserts
import VHono.SqlStatements
import VHono.LiteralIntegrity
import VHono.FileListing
import VHono.FilePaging
import VHono.WebSocketFrames
import VHono.FrameDecoding
import VHono.FrameRoundTrip
import VHono.WebSocketContext
import VHono.WebSocketSteps
import VHono.FrameTerms
import VHono.CloseHandshake
import VHono.ControlFrames
import VHono.MessageLimit
import VHono.Fragmentation
import VHono.StreamWriter
import VHono.ChunkedStream
import VHono.SseFraming
import VHono.StreamRegistry
import VHono.StreamIsolation
import VHono.Jwt
import VHono.JwtTokens
import VHono.JwtRoundTrip
import VHono.JwtTimes
import VHono.RateLimit
import VHono.RateWindows
import VHono.Cookies
import VHono.CookieSignatures
import VHono.CookieRoundTrip
import VHono.SetCookies
import VHono.MiddlewareOnion
import VHono.Hmac
import VHono.HmacCopies
import VHono.ErrorClassification
import VHono.TextSplits
import VHono.MultipartForms
import VHono.MultipartRoundTrip
import VHono.PathExpressions
import VHono.PatternExpressions
import VHono.SegmentRoutes
import VHono.SegmentMatching
import VHono.WildcardRoutes
import VHono.MountedRouting
import VHono.MountTransparency
import VHono.MountedLookups
import VHono.FileTrees
import VHono.ObjectStore
import VHono.ObjectPaths
import VHono.ObjectDisks
import VHono.StoreRefinement
import VHono.ObjectRefinement
import VHono.S3Signing
import VHono.HashSeparation
import VHono.CanonicalTexts
import VHono.SignedHeaders
import VHono.SignatureCoverage
import VHono.PartRanges
import VHono.PathValidation
import VHono.PathSafety
import VHono.OpenApiDocument
import VHono.OpenApiValidation
import VHono.XmlExtraction
import VHono.MultipartBounds
import VHono.StaticFiles
import VHono.FileStreams
import VHono.RangeAnswers
import VHono.OpenApiPaths
import VHono.RouteDescriptions
import VHono.OpenApiJson
import VHono.OpenApiRoundTrip
import VHono.FormData
import VHono.ConnectionScan
import VHono.KeepAliveScan
import VHono.UpgradeDetection
import VHono.Markup
import VHono.S3Document
import VHono.S3Listing
import VHono.OssSigning
import VHono.RetryAfter
import VHono.RawTexts
import VHono.JsonContinuation
import VHono.JsonUtf8
import VHono.Validator
import VHono.ValidatorConformance
import VHono.ErrorTexts
import VHono.ErrorBodies
import VHono.ValidatedStore
import VHono.MenuForest
import VHono.RequestScan
import VHono.UploadNumbers
import VHono.ErrorMiddleware
import VHono.BackoffDelays
import VHono.RetryTraces
import VHono.PingTimes
import VHono.StreamHeads
import VHono.JsonLists
import VHono.MenuStorage
import VHono.UserMenus
import VHono.UploadCleanup
import VHono.AcceptLists
import VHono.Negotiation
import VHono.UploadResume
import VHono.UploadSweeps
import VHono.NumberedBackups
import VHono.Logger
import VHono.AuthSessions
import VHono.Guards
import VHono.AuthGuards
import VHono.JwtClaims
import VHono.Handshake
import VHono.FileApi
