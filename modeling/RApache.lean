import RApache.Apreq.Brigade
import RApache.Apreq.CookieHeader
import RApache.Apreq.Decodev
import RApache.Apreq.Delimiter
import RApache.Apreq.EncodedWords
import RApache.Apreq.FormEntries
import RApache.Apreq.FormWords
import RApache.Apreq.HeaderAttributes
import RApache.Apreq.Headers
import RApache.Apreq.Multipart
import RApache.Apreq.MultipartParts
import RApache.Apreq.MultipartRun
import RApache.Apreq.PairValue
import RApache.Apreq.PartHeaders
import RApache.Apreq.QueryString
import RApache.Apreq.Spool
import RApache.Apreq.Uploads
import RApache.Apreq.UrlCode
import RApache.Apreq.UrlReader
import RApache.Apreq.Urlencoded
import RApache.Apreq.Util
import RApache.Body
import RApache.CacheKeys
import RApache.CacheRuns
import RApache.Child
import RApache.CodeText
import RApache.ConfigPass
import RApache.CookieRoundTrip
import RApache.Cookies
import RApache.CookiesSent
import RApache.Directive
import RApache.EnDecode
import RApache.ErrorLog
import RApache.Evaluation
import RApache.FileCache
import RApache.FileEnvironments
import RApache.FileVersions
import RApache.FormBody
import RApache.Handler
import RApache.HandlerExpressions
import RApache.HandlerPreparation
import RApache.HandlerRuns
import RApache.HandlerSteps
import RApache.Isolation
import RApache.Library.BorrowedKeys
import RApache.Library.ByteOrder
import RApache.Library.Cut
import RApache.Library.Guarded
import RApache.Library.ParentChain
import RApache.Library.Pieces
import RApache.Library.Program
import RApache.Library.QuotedLiteral
import RApache.Library.Reader
import RApache.Library.Search
import RApache.Library.Threads
import RApache.LockDiscipline
import RApache.MultipartBody
import RApache.NullPointers
import RApache.Objects
import RApache.Output
import RApache.OutsideRequests
import RApache.OwnDirectory
import RApache.Params
import RApache.ParsePost
import RApache.PostCalls
import RApache.Preservation
import RApache.ProtectStack
import RApache.QuotedValues
import RApache.RValue
import RApache.Readers
import RApache.ReceiveBin
import RApache.ReceiveBuffer
import RApache.ResponseHeaders
import RApache.SearchPath
import RApache.SectionMerge
import RApache.SectionRecord
import RApache.SendBin
import RApache.SendBinArithmetic
import RApache.SendBinBlocks
import RApache.Session
import RApache.StackDepth
import RApache.Startup
import RApache.StartupPackages
import RApache.Status
import RApache.Text
import RApache.UploadedFiles
import RApache.Workers
import RApache.WorkingDirectory
