import RApache.Directive
import RApache.ParsePost
import RApache.RValue

/-!
# The current request

The globals that belong to the current request, and the `.Call` functions and console
callbacks through which R code reads and changes them.  A call that returns gives R a
value; the process may also end inside a call, and a call that reads the body may go on
for ever.
-/

namespace RApache

/-- The variables that `.ResetCGIVars` assigns in the `rapache` environment. -/
inductive CgiVar where
  | get
  | post
  | cookies
  | files
  | server
  deriving DecidableEq, Repr

/-- The two readers of the request body. -/
inductive BodyReader where
  | r
  | libapreq
  deriving DecidableEq, Repr

/-- One call of `ap_get_brigade`: who made it and the most bytes it asked for. -/
structure Read where
  reader : BodyReader
  length : Nat
  deriving DecidableEq, Repr

/-- The functions that `ptr_R_WriteConsoleEx` is set to during requests. -/
inductive ConsoleWriter where
  | writeConsoleEx
  | writeConsoleErrorOnly
  deriving DecidableEq, Repr

/-- A `request_rec` as Apache gives it to the module, with what the request's input
filters, spool files and parsers will answer. -/
structure RequestRec where
  address : Nat
  handler : Bytes
  perDirConfig : Option RApacheDirective := none
  filename : Option Bytes := none
  method : Bytes := bytes "GET"
  args : Option Bytes := none
  headersIn : ParamTable := []
  protoNum : Int := 1001
  protocol : Option Bytes := none
  unparsedUri : Option Bytes := none
  uri : Option Bytes := none
  canonicalFilename : Option Bytes := none
  pathInfo : Option Bytes := none
  contentType : Option Bytes := none
  contentEncoding : Option Bytes := none
  range : Option Bytes := none
  hostname : Option Bytes := none
  localIp : Option Bytes := none
  serverPort : Int := 80
  user : Option Bytes := none
  headerOnly : Bool := false
  noCache : Bool := false
  noLocalCopy : Bool := false
  assbackwards : Bool := false
  status : Int := 200
  methodNumber : Int := 0
  eosSent : Bool := false
  theRequest : Option Bytes := none
  statusLine : Option Bytes := none
  bytesSent : Int := 0
  clength : Int := 0
  remaining : Int := 0
  readLength : Int := 0
  requestTime : Int := 0
  mtime : Int := 0
  clientIp : Option Bytes := none
  remoteHost : Option Bytes := none
  https : Option Bytes := none
  /-- What `ap_get_brigade` answers when it is asked for at most so many bytes, after
  the reads with the given limits. -/
  getBrigade : List Nat → Nat → Except AprStatus Brigade := fun _ _ => .ok [.eos]
  /-- The buckets that this read gives cannot be read. -/
  unreadable : List Nat → Bool := fun _ => false
  apreq : Environment := ⟨.ok, fun _ => .stored⟩
  /-- The name of the spool file of each upload, if it has one that is not empty. -/
  spoolFile : Nat → Option Bytes := fun _ => none
  /-- `apreq_parse_query_string` and `apreq_parse_cookie_header` into an empty table. -/
  parseQueryString : Bytes → ParamTable := fun _ => []
  parseCookieHeader : Bytes → ParamTable := fun _ => []

/-- `RApacheRequest`, the type of `MR_Request`.  The member `oldwd` is not here: it is
written outside the lock.  `none` is a `NULL` pointer. -/
structure RApacheRequest where
  r : Option RequestRec := none
  postParsed : Bool := false
  readStarted : Bool := false
  argsTable : Option ParamTable := none
  postTable : Option ParamTable := none
  cookiesTable : Option ParamTable := none
  filesVar : Option RValue := none
  serverVar : Option RValue := none
  /-- The directive of the handler that the member points to. -/
  handler : Option RApacheDirective := none

/-- The globals of the current request: `MR_Request`, the brigades, the variables in
the `rapache` environment (`none` is a promise) and whether it is on R's search path, the
console writer, and what the module changes in the current `request_rec`. -/
structure Session where
  request : RApacheRequest := {}
  bbIn : Option Brigade := none
  /-- The buffers written to `MR_BBout`. -/
  bbOut : Option (List Bytes) := none
  /-- The messages written to `MR_BBerr`. -/
  bbErr : Option (List Bytes) := none
  vars : CgiVar → Option RValue := fun _ => some .null
  attached : Bool := true
  writer : ConsoleWriter := .writeConsoleEx
  status : Int := 0
  contentType : Option Bytes := none
  /-- The reads from the input filters of the current request. -/
  reads : List Read := []

/-- How a call ends. -/
inductive CallEnd where
  | returned (value : RValue)
  /-- It still reads, after as many reads as it is followed for. -/
  | unfinished
  /-- The process ends. -/
  | ended

/-- `HUGE_STRING_LEN`. -/
def hugeStringLen : Nat := 8192

namespace Session

/-- The limits of the reads so far. -/
def limits (s : Session) : List Nat := s.reads.map Read.length

/-- Note a read from the input filters. -/
def noteRead (reader : BodyReader) (length : Nat) (s : Session) : Session :=
  { s with reads := s.reads ++ [⟨reader, length⟩] }

/-- `RApacheError`.  To note that there is a first message, `ap_log_rerror` reads
`MR_Request.r`, also when it is `NULL`. -/
def rApacheError (msg : Bytes) (s : Session) : Option Session :=
  match s.bbErr with
  | some messages => some { s with bbErr := some (messages ++ [msg]) }
  | none => s.request.r.map fun _ => { s with bbErr := some [msg] }

/-- `apr_brigade_write` to `MR_BBout`. -/
def brigadeWrite (buffer : Bytes) (s : Session) : Option Session :=
  s.bbOut.map fun buffers => { s with bbOut := some (buffers ++ [buffer]) }

/-- A call that returns `value` if the process does not end before. -/
def returning (value : RValue) (before : Session) : Option Session → CallEnd × Session
  | some s => (.returned value, s)
  | none => (.ended, before)

/-! ## Reading the body from R -/

/-- The loop of `ReadRequestBody`.  `buf` are the bytes placed in the buffer. -/
def readRequestBodyLoop (r : RequestRec) (size : Nat) (buf : Bytes) (s : Session) :
    Bytes × Session :=
  if _room : buf.length < size then
    let len := min (size - buf.length) hugeStringLen
    match r.getBrigade s.limits len with
    | .error _ => (buf, s.noteRead .r len)
    | .ok bb =>
        let brigade := s.bbIn.getD [] ++ bb
        if r.unreadable s.limits then
          (buf, { s.noteRead .r len with bbIn := some brigade })
        else
          match _got : brigade.content.take len with
          | [] => (buf, { s.noteRead .r len with bbIn := some [] })
          | symbol :: more =>
              readRequestBodyLoop r size (buf ++ symbol :: more)
                { s.noteRead .r len with bbIn := some [] }
  else (buf, s)
termination_by size - buf.length
decreasing_by
  simp only [List.length_append, List.length_cons]
  omega

/-- Conversion of an `int` to `apr_size_t`. -/
def sizeOfInt (size : Int32) : UInt64 := size.toInt64.toUInt64

/-- Conversion of an `apr_size_t` to `int`. -/
def intOfSize (size : UInt64) : Int32 := size.toUInt32.toInt32

/-- `ReadRequestBody`: the bytes it places in the buffer, whose number it returns.
Without a request the process ends in `ap_log_rerror`. -/
def readRequestBody (size : Int32) (s : Session) : Option (Bytes × Session) :=
  match s.request.r with
  | none => none
  | some r =>
      if s.request.postParsed then
        (s.rApacheError (bytes "Can't read with R since libapreq already started!")).map
          fun s => ([], s)
      else
        let s :=
          { s with
            request := { s.request with readStarted := true }
            bbIn := some (s.bbIn.getD []) }
        some (readRequestBodyLoop r (sizeOfInt size).toNat [] s)

/-- `ReadConsole`; the NUL behind the bytes is not part of its result. -/
def readConsole (size : Int32) (s : Session) : CallEnd × Session :=
  match s.readRequestBody size with
  | none => (.ended, s)
  | some (buf, s) => (.returned (.raw buf), s)

/-- The loop of `RApache_receiveBin` that reads the whole body, followed for at most
`fuel` iterations.  `buf` is the beginning of the buffer. -/
def receiveAll : (fuel : Nat) → (size blen : UInt64) → (buf : Bytes) → (s : Session) →
    CallEnd × Session
  | 0, _, _, _, s => (.unfinished, s)
  | fuel + 1, size, blen, buf, s =>
      match s.readRequestBody (intOfSize (size - blen)) with
      | none => (.ended, s)
      | some (got, s) =>
          let len := sizeOfInt (intOfSize (UInt64.ofNat got.length))
          let buf := buf.take blen.toNat ++ got
          let blen := blen + len
          if 0 < len then
            -- `(double)size * 1.5`, exact for the size of any buffer
            receiveAll fuel (UInt64.ofNat (size.toNat * 3 / 2)) blen buf s
          else (.returned (.raw (buf.take blen.toNat)), s)

/-- `RApache_receiveBin`.  For a length of zero `buf` is freed without a value. -/
def receiveBin (fuel : Nat) (llen : Int32) (s : Session) : CallEnd × Session :=
  if 0 < llen then
    match s.readRequestBody llen with
    | none => (.ended, s)
    | some (buf, s) => (.returned (.raw buf), s)
  else if llen < 0 then receiveAll fuel 8192 0 [] s
  else (.returned (.raw []), s)

/-! ## The parsed body -/

/-- `FileUploadsCallback` for each parameter with an upload. -/
def fileUploads (r : RequestRec) (uploads : ParamTable) : Members :=
  uploads.zipIdx.map fun (upload, index) =>
    match r.spoolFile index with
    | none => (mkChar upload.name, .null)
    | some filename =>
        (mkChar upload.name,
          .list [(bytes "name", .character [mkChar upload.value]),
            (bytes "tmp_name", .character [mkChar filename])])

/-- What `parsePost` hands out once the body is parsed. -/
def postAnswer (returnPost : Bool) (s : Session) : RValue :=
  if returnPost then aprTableToList paramsCallback s.request.postTable
  else s.request.filesVar.getD .null

/-- The content type of the request and the parser for it. -/
def bodyParser (r : RequestRec) : Option (Bytes × ParserFunction) := do
  let contentType ← aprTableGet r.headersIn (bytes "Content-Type")
  let pfn ← apreqParser contentType
  some (contentType, pfn)

/-- Note the reads that the loop of `parsePost` made. -/
def noteParserReads (reads : Nat) (s : Session) : Session :=
  { s with reads := s.reads ++ List.replicate reads ⟨.libapreq, hugeStringLen⟩ }

/-- The part of `parsePost` below `/* Start parse */`. -/
def startParse (fuel : Nat) (returnPost : Bool) (r : RequestRec) (contentType : Bytes)
    (pfn : ParserFunction) (s : Session) : CallEnd × Session :=
  let getBrigade (read : Nat) :=
    r.getBrigade (s.limits ++ List.replicate read hugeStringLen) hugeStringLen
  let s := { s with request := { s.request with postParsed := true, postTable := some [] } }
  match parsePostLoop r.apreq getBrigade fuel 0 (parsePostStart contentType pfn) with
  | none => (.unfinished, s.noteParserReads fuel)
  | some (.aborted reads) => (.ended, s.noteParserReads reads)
  | some (.left reads run) =>
      let uploads := run.t.filter Param.upload
      let filesVar := if uploads.isEmpty then .null else .list (fileUploads r uploads)
      let s :=
        { s with
          request := { s.request with postTable := some run.t, filesVar := some filesVar } }
      (.returned (s.postAnswer returnPost), s.noteParserReads reads)

/-- `parsePost`. -/
def parsePost (fuel : Nat) (returnPost : Bool) (s : Session) : CallEnd × Session :=
  match s.request.r with
  | none => (.returned .null, s)
  | some r =>
      if s.request.readStarted then
        returning .null s (s.rApacheError
          (bytes "Oops! Your R code has already started reading the request."))
      else if s.request.postParsed then (.returned (s.postAnswer returnPost), s)
      else
        let noPost :=
          { s with request := { s.request with postTable := none, filesVar := some .null } }
        if r.method ≠ bytes "POST" ∧ r.method ≠ bytes "PUT" then (.returned .null, noPost)
        else
          match bodyParser r with
          | none => (.returned .null, noPost)
          | some (contentType, pfn) => startParse fuel returnPost r contentType pfn s

/-! ## The other variables -/

/-- `RApache_parseGet`. -/
def parseGet (s : Session) : CallEnd × Session :=
  match s.request.r, s.request.argsTable with
  | none, _ => (.returned .null, s)
  | some _, some argsTable => (.returned (aprTableToList paramsCallback (some argsTable)), s)
  | some r, none =>
      match r.args with
      | none => (.returned .null, s)
      | some args =>
          let argsTable := some (r.parseQueryString args)
          (.returned (aprTableToList paramsCallback argsTable),
            { s with request := { s.request with argsTable } })

/-- `RApache_parseCookies`. -/
def parseCookies (s : Session) : CallEnd × Session :=
  match s.request.r, s.request.cookiesTable with
  | none, _ => (.returned .null, s)
  | some _, some cookiesTable =>
      (.returned (aprTableToList tableCallback (some cookiesTable)), s)
  | some r, none =>
      match aprTableGet r.headersIn (bytes "Cookie") with
      | none => (.returned .null, s)
      | some cookies =>
          let cookiesTable := some (r.parseCookieHeader cookies)
          (.returned (aprTableToList tableCallback cookiesTable),
            { s with request := { s.request with cookiesTable } })

/-- `STRMBR`: a string member, `NULL` for a `NULL` pointer. -/
def strMbr (name : String) (value : Option Bytes) : Bytes × RValue :=
  (bytes name, (value.map fun text => .character [mkChar text]).getD .null)

/-- `INTMBR`. -/
def intMbr (name : String) (value : Int) : Bytes × RValue := (bytes name, .integer value)

/-- `LGLMBR`. -/
def lglMbr (name : String) (value : Bool) : Bytes × RValue := (bytes name, .logical value)

/-- `OFFMBR`. -/
def offMbr (name : String) (value : Int) : Bytes × RValue := (bytes name, .numeric value)

/-- `TIMMBR`: `apr_time_sec` of a time in microseconds. -/
def timMbr (name : String) (value : Int) : Bytes × RValue :=
  (bytes name, .time (value.tdiv 1000000))

/-- `MOD_R_VERSION`. -/
def modRVersion : Bytes := bytes "1.2.12"

/-- The members of the list that `RApache_getServer` makes. -/
def serverMembers (r : RequestRec) (cmdpath : Option Bytes) (s : Session) : Members :=
  [ (bytes "headers_in", aprTableToList tableCallback (some r.headersIn)),
    intMbr "proto_num" r.protoNum,
    strMbr "protocol" r.protocol,
    strMbr "unparsed_uri" r.unparsedUri,
    strMbr "uri" r.uri,
    strMbr "filename" r.filename,
    strMbr "canonical_filename" r.canonicalFilename,
    strMbr "path_info" r.pathInfo,
    strMbr "args" r.args,
    strMbr "content_type" s.contentType,
    strMbr "handler" (some r.handler),
    strMbr "content_encoding" r.contentEncoding,
    strMbr "range" r.range,
    strMbr "hostname" r.hostname,
    strMbr "address" r.localIp,
    intMbr "port" r.serverPort,
    strMbr "user" r.user,
    lglMbr "header_only" r.headerOnly,
    lglMbr "no_cache" r.noCache,
    lglMbr "no_local_copy" r.noLocalCopy,
    lglMbr "assbackwards" r.assbackwards,
    intMbr "status" s.status,
    intMbr "method_number" r.methodNumber,
    lglMbr "eos_sent" r.eosSent,
    strMbr "the_request" r.theRequest,
    strMbr "method" (some r.method),
    strMbr "status_line" r.statusLine,
    offMbr "bytes_sent" r.bytesSent,
    offMbr "clength" r.clength,
    offMbr "remaining" r.remaining,
    offMbr "read_length" r.readLength,
    timMbr "request_time" r.requestTime,
    timMbr "mtime" r.mtime,
    strMbr "remote_ip" r.clientIp,
    strMbr "remote_host" r.remoteHost,
    strMbr "cmd_path" cmdpath,
    lglMbr "HTTPS" r.https.isSome,
    strMbr "rapache_version" (some modRVersion),
    (bytes "internals", .closure (bytes "function(x) .Call('RApache_internals',x)")) ]

/-- `RApache_getServer`.  A request without a directive has no handler to read. -/
def getServer (s : Session) : CallEnd × Session :=
  match s.request.r, s.request.serverVar with
  | none, _ => (.returned .null, s)
  | some _, some serverVar => (.returned serverVar, s)
  | some r, none =>
      match s.request.handler with
      | none => (.ended, s)
      | some directive =>
          let serverVar := .list (serverMembers r directive.cmdpath s)
          (.returned serverVar,
            { s with request := { s.request with serverVar := some serverVar } })

/-! ## Writing -/

/-- `WriteConsoleErrorOnly`; without a request the text goes to `stderr`. -/
def writeConsoleErrorOnly (buf : Bytes) (s : Session) : CallEnd × Session :=
  if s.request.r.isSome then returning .null s (s.rApacheError buf) else (.returned .null, s)

/-- `WriteConsoleEx`. -/
def writeConsoleEx (buf : Bytes) (errorFlag : Bool) (s : Session) : CallEnd × Session :=
  if errorFlag then s.writeConsoleErrorOnly buf
  else if s.request.r.isSome then returning .null s (s.brigadeWrite buf)
  else (.returned .null, s)

/-- Console output of R code, through `ptr_R_WriteConsoleEx`. -/
def writeConsole (buf : Bytes) (errorFlag : Bool) (s : Session) : CallEnd × Session :=
  match s.writer with
  | .writeConsoleEx => s.writeConsoleEx buf errorFlag
  | .writeConsoleErrorOnly => s.writeConsoleErrorOnly buf

/-- `RApache_sendBin` for an object that is written as these buffers. -/
def sendBin (buffers : List Bytes) (s : Session) : CallEnd × Session :=
  if s.request.r.isSome then
    returning .null s (buffers.foldlM (fun s buf => s.brigadeWrite buf) s)
  else (.returned .null, s)

/-- `RApache_setStatus`. -/
def setStatus (status : Int) (s : Session) : CallEnd × Session :=
  if s.request.r.isSome then (.returned (.logical true), { s with status })
  else (.returned (.logical false), s)

/-- `RApache_setContentType`. -/
def setContentType (stype : Option Bytes) (s : Session) : CallEnd × Session :=
  match s.request.r, stype with
  | some _, some ctype => (.returned (.logical true), { s with contentType := some ctype })
  | _, _ => (.returned (.logical false), s)

/-- `RApache_internals`. -/
def internals (str : Bytes) (s : Session) : RValue :=
  if str = bytes "postParsed" then .logical s.request.postParsed
  else if str = bytes "readStarted" then .logical s.request.readStarted
  else .null

/-! ## Calls -/

/-- The call that `.ResetCGIVars` delays for a variable. -/
def evalPromise (fuel : Nat) : CgiVar → Session → CallEnd × Session
  | .get => parseGet
  | .post => parsePost fuel true
  | .cookies => parseCookies
  | .files => parsePost fuel false
  | .server => getServer

/-- Reading a variable: its promise is evaluated once.  Off the search path there is no
such variable. -/
def force (fuel : Nat) (var : CgiVar) (s : Session) : CallEnd × Session :=
  if s.attached then
    match s.vars var with
    | some value => (.returned value, s)
    | none =>
        match s.evalPromise fuel var with
        | (.returned value, s) =>
            (.returned value, { s with vars := Function.update s.vars var (some value) })
        | (callEnd, s) => (callEnd, s)
  else (.returned .unbound, s)

end Session

/-- What R code asks of the module: `.Call` functions, console callbacks, the variables
in the `rapache` environment, and taking that environment off the search path. -/
inductive Call where
  | parseGet
  | parsePost
  | parseFiles
  | parseCookies
  | getServer
  | force (var : CgiVar)
  | assign (var : CgiVar) (value : RValue)
  | receiveBin (llen : Int32)
  | readConsole (size : Int32)
  | writeConsole (buf : Bytes) (errorFlag : Bool)
  | sendBin (buffers : List Bytes)
  | setStatus (status : Int)
  | setContentType (stype : Option Bytes)
  | internals (str : Bytes)
  | detach

namespace Session

/-- One call, in which the body is read at most `fuel` times by each loop. -/
def exec (fuel : Nat) : (call : Call) → (s : Session) → CallEnd × Session
  | .parseGet, s => s.parseGet
  | .parsePost, s => s.parsePost fuel true
  | .parseFiles, s => s.parsePost fuel false
  | .parseCookies, s => s.parseCookies
  | .getServer, s => s.getServer
  | .force var, s => s.force fuel var
  | .assign var value, s =>
      (.returned value,
        if s.attached then
          { s with vars := Function.update s.vars var (some value) }
        else s)
  | .receiveBin llen, s => s.receiveBin fuel llen
  | .readConsole size, s => s.readConsole size
  | .writeConsole buf errorFlag, s => s.writeConsole buf errorFlag
  | .sendBin buffers, s => s.sendBin buffers
  | .setStatus status, s => s.setStatus status
  | .setContentType stype, s => s.setContentType stype
  | .internals str, s => (.returned (s.internals str), s)
  | .detach, s => (.returned .null, { s with attached := false })

/-- A sequence of calls: their values, up to the first call that does not return. -/
def execAll (fuel : Nat) : (calls : List Call) → (s : Session) → List RValue × Session
  | [], s => ([], s)
  | call :: calls, s =>
      match s.exec fuel call with
      | (.returned value, s) =>
          let (values, s) := execAll fuel calls s
          (value :: values, s)
      | (_, s) => ([], s)

end Session

/-! ## The module's own steps -/

/-- What the module itself does to the globals of the current request, besides what R
code asks of it. -/
inductive SessionOp where
  | call (call : Call)
  /-- `ap_set_content_type(MR_Request.r, type)`. -/
  | contentType (type : Bytes)
  | error (msg : Bytes)
  /-- `RApacheError` with a message made in the pool of `MR_Request.r`. -/
  | errorInPool (msg : Bytes)
  | puts (text : Bytes)
  | setWriter (writer : ConsoleWriter)
  | cleanReading
  | cleanWriting (flush : Bool)
  | logErrors
  | clear

namespace Session

/-- `MR_Request.r = r`, and no reading yet. -/
def setRequest (r : RequestRec) (s : Session) : Session :=
  { s with
    request := { s.request with r := some r }
    bbIn := none
    status := r.status
    contentType := r.contentType
    reads := [] }

/-- `MR_BBout = apr_brigade_create(...)`. -/
def createOut (s : Session) : Session := { s with bbOut := some [] }

/-- `MR_Request.handler = ...`. -/
def setHandler (handler : Option RApacheDirective) (s : Session) : Session :=
  { s with request := { s.request with handler } }

/-- `RefreshRApacheEnv`: the environment is put back on the search path if it is not
there, and `.ResetCGIVars` makes every variable a promise again. -/
def resetCgiVars (s : Session) : Session := { s with vars := fun _ => none, attached := true }

/-- Flushing `MR_BBout` to the output filters of the request, if there is anything in it.
The value is what the filters are given. -/
def cleanWriting (flush : Bool) (s : Session) : CallEnd × Session :=
  let after := { s with bbOut := none }
  match s.bbOut with
  | none | some [] => (.returned .null, after)
  | some buffers =>
      if !flush then (.returned .null, after)
      else if s.request.r.isSome then (.returned (.raw buffers.flatten), after)
      else (.ended, s)

/-- Writing `MR_BBerr` to the error log of the request.  The value is what is written. -/
def logErrors (s : Session) : CallEnd × Session :=
  match s.bbErr with
  | none => (.returned .null, s)
  | some messages =>
      if s.request.r.isSome then
        (.returned (.raw messages.flatten), { s with bbErr := none })
      else (.ended, s)

/-- One step of the module. -/
def perform (fuel : Nat) : (op : SessionOp) → (s : Session) → CallEnd × Session
  | .call call, s => s.exec fuel call
  | .contentType type, s =>
      if s.request.r.isSome then (.returned .null, { s with contentType := some type })
      else (.ended, s)
  | .error msg, s => returning .null s (s.rApacheError msg)
  | .errorInPool msg, s =>
      if s.request.r.isSome then returning .null s (s.rApacheError msg) else (.ended, s)
  | .puts text, s => returning .null s (s.brigadeWrite text)
  | .setWriter writer, s => (.returned .null, { s with writer })
  | .cleanReading, s => (.returned .null, { s with bbIn := none })
  | .cleanWriting flush, s => s.cleanWriting flush
  | .logErrors, s => s.logErrors
  | .clear, s => (.returned .null, { s with request := {} })

end Session

end RApache
