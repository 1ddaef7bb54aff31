import LogosDelivery.Archive.ArchiveStores
import LogosDelivery.StoreSync.Delivery

/-! # The Store protocol

A client sends a `StoreQueryRequest` to a server, which checks it (`validate`), asks its archive
(`toArchiveQuery`, `toStoreResult`) and answers with a `StoreQueryResponse`: `waku_store/common.nim`,
`rpc_codec.nim`, `protocol.nim` and `client.nim`, and the handler that `node/waku_node/store.nim`
mounts.

The serialization library is not part of the repository; a record that was written is read as it was,
and then passes the validators of the codec, which are. -/

namespace LogosDelivery.Store

open Archive (Timestamp ArchiveQuery ArchiveResponse ArchiveError ArchiveRow DriverQuery IncomingMessage
  PagingDirection WakuMessageKeyValue)
open StoreSync (Byte WakuMessageHash PubsubTopic ContentTopic emptyFingerprint ProtobufError
  validateWakuMessageFields)

/-! ### Errors -/

inductive ErrorCode where
  | unknown
  | badResponse
  | badRequest
  | tooManyRequests
  | serviceUnavailable
  | peerDialFailure
deriving DecidableEq

namespace ErrorCode

def value : ErrorCode → ℕ
  | unknown => 0
  | badResponse => 300
  | badRequest => 400
  | tooManyRequests => 429
  | serviceUnavailable => 503
  | peerDialFailure => 504

def parse : ℕ → ErrorCode
  | 300 => badResponse
  | 400 => badRequest
  | 429 => tooManyRequests
  | 503 => serviceUnavailable
  | 504 => peerDialFailure
  | _ => unknown

end ErrorCode

/-- `StatusCode.SUCCESS`. -/
def success : ℕ := 200

inductive StoreError where
  | peerDialFailure (address : String)
  | badResponse (cause : String)
  | badRequest (cause : String)
  | tooManyRequests
  | serviceUnavailable
  | unknown
deriving DecidableEq

namespace StoreError

def new (code : ℕ) (desc : String) : StoreError :=
  match ErrorCode.parse code with
  | .badResponse => .badResponse desc
  | .badRequest => .badRequest desc
  | .tooManyRequests => .tooManyRequests
  | .serviceUnavailable => .serviceUnavailable
  | .peerDialFailure => .peerDialFailure desc
  | .unknown => .unknown

def kind : StoreError → ErrorCode
  | peerDialFailure _ => .peerDialFailure
  | badResponse _ => .badResponse
  | badRequest _ => .badRequest
  | tooManyRequests => .tooManyRequests
  | serviceUnavailable => .serviceUnavailable
  | unknown => .unknown

/-- `$`. -/
def text : StoreError → String
  | peerDialFailure address => "PEER_DIAL_FAILURE: " ++ address
  | badResponse cause => "BAD_RESPONSE: " ++ cause
  | badRequest cause => "BAD_REQUEST: " ++ cause
  | tooManyRequests => "TOO_MANY_REQUESTS"
  | serviceUnavailable => "SERVICE_UNAVAILABLE"
  | unknown => "UNKNOWN"

end StoreError

/-- `$` of an error of the codec. -/
def protobufErrorText : ProtobufError → String
  | .missingRequiredField field => "MissingRequiredField: " ++ field
  | .invalidLengthField field => "InvalidLengthField: " ++ field

/-! ### Requests and responses -/

structure StoreQueryRequest where
  requestId : String
  includeData : Bool
  pubsubTopic : Option PubsubTopic
  contentTopics : List ContentTopic
  startTime : Option Timestamp
  endTime : Option Timestamp
  messageHashes : List WakuMessageHash
  paginationCursor : Option WakuMessageHash
  paginationForward : PagingDirection
  paginationLimit : Option ℕ

structure StoreQueryResponse where
  requestId : String := ""
  statusCode : ℕ := 0
  statusDesc : String := ""
  messages : List WakuMessageKeyValue := []
  paginationCursor : Option WakuMessageHash := none

/-- 24 hours. -/
def MaxQueryTimeRange : Timestamp := 24 * 60 * 60 * 1000000000

def timestampHigh : Timestamp := 2 ^ 63 - 1

/-- The two times are more than the largest range apart. -/
def exceedsRange (startTime endTime : Timestamp) : Bool :=
  decide (startTime ≤ timestampHigh - MaxQueryTimeRange) &&
    decide (endTime > startTime + MaxQueryTimeRange)

namespace StoreQueryRequest

def hasContentFilter (req : StoreQueryRequest) : Bool :=
  req.pubsubTopic.isSome || decide (req.contentTopics.length > 0) || req.startTime.isSome ||
    req.endTime.isSome

def validate (req : StoreQueryRequest) : Except String Unit :=
  if req.startTime.any (fun startTime => req.endTime.any (fun endTime => exceedsRange startTime endTime))
  then .error "time range exceeds 24h"
  else if decide (req.messageHashes.length > 0) && req.hasContentFilter then
    .error "message hash lookup cannot be combined with content filters"
  else .ok ()

def toArchiveQuery (request : StoreQueryRequest) : ArchiveQuery where
  includeData := request.includeData
  pubsubTopic := request.pubsubTopic
  contentTopics := request.contentTopics
  cursor := request.paginationCursor
  startTime := request.startTime
  endTime := request.endTime
  hashes := request.messageHashes
  pageSize := request.paginationLimit.getD 0
  direction := request.paginationForward
  requestId := request.requestId

/-- The same request from another place on. -/
def withCursor (request : StoreQueryRequest) (cursor : Option WakuMessageHash) : StoreQueryRequest :=
  { request with paginationCursor := cursor }

/-- The request with the id under which it is sent. -/
def named (request : StoreQueryRequest) (generated : String) : StoreQueryRequest :=
  if request.requestId = "" then { request with requestId := generated } else request

end StoreQueryRequest

/-! ### The codec -/

/-- A message and its topic are a pair; if one is missing neither is kept. -/
def validateKeyValue (keyValue : WakuMessageKeyValue) : Except ProtobufError WakuMessageKeyValue :=
  if keyValue.messageHash = emptyFingerprint then .error (.missingRequiredField "message_hash")
  else
    match keyValue.message, keyValue.pubsubTopic with
    | some msg, some _ => (validateWakuMessageFields msg).map (fun _ => keyValue)
    | _, _ => .ok { keyValue with message := none, pubsubTopic := none }

/-- `readFieldInto` of the key-values: one that is refused is dropped. -/
def readMessages (messages : List WakuMessageKeyValue) : List WakuMessageKeyValue :=
  messages.filterMap (fun keyValue => (validateKeyValue keyValue).toOption)

/-- What is decoded of a written request. -/
def decodeRequest (req : StoreQueryRequest) : Except ProtobufError StoreQueryRequest :=
  if req.requestId.length = 0 then .error (.missingRequiredField "request_id") else .ok req

/-- What is decoded of a written response. -/
def decodeResponse (res : StoreQueryResponse) : Except ProtobufError StoreQueryResponse :=
  if res.requestId.length = 0 then .error (.missingRequiredField "request_id")
  else if res.statusCode = 0 then .error (.missingRequiredField "status_code")
  else .ok { res with messages := readMessages res.messages }

/-! ### The server -/

/-- The messages are put in, one after the other; `none` if there are more of them than hashes or
topics, which is an `IndexDefect`. -/
def putMessages : List WakuMessageKeyValue → List Archive.WakuMessage → List PubsubTopic →
    Option (List WakuMessageKeyValue)
  | keyValues, [], _ => some keyValues
  | keyValue :: keyValues, msg :: messages, topic :: topics =>
      (putMessages keyValues messages topics).map
        (⟨keyValue.messageHash, some ⟨msg, [], false⟩, some topic⟩ :: ·)
  | _, _ :: _, _ => none

def toStoreResult (res : Except ArchiveError ArchiveResponse) :
    Option (Except StoreError StoreQueryResponse) :=
  match res with
  | .error (.invalidQuery cause) =>
      some (.error (.new 400 ("archive error: " ++ (ArchiveError.invalidQuery cause).text)))
  | .error error => some (.error (.new 300 ("archive error: " ++ error.text)))
  | .ok response =>
      (putMessages (response.hashes.map (fun hash => ⟨hash, none, none⟩)) response.messages
        response.topics).map (fun messages =>
          .ok { statusCode := 200, statusDesc := "OK", messages := messages,
                paginationCursor := response.cursor })

/-- The handler that `mountStore` gives to the protocol. -/
def requestHandler (getMessages : DriverQuery → Except String (List ArchiveRow))
    (request : StoreQueryRequest) : Option (Except StoreError StoreQueryResponse) :=
  toStoreResult (Archive.findMessages getMessages request.toArchiveQuery)

def handleQueryRequest (getMessages : DriverQuery → Except String (List ArchiveRow))
    (written : StoreQueryRequest) : Option StoreQueryResponse :=
  match decodeRequest written with
  | .error error =>
      some { requestId := "N/A", statusCode := ErrorCode.badRequest.value,
             statusDesc := "decoding rpc failed: " ++ protobufErrorText error }
  | .ok req =>
      match req.validate with
      | .error error =>
          some { requestId := req.requestId, statusCode := ErrorCode.badRequest.value,
                 statusDesc := error }
      | .ok _ =>
          (requestHandler getMessages req).map (fun queryResult =>
            match queryResult with
            | .error error =>
                { requestId := req.requestId, statusCode := error.kind.value, statusDesc := error.text }
            | .ok res => { res with requestId := req.requestId, statusCode := 200, statusDesc := "OK" })

/-! ### The client -/

/-- The bytes that the random generator gives for an id. -/
abbrev RequestBytes := {l : List Byte // l.length = 10}

def generateRequestId (bytes : RequestBytes) : String := String.ofList (Archive.hexText bytes.1)

/-- What happens to a request on its way. -/
structure Exchange where
  dialed : Bool
  written : Except String Unit
  /-- The rate limit lets the request pass. -/
  served : Bool
  /-- The request is not longer than the server reads. -/
  requestRead : Bool
  /-- The response is not longer than the client reads. -/
  responseRead : Bool
  /-- The message of the exception when there is no response to read. -/
  closed : String
  random : RequestBytes

/-- The request is answered. -/
structure Exchange.Succeeds (x : Exchange) : Prop where
  dialed : x.dialed = true
  written : x.written = .ok ()
  served : x.served = true
  requestRead : x.requestRead = true
  responseRead : x.responseRead = true

/-- The handler of a connection; `none` if it is closed without a response. -/
def handler (getMessages : DriverQuery → Except String (List ArchiveRow)) (x : Exchange)
    (written : StoreQueryRequest) : Option StoreQueryResponse :=
  if x.served then
    if x.requestRead then handleQueryRequest getMessages written else none
  else some { requestId := "N/A", statusCode := ErrorCode.tooManyRequests.value,
              statusDesc := "TOO_MANY_REQUESTS" }

def sendStoreRequest (getMessages : DriverQuery → Except String (List ArchiveRow)) (x : Exchange)
    (request : StoreQueryRequest) : Except StoreError StoreQueryResponse :=
  match x.written with
  | .error exc => .error (.badRequest exc)
  | .ok _ =>
      match handler getMessages x (request.named (generateRequestId x.random)) with
      | none => .error (.badResponse x.closed)
      | some written =>
          if x.responseRead then
            match decodeResponse written with
            | .error _ => .error (.badResponse "decode_rpc_failure")
            | .ok res =>
                if res.statusCode ≠ success then .error (.new res.statusCode res.statusDesc) else .ok res
          else .error (.badResponse x.closed)

/-- `query` to a peer. -/
def query (getMessages : DriverQuery → Except String (List ArchiveRow)) (peer : String) (x : Exchange)
    (request : StoreQueryRequest) : Except StoreError StoreQueryResponse :=
  if request.paginationCursor = some emptyFingerprint then .error (.badRequest "invalid cursor")
  else if x.dialed then sendStoreRequest getMessages x request
  else .error (.peerDialFailure peer)

end LogosDelivery.Store
