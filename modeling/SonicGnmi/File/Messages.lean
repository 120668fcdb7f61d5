import SonicGnmi.Path.Validate

/-!
# Messages and statuses of the gNOI File service

The protobuf messages the handlers read and write, with Go's pointer and slice
nil-ness kept where a handler tests it (`GetOpen() == nil`, `GetContents() != nil`),
and the gRPC status a handler returns: its code and its message text. A message that
formats an external error with `%v` keeps its fixed prefix followed by the error's
text.
-/

namespace SonicGnmi.File

/-- File contents, payloads and digests. -/
abbrev Bytes := List UInt8

/-- The gRPC status codes the handlers and the authorizer return, or that the calls
they make fail with. -/
inductive Code where
  | invalidArgument
  | unimplemented
  | notFound
  | permissionDenied
  | dataLoss
  | canceled
  | deadlineExceeded
  | unavailable
  | internal
  | unknown
  | unauthenticated
  deriving DecidableEq, Repr

/-- The name `codes.Code.String()` gives a code. -/
def Code.name : Code → String
  | .invalidArgument => "InvalidArgument"
  | .unimplemented => "Unimplemented"
  | .notFound => "NotFound"
  | .permissionDenied => "PermissionDenied"
  | .dataLoss => "DataLoss"
  | .canceled => "Canceled"
  | .deadlineExceeded => "DeadlineExceeded"
  | .unavailable => "Unavailable"
  | .internal => "Internal"
  | .unknown => "Unknown"
  | .unauthenticated => "Unauthenticated"

/-- `status.Error(code, msg)`. -/
structure Status where
  code : Code
  msg : String
  deriving DecidableEq, Repr

/-- `types.HashType_HashMethod`. -/
inductive HashMethod where
  | unspecified
  | sha256
  | sha512
  | md5
  deriving DecidableEq, Repr

/-- `types.HashType`. -/
structure HashType where
  method : HashMethod
  hash : Bytes
  deriving DecidableEq, Repr

/-- `PutRequest_Details`, the payload of an `Open` message. -/
structure Details where
  remoteFile : List Char
  permissions : UInt32
  deriving DecidableEq, Repr

/-- The `request` oneof of a `PutRequest`. The payload of a set case may itself be a
nil pointer or a nil slice (`none`). -/
inductive PutRequest where
  | openMsg (details : Option Details)
  | contents (data : Option Bytes)
  | hashMsg (hash : Option HashType)
  | unset
  deriving DecidableEq, Repr

/-- `req.GetOpen()`. -/
def PutRequest.getOpen : PutRequest → Option Details
  | .openMsg d => d
  | _ => none

/-- `req.GetContents()`. -/
def PutRequest.getContents : PutRequest → Option Bytes
  | .contents c => c
  | _ => none

/-- `req.GetHash()`. -/
def PutRequest.getHash : PutRequest → Option HashType
  | .hashMsg h => h
  | _ => none

/-- The error a `stream.Recv()` returns. -/
inductive RecvError where
  | eof
  | canceled
  | deadlineExceeded
  | other (text : String)
  deriving DecidableEq, Repr

/-- The text of a receive error, as `%v` prints it. -/
def RecvError.text : RecvError → String
  | .eof => "EOF"
  | .canceled => "context canceled"
  | .deadlineExceeded => "context deadline exceeded"
  | .other t => t

/-- One result of `stream.Recv()`. -/
abbrev RecvItem := Except RecvError PutRequest

/-- `common.RemoteDownload_Protocol`. -/
inductive Protocol where
  | unknown
  | sftp
  | http
  | https
  | scp
  deriving DecidableEq, Repr

/-- The name `%v` prints for a protocol. -/
def Protocol.name : Protocol → String
  | .unknown => "UNKNOWN"
  | .sftp => "SFTP"
  | .http => "HTTP"
  | .https => "HTTPS"
  | .scp => "SCP"

/-- `common.RemoteDownload`. -/
structure RemoteDownload where
  path : List Char
  protocol : Protocol
  deriving DecidableEq, Repr

/-- `TransferToRemoteRequest`. -/
structure TransferToRemoteRequest where
  localPath : List Char
  remoteDownload : Option RemoteDownload
  deriving DecidableEq, Repr

/-- `RemoveRequest`. -/
structure RemoveRequest where
  remoteFile : List Char
  deriving DecidableEq, Repr

/-- Incoming gRPC metadata: the values `md.Get(key)` returns for each key. -/
abbrev Metadata := List Char → List (List Char)

end SonicGnmi.File
