import SocketRpc.Message.Response
import SocketRpc.Duration
/-! Everything that can go wrong on a persistent connection, its wording and its class. -/

namespace SocketRpc

inductive IoKind where
  | notFound
  | permissionDenied
  | connectionRefused
  | connectionReset
  | connectionAborted
  | notConnected
  | brokenPipe
  | wouldBlock
  | invalidData
  | timedOut
  | writeZero
  | interrupted
  | unexpectedEnd
  | other
deriving Repr, DecidableEq

def IoKind.description : IoKind → String
  | notFound => "entity not found"
  | permissionDenied => "permission denied"
  | connectionRefused => "connection refused"
  | connectionReset => "connection reset"
  | connectionAborted => "connection aborted"
  | notConnected => "not connected"
  | brokenPipe => "broken pipe"
  | wouldBlock => "operation would block"
  | invalidData => "invalid data"
  | timedOut => "timed out"
  | writeZero => "write zero"
  | interrupted => "operation interrupted"
  | unexpectedEnd => "unexpected end of file"
  | other => "other error"

structure IoError where
  kind : IoKind
  message : Option String := none
deriving Repr, DecidableEq

def IoError.text (e : IoError) : String := e.message.getD e.kind.description

def IoError.noSuchFile : IoError := ⟨.notFound, some "No such file or directory (os error 2)"⟩

def IoError.refused : IoError := ⟨.connectionRefused, some "Connection refused (os error 111)"⟩

def IoError.networkUnreachable : IoError := ⟨.other, some "Network is unreachable (os error 101)"⟩

def IoError.pathTooLong : IoError := ⟨.other, some "path must be shorter than SUN_LEN"⟩

def IoError.notUtf8 : IoError := ⟨.invalidData, some "stream did not contain valid UTF-8"⟩

inductive Failure where
  | io (e : IoError)
  | webSocket (text : String)
  | connectionFailed (endpoint : String) (attempts : Nat) (reason : String)
  | notConnected
  | connectionClosed
  | listener (reason : String)
  | timeout (id : RequestId) (elapsed : Duration)
  | duplicateResponseId (id : RequestId)
  | duplicateRequestId (id : RequestId)
  | invalidMessage (text : String)
  | rpc (e : ErrorObject)
  | deserialization (p : Json.Problem)
  | unreachable (endpoint : String) (source : Failure)
  | other (text : String)
deriving Repr, DecidableEq

namespace Failure

def message : Failure → String
  | io e => "I/O error: " ++ e.text
  | webSocket text => "WebSocket error: " ++ text
  | connectionFailed endpoint attempts reason =>
    "Could not connect to endpoint: " ++ endpoint ++ ". Retries exceeded max of " ++
      toString attempts ++ ". Last error: " ++ reason
  | notConnected => "Connection to the socket has not been initiated for the provider"
  | connectionClosed => "Connection closed before a response was received"
  | listener reason => "Message listener failed: " ++ reason
  | timeout id elapsed =>
    "Timed out waiting for response with request id `" ++ id.display ++ "` after " ++ elapsed.text
  | duplicateResponseId id => "Duplicate response for request id `" ++ id.display ++ "`"
  | duplicateRequestId id => "Request id `" ++ id.display ++ "` is already in flight"
  | invalidMessage text => "Invalid message: " ++ text
  | rpc e => "RPC error " ++ toString e.code ++ ": " ++ e.message
  | deserialization p => "Deserialization error: " ++ p.message
  | unreachable endpoint source =>
    "Problem connecting to provider " ++ endpoint ++ ": " ++ source.message
  | other text => text

def causes : Failure → List String
  | io e => [e.text]
  | deserialization p => [p.message]
  | unreachable _ source => source.message :: source.causes
  | _ => []

def isBrokenPipe : Failure → Bool
  | io e => e.kind = .brokenPipe
  | _ => false

def isConnection : Failure → Bool
  | io _ | webSocket _ | notConnected | connectionClosed | listener _ | unreachable _ _ => true
  | _ => false

def isTransient : Failure → Bool
  | timeout _ _ | rpc _ | deserialization _ | invalidMessage _ | duplicateResponseId _
  | duplicateRequestId _ | other _ => true
  | _ => false

def isFatal : Failure → Bool
  | connectionFailed _ _ _ => true
  | _ => false

end Failure

end SocketRpc
