import SocketRpc.Message.Id
namespace SocketRpc

structure Request where
  version : String := "2.0"
  method : String
  params : List Json.Value
  id : RequestId
deriving Repr, DecidableEq

namespace Request

def toValue (r : Request) : Json.Value :=
  .object [("jsonrpc", .text r.version), ("method", .text r.method), ("params", .array r.params),
    ("id", r.id.toValue)]

def encode (r : Request) : String := r.toValue.compact

structure Draft where
  version : Option String := none
  method : Option String := none
  params : Option (List Json.Value) := none
  id : Option RequestId := none

def record : Json.Record Draft Request where
  name := "JsonRpcRequest"
  start := {}
  fields := [
    .of "jsonrpc" .text Draft.version (fun a d => { d with version := some a }) false,
    .of "method" .text Draft.method (fun a d => { d with method := some a }) false,
    .of "params" .values Draft.params (fun a d => { d with params := some a }) false,
    .of "id" RequestId.decoder Draft.id (fun a d => { d with id := some a }) false]
  build d := do
    let version ← Json.require "jsonrpc" d.version
    let method ← Json.require "method" d.method
    let params ← Json.require "params" d.params
    let id ← Json.require "id" d.id
    return { version, method, params, id }

end Request

end SocketRpc
