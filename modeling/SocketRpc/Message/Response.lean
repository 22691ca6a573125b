import SocketRpc.Message.Id
namespace SocketRpc

structure ErrorObject where
  code : Int
  message : String
  data : Option Json.Value := none
deriving Repr, DecidableEq

namespace ErrorObject

def display (e : ErrorObject) : String :=
  "JSON-RPC error " ++ toString e.code ++ ": " ++ e.message

def toValue (e : ErrorObject) : Json.Value :=
  .object ([("code", .number (.integer e.code)), ("message", .text e.message)] ++
    (e.data.map fun v => ("data", v)).toList)

structure Draft where
  code : Option Int := none
  message : Option String := none
  data : Option (Option Json.Value) := none

def record : Json.Record Draft ErrorObject where
  name := "JsonRpcError"
  start := {}
  fields := [
    .of "code" (.integer (-9223372036854775808) 9223372036854775807 "i64") Draft.code
      (fun a d => { d with code := some a }) false,
    .of "message" .text Draft.message (fun a d => { d with message := some a }) false,
    .of "data" (.optional .value) Draft.data (fun a d => { d with data := some a }) false]
  build d := do
    let code ← Json.require "code" d.code
    let message ← Json.require "message" d.message
    return { code, message, data := d.data.join }

end ErrorObject

structure Response where
  version : String := "2.0"
  id : RequestId
  result : Option Json.Value := none
  error : Option ErrorObject := none
deriving Repr, DecidableEq

namespace Response

def isOk (r : Response) : Bool := r.error.isNone && r.result.isSome

def outcome (r : Response) : Except ErrorObject Json.Value :=
  match r.error with
  | some e => .error e
  | none => .ok (r.result.getD .null)

def toValue (r : Response) : Json.Value :=
  .object ([("jsonrpc", .text r.version), ("id", r.id.toValue)] ++
    (r.result.map fun v => ("result", v)).toList ++
    (r.error.map fun e => ("error", e.toValue)).toList)

def encode (r : Response) : String := r.toValue.compact

structure Draft where
  version : Option String := none
  id : Option RequestId := none
  result : Option (Option Json.Value) := none
  error : Option (Option ErrorObject) := none

def record : Json.Record Draft Response where
  name := "JsonRpcResponse"
  start := {}
  fields := [
    .of "jsonrpc" .text Draft.version (fun a d => { d with version := some a }) true,
    .of "id" RequestId.decoder Draft.id (fun a d => { d with id := some a }) false,
    .of "result" (.optional .value) Draft.result (fun a d => { d with result := some a }) true,
    .of "error" (.optional ErrorObject.record.decoder) Draft.error
      (fun a d => { d with error := some a }) true]
  build d := do
    let id ← Json.require "id" d.id
    return { version := d.version.getD "2.0", id, result := d.result.join, error := d.error.join }

def ofValue (v : Json.Value) : Except Json.Mismatch Response := record.ofValue v

end Response

end SocketRpc
