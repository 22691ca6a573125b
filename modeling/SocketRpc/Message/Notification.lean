import SocketRpc.Json.Decoder
namespace SocketRpc

structure SubscriptionId where
  text : String
deriving Repr, DecidableEq

def SubscriptionId.decoder : Json.Decoder SubscriptionId where
  ofValue v := (Json.Decoder.text.ofValue v).map SubscriptionId.mk
  ofText room bs := (Json.Decoder.text.ofText room bs).map fun (s, rest) => (⟨s⟩, rest)

structure Push where
  subscription : SubscriptionId
  result : Json.Value := .null
deriving Repr, DecidableEq

namespace Push

def toValue (p : Push) : Json.Value :=
  .object [("subscription", .text p.subscription.text), ("result", p.result)]

structure Draft where
  subscription : Option SubscriptionId := none
  result : Option Json.Value := none

def record : Json.Record Draft Push where
  name := "SubscriptionParams"
  start := {}
  fields := [
    .of "subscription" SubscriptionId.decoder Draft.subscription
      (fun a d => { d with subscription := some a }) false,
    .of "result" .value Draft.result (fun a d => { d with result := some a }) true]
  build d := do
    let subscription ← Json.require "subscription" d.subscription
    return { subscription, result := d.result.getD .null }

end Push

structure Notification where
  version : String := "2.0"
  method : String
  params : Push
deriving Repr, DecidableEq

namespace Notification

def pushMethod : String := "eth_subscription"

def toValue (n : Notification) : Json.Value :=
  .object [("jsonrpc", .text n.version), ("method", .text n.method), ("params", n.params.toValue)]

structure Draft where
  version : Option String := none
  method : Option String := none
  params : Option Push := none

def record : Json.Record Draft Notification where
  name := "SubscriptionNotification"
  start := {}
  fields := [
    .of "jsonrpc" .text Draft.version (fun a d => { d with version := some a }) true,
    .of "method" .text Draft.method (fun a d => { d with method := some a }) false,
    .of "params" Push.record.decoder Draft.params (fun a d => { d with params := some a }) false]
  build d := do
    let method ← Json.require "method" d.method
    let params ← Json.require "params" d.params
    return { version := d.version.getD "2.0", method, params }

def ofValue (v : Json.Value) : Except Json.Mismatch Notification := record.ofValue v

end Notification

def isPush (v : Json.Value) : Bool :=
  (v.get? "method").bind Json.Value.text? = some Notification.pushMethod

end SocketRpc
