import SocketRpc.Json.Decoder
namespace SocketRpc

inductive RequestId where
  | number (n : Nat)
  | text (s : String)
  | null
deriving Repr, DecidableEq

/-- The name under which a response is kept; numbers and texts never share one. -/
structure CacheKey where
  text : String
deriving Repr, DecidableEq

namespace RequestId

def limit : Nat := 18446744073709551616

def display : RequestId → String
  | number n => toString n
  | text s => s
  | null => "null"

def key : RequestId → CacheKey
  | number n => ⟨"n:" ++ toString n⟩
  | text s => ⟨"s:" ++ s⟩
  | null => ⟨"null"⟩

def toValue : RequestId → Json.Value
  | number n => .ofNat n
  | text s => .text s
  | null => .null

def ofValue : Json.Value → Except Json.Mismatch RequestId
  | .number (.integer i) =>
    if 0 ≤ i ∧ i < limit then .ok (.number i.toNat) else .error (.noVariant "RpcId")
  | .text s => .ok (.text s)
  | .null => .ok .null
  | _ => .error (.noVariant "RpcId")

def decoder : Json.Decoder RequestId := .ofValueOnly ofValue

end RequestId

end SocketRpc
