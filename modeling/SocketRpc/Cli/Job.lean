import SocketRpc.Cli.Invocation
import SocketRpc.Console
import SocketRpc.Script
namespace SocketRpc.Cli

variable {χ α ρ : Type}

open Provider (livenessMethod)

def unlimited : Nat := 18446744073709551615

def printNotifications (t : Terminal χ α ρ) (s : SubscriptionId) : Nat → Script χ α ρ
  | 0 => .operate (.unsubscribe s) fun
    | .ok _ => .value (t.report [])
    | .error e => .error e
  | n + 1 => .operate (.nextNotification s) fun
    | .ok (.value v) => .aside (t.print (.out v.compact)) fun _ => printNotifications t s n
    | .ok _ => printNotifications t s n
    | .error e => .error e

def probe (t : Terminal χ α ρ) : Script χ α ρ :=
  .aside t.clock fun before =>
    .operate (.isConnected true) fun
      | .error e => .error e
      | .ok _ => .aside t.clock fun after =>
        .operate (.call .text livenessMethod []) fun
          | .ok (.text client) => .value (t.report [
              .out "  Status:   OK",
              .out ("  Client:   " ++ client),
              .out ("  Latency:  " ++ toString (t.time after - t.time before) ++ "ms")])
          | .ok _ => .value (t.report [])
          | .error e => .error e

def Job.script (t : Terminal χ α ρ) (e : Endpoint) : Job → Script χ α ρ
  | .call method params => .withConnection <| .operate (.call .value method params) fun
    | .ok (.value v) => .value (t.report [.out v.pretty])
    | .ok _ => .value (t.report [])
    | .error e => .error e
  | .ping => .aside (t.print (.out ("Pinging " ++ e.display ++ "..."))) fun _ => .withConnection (probe t)
  | .subscribe kind params count => .withConnection <| .operate (.subscribe kind params) fun
    | .ok (.subscription s) =>
      .aside (t.print (.err ("Subscribed to " ++ kind ++ " as " ++ s.text))) fun _ =>
        printNotifications t s (count.getD unlimited)
    | .ok _ => .value (t.report [])
    | .error e => .error e

end SocketRpc.Cli
