import SocketRpc.Cli.Settings
import SocketRpc.Endpoint
namespace SocketRpc.Cli

def title : String := "chainsock 0.1.0"

def usage : List String := [
  title,
  "JSON-RPC over persistent IPC and WebSocket connections",
  "",
  "USAGE:",
  "    chainsock <COMMAND> [FLAGS]",
  "",
  "COMMANDS:",
  "    call       Send one JSON-RPC call and print the result",
  "    ping       Check the node answers over the socket",
  "    subscribe  Print subscription notifications",
  "    version    Print version",
  "    help       Print this help",
  "",
  "ENDPOINT FLAGS:",
  "    --ipc <PATH>        IPC socket path  [default: geth's default path]",
  "    --ws <URL>          WebSocket URL",
  "    --config <FILE>     JSON file with `provider` and `log` sections",
  "    --log-level <LVL>   trace | debug | info | warn | error",
  "",
  "CALL FLAGS:",
  "    --method <NAME>     RPC method  [required]",
  "    --params <JSON>     JSON array of params  [default: []]",
  "",
  "SUBSCRIBE FLAGS:",
  "    --kind <KIND>       newHeads | logs | newPendingTransactions  [default: newHeads]",
  "    --params <JSON>     extra eth_subscribe params  [default: []]",
  "    --count <N>         stop after N notifications  [default: unlimited]"]

inductive CountFlaw where
  | empty
  | noDigit
  | tooLarge
deriving Repr, DecidableEq

def CountFlaw.message : CountFlaw → String
  | empty => "cannot parse integer from empty string"
  | noDigit => "invalid digit found in string"
  | tooLarge => "number too large to fit in target type"

inductive Complaint where
  | reading (path : String) (e : IoError)
  | parsing (path : String) (p : Json.Problem)
  | bothEndpoints
  | noEndpoint
  | noMethod
  | params (p : Json.Problem)
  | count (f : CountFlaw)
  | failure (e : Failure)
deriving Repr, DecidableEq

def Complaint.texts : Complaint → List String
  | reading path e => ["reading " ++ path, e.text]
  | parsing path p => ["parsing " ++ path, p.message]
  | bothEndpoints => ["--ws and --ipc are mutually exclusive"]
  | noEndpoint => ["no --ipc or --ws given and no default IPC path"]
  | noMethod => ["--method is required"]
  | params p => ["--params must be a JSON array", p.message]
  | count f => ["--count must be a non-negative integer", f.message]
  | failure e => e.message :: e.causes

def Complaint.line (c : Complaint) : String := "Error: " ++ ": ".intercalate c.texts

/-- The argument behind the first occurrence of a flag, whatever it is. -/
def flag? (name : String) : List String → Option String
  | [] => none
  | a :: rest => if a = name then rest.head? else flag? name rest

def readDigits : Nat → List Char → Except CountFlaw Nat
  | n, [] => .ok n
  | n, c :: rest =>
    if '0' ≤ c ∧ c ≤ '9' then
      let m := n * 10 + (c.toNat - '0'.toNat)
      if 18446744073709551615 < m then .error .tooLarge else readDigits m rest
    else .error .noDigit

def readCount (s : String) : Except CountFlaw Nat :=
  match s.toList with
  | [] => .error .empty
  | ['+'] => .error .noDigit
  | '+' :: cs => readDigits 0 cs
  | cs => readDigits 0 cs

def readParams (args : List String) : Except Complaint (List Json.Value) :=
  match flag? "--params" args with
  | some s => (Json.Decoder.values.parse (Utf8.ofText s)).mapError .params
  | none => .ok []

inductive Job where
  | call (method : String) (params : List Json.Value)
  | ping
  | subscribe (kind : String) (params : List Json.Value) (count : Option Nat)
deriving Repr, DecidableEq

inductive JobKind where
  | call
  | ping
  | subscribe
deriving Repr, DecidableEq

def JobKind.job (args : List String) : JobKind → Except Complaint Job
  | call => do
    match flag? "--method" args with
    | none => .error .noMethod
    | some method => return .call method (← readParams args)
  | ping => .ok .ping
  | subscribe => do
    let params ← readParams args
    let count ← match flag? "--count" args with
      | none => pure none
      | some s => do pure (some (← (readCount s).mapError .count))
    return .subscribe ((flag? "--kind" args).getD "newHeads") params count

structure Surroundings where
  place : Path.Place
  read : Path → Except IoError Bytes

def Surroundings.settings (w : Surroundings) (path : String) : Except Complaint Settings := do
  let bs ← (w.read (Path.ofText path)).mapError (.reading path)
  if (Utf8.decode? bs).isNone then .error (.reading path .notUtf8)
  let s ← (Settings.record.decoder.parse bs).mapError (.parsing path)
  match s.provider.objection with
  | some e => .error (.failure e)
  | none => return s

def endpointOf (w : Path.Place) (args : List String) : Except Complaint Endpoint :=
  match flag? "--ws" args, flag? "--ipc" args with
  | some _, some _ => .error .bothEndpoints
  | some url, none => .ok (.webSocket url)
  | none, some path => .ok (.ipc w (Path.ofText path))
  | none, none =>
    match Path.defaultSocket? w with
    | some p => .ok (.ipc w p)
    | none => .error .noEndpoint

structure Plan where
  endpoint : Endpoint
  settings : Settings
  job : Job

def JobKind.plan (w : Surroundings) (args : List String) (kind : JobKind) : Except Complaint Plan := do
  let settings ← match flag? "--config" args with
    | some path => w.settings path
    | none => pure {}
  let settings := match flag? "--log-level" args with
    | some level => { settings with log := { settings.log with level } }
    | none => settings
  let endpoint ← endpointOf w.place args
  return { endpoint, settings, job := ← kind.job args }

inductive Invocation where
  | bare
  | help
  | version
  | unknown (word : String)
  | job (kind : JobKind) (args : List String)
deriving Repr, DecidableEq

def Invocation.ofArgs : List String → Invocation
  | [] => .bare
  | "call" :: args => .job .call args
  | "ping" :: args => .job .ping args
  | "subscribe" :: args => .job .subscribe args
  | "version" :: _ | "--version" :: _ | "-V" :: _ => .version
  | "help" :: _ | "--help" :: _ | "-h" :: _ => .help
  | word :: _ => .unknown word

end SocketRpc.Cli
