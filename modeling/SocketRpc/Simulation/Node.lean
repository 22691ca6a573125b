import SocketRpc.Provider.Run
namespace SocketRpc.Simulation

/-- What a node sends; the parts of a template are filled in from the request. -/
inductive Item where
  | template (s : String)
  | arrival (a : Arrival)

structure OpenPlan where
  failure : Option Failure := none
  delayMs : Nat := 0
  greet : List Item := []

inductive WritePlan where
  | whole
  | pieces (n : Nat)
  | nothing
  | failure (e : IoError) (reaction : Option Item)
  /-- not a failure of the stream, and no octet reaches it -/
  | refusal (e : Failure)
  | flushFailure (e : IoError)

def WritePlan.answers (size : Nat) : WritePlan → List SinkAnswer
  | whole => [.accept size, .flushed]
  | pieces n => List.replicate size (.accept n) ++ [.flushed]
  | nothing => [.accept 0]
  | failure e _ => [.failure (.io e)]
  | refusal e => [.failure e]
  | flushFailure e => [.accept size, .failure (.io e)]

/-- Plans are used up one by one; when there is none left, all goes well. -/
structure Plans where
  opens : List OpenPlan := []
  writes : List WritePlan := []
  closes : List (Option IoError) := []
  rules : Table String (List Item) := {}

inductive Sighting where
  | opening (time : Nat) (ok : Bool) (state : ConnectionState)
  | wrote (s : SocketId) (data : String)
  | writeFailed (s : SocketId)
  | flushFailed (s : SocketId)
  | closing (s : SocketId) (state : ConnectionState)

structure Node where
  plans : Plans := {}
  /-- why opens without a plan of their own fail, if they do -/
  refusal : Option Failure := none
  eofOnClose : Bool := false
  sockets : Table SocketId (List Arrival) := {}
  seen : List Sighting := []

def replaceFrom (pattern replacement : List Char) : Nat → List Char → List Char
  | _, [] => []
  | skip + 1, _ :: rest => replaceFrom pattern replacement skip rest
  | 0, c :: rest =>
    if pattern.isPrefixOf (c :: rest) then
      replacement ++ replaceFrom pattern replacement (pattern.length - 1) rest
    else c :: replaceFrom pattern replacement 0 rest

def replaceAll (text pattern replacement : String) : String :=
  String.ofList (replaceFrom pattern.toList replacement.toList 0 text.toList)

namespace Node

def see (n : Node) (s : Sighting) : Node := { n with seen := n.seen ++ [s] }

def fill (r : Request) (s : String) : String :=
  let s := replaceAll s "$ID" r.id.toValue.compact
  let s := replaceAll s "$METHOD" (Json.Value.text r.method).compact
  replaceAll s "$PARAMS" (Json.Value.array r.params).compact

def itemArrival (r : Option Request) : Item → Arrival
  | .arrival a => a
  | .template s => .data (Utf8.ofText ((r.map fun r => fill r s).getD s))

def send (n : Node) (s : SocketId) (r : Option Request) (items : List Item) : Node :=
  { n with sockets := n.sockets.set s ((n.sockets.get? s).getD [] ++ items.map (itemArrival r)) }

def reply (n : Node) (s : SocketId) (r : Request) : Node :=
  let items := match n.plans.rules.get? r.method with
    | some items => items
    | none => (n.plans.rules.get? "*").getD []
  n.send s (some r) items

def receive (n : Node) (s : SocketId) (text : String) (r : Option Request) : WritePlan → Node
  | .whole | .pieces _ =>
    let n := n.see (.wrote s text)
    match r with
    | some r => n.reply s r
    | none => n
  | .failure _ reaction => (n.see (.writeFailed s)).send s none reaction.toList
  | .flushFailure _ => n.see (.flushFailed s)
  | .nothing | .refusal _ => n

def takeOpen (n : Node) : OpenPlan × Node :=
  match n.plans.opens with
  | [] => ({ failure := n.refusal }, n)
  | p :: rest => (p, { n with plans := { n.plans with opens := rest } })

def takeWrite (n : Node) : WritePlan × Node :=
  match n.plans.writes with
  | [] => (.whole, n)
  | p :: rest => (p, { n with plans := { n.plans with writes := rest } })

def takeClose (n : Node) : Option IoError × Node :=
  match n.plans.closes with
  | [] => (none, n)
  | p :: rest => (p, { n with plans := { n.plans with closes := rest } })

def close (n : Node) (s : SocketId) (state : ConnectionState) : Option IoError × Node :=
  let (e, n) := n.takeClose
  let n := n.see (.closing s state)
  (e, if n.eofOnClose then n.send s none [.arrival .ended] else n)

def write (n : Node) (s : SocketId) (text : String) : Outgoing.Step × Node :=
  let (plan, n) := n.takeWrite
  let out := Outgoing.ofText text
  (out.run (plan.answers out.left.length), n.receive s text none plan)

def read (n : Node) (size : Nat) (s : SocketId) : Option Chunk × Node :=
  let (c, left) := readChunk size ((n.sockets.get? s).getD [])
  (c, { n with sockets := n.sockets.set s left })

end Node

end SocketRpc.Simulation
