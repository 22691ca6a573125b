import SocketRpc.Table
import SocketRpc.Failure
import SocketRpc.Message.Notification
/-!
Where the listener leaves what it has read and callers pick it up: responses by the key of their
request, pushes by subscription.
-/

namespace SocketRpc

/-- A claim to one response, held by a caller. -/
abbrev Ticket := Nat

inductive Mailbox where
  | empty
  | filled (r : Response)
  /-- no response will come any more, or it has been taken -/
  | closed
deriving Repr, DecidableEq

structure Correlator where
  waiting : Table CacheKey Ticket := {}
  /-- responses that nobody waited for, the oldest first -/
  parked : Table CacheKey Response := {}
  /-- requests given up, the oldest first; a response to one is dropped -/
  abandoned : List CacheKey := []
  queues : Table SubscriptionId (List Json.Value) := {}
  fault : Option String := none
  peerClosed : Bool := false
  /-- the number of clearances, unbounded: 64 bits would wrap only after 2^64 of them -/
  epoch : Nat := 0
  mail : Table Ticket Mailbox := {}
  nextTicket : Ticket := 0
deriving Repr, DecidableEq

inductive Deposit where
  | queued (s : SubscriptionId)
  | delivered (t : Ticket)
  | unheard
  | parked
  | late
deriving Repr, DecidableEq

namespace Correlator

def maxParked : Nat := 1024

def maxAbandoned : Nat := 256

def park (c : Correlator) (k : CacheKey) (r : Response) : Correlator :=
  let kept := if maxParked ≤ c.parked.size then ⟨c.parked.entries.tail⟩ else c.parked
  { c with parked := kept.set k r }

def closeTicket (c : Correlator) (t : Ticket) : Correlator :=
  { c with mail := c.mail.modify t fun _ => .closed }

def dismiss (c : Correlator) : Correlator :=
  { c.waiting.values.foldl closeTicket c with waiting := {} }

def neither (v : Json.Value) : Failure :=
  .invalidMessage ("message has neither a request id nor a subscription method: " ++ v.compact)

def queue (c : Correlator) (s : SubscriptionId) : List Json.Value := (c.queues.get? s).getD []

def depositPush (c : Correlator) (v : Json.Value) : Except Failure Deposit × Correlator :=
  match Notification.ofValue v with
  | .error e => (.error (.deserialization (.mismatch e)), c)
  | .ok n =>
    let s := n.params.subscription
    (.ok (.queued s), { c with queues := c.queues.set s (c.queue s ++ [n.params.result]) })

def depositResponse (c : Correlator) (r : Response) : Except Failure Deposit × Correlator :=
  let k := r.id.key
  if k ∈ c.abandoned then (.ok .late, { c with abandoned := c.abandoned.erase k })
  else
    match c.waiting.get? k, c.parked.get? k with
    | some t, _ =>
      let d := { c with waiting := c.waiting.erase k }
      match c.mail.get? t with
      | some _ => (.ok (.delivered t), { d with mail := d.mail.set t (.filled r) })
      | none => (.ok .unheard, d)
    | none, some first => (.error (.duplicateResponseId first.id), c)
    | none, none => (.ok .parked, c.park k r)

/-- A message from the listener; `push` tells whether it is a notification. -/
def deposit (c : Correlator) (v : Json.Value) (push : Bool) : Except Failure Deposit × Correlator :=
  if push then c.depositPush v
  else
    match v.get? "id" with
    | none => (.error (neither v), c)
    | some _ =>
      match Response.ofValue v with
      | .error e => (.error (.deserialization (.mismatch e)), c)
      | .ok r => c.depositResponse r

def pop (c : Correlator) (k : CacheKey) : Option Response × Correlator :=
  match c.parked.get? k with
  | some r => (some r, { c with parked := c.parked.erase k })
  | none => (none, c)

/-- A claim to the response of a request; one that is parked is handed over at once. -/
def register (c : Correlator) (id : RequestId) : Except Failure Ticket × Correlator :=
  let k := id.key
  if (c.waiting.get? k).isSome then (.error (.duplicateRequestId id), c)
  else
    let t := c.nextTicket
    let c := { c with abandoned := c.abandoned.erase k, nextTicket := t + 1 }
    match c.parked.get? k with
    | some r => (.ok t, { c with parked := c.parked.erase k, mail := c.mail.set t (.filled r) })
    | none => (.ok t, { c with waiting := c.waiting.set k t, mail := c.mail.set t .empty })

def receive (c : Correlator) (t : Ticket) : Mailbox × Correlator :=
  match c.mail.get? t with
  | some (.filled r) => (.filled r, c.closeTicket t)
  | some m => (m, c)
  | none => (.closed, c)

def discard (c : Correlator) (t : Ticket) : Correlator := { c with mail := c.mail.erase t }

def forget (c : Correlator) (id : RequestId) : Correlator :=
  match c.waiting.get? id.key with
  | some t => { c.closeTicket t with waiting := c.waiting.erase id.key }
  | none => c

/-- Withdraws the claim under an identifier and remembers it: its response may still come. -/
def abandon (c : Correlator) (id : RequestId) : Correlator :=
  match c.waiting.get? id.key with
  | some t =>
    let kept := if maxAbandoned ≤ c.abandoned.length then c.abandoned.tail else c.abandoned
    { c.closeTicket t with waiting := c.waiting.erase id.key, abandoned := kept ++ [id.key] }
  | none => c

def clear (c : Correlator) : Correlator :=
  { c.dismiss with
    parked := {}, abandoned := [], queues := {}, fault := none, peerClosed := false
    epoch := c.epoch + 1 }

def fail (c : Correlator) (reason : String) : Correlator := { c.dismiss with fault := some reason }

def closeByPeer (c : Correlator) : Correlator := { c.dismiss with peerClosed := true }

def reopen (c : Correlator) : Correlator := { c with peerClosed := false }

def closedFailure (c : Correlator) : Failure :=
  match c.fault with
  | some reason => .listener reason
  | none => .connectionClosed

def openSubscription (c : Correlator) (s : SubscriptionId) : Correlator :=
  match c.queues.get? s with
  | some _ => c
  | none => { c with queues := c.queues.set s [] }

def removeSubscription (c : Correlator) (s : SubscriptionId) : List Json.Value × Correlator :=
  (c.queue s, { c with queues := c.queues.erase s })

def popSubscription (c : Correlator) (s : SubscriptionId) : Option Json.Value × Correlator :=
  match c.queue s with
  | v :: rest => (some v, { c with queues := c.queues.set s rest })
  | [] => (none, c)

/-- One look for a reader that began in a given epoch; nothing if it has to wait. -/
def nextNotification (c : Correlator) (s : SubscriptionId) (epoch : Nat) :
    Option (Except Failure Json.Value) × Correlator :=
  if c.epoch ≠ epoch then (some (.error .connectionClosed), c)
  else
    match c.popSubscription s with
    | (some v, d) => (some (.ok v), d)
    | (none, _) =>
      match c.fault with
      | some reason => (some (.error (.listener reason)), c)
      | none => (if c.peerClosed then some (.error .connectionClosed) else none, c)

def pending (c : Correlator) (s : SubscriptionId) : Nat := (c.queue s).length

def inFlight (c : Correlator) : Nat := c.waiting.size

def cached (c : Correlator) : Nat := c.parked.size

def isEmpty (c : Correlator) : Bool := c.inFlight = 0 && c.cached = 0 && c.queues.size = 0

end Correlator

end SocketRpc
