import SocketRpc.Proofs.Correlator

namespace SocketRpc.Correlator

abbrev ReaderId := Nat

structure Reader where
  subscription : SubscriptionId
  epoch : Nat
deriving Repr, DecidableEq

inductive Op where
  | deposit (v : Json.Value) (push : Bool)
  | pop (k : CacheKey)
  | register (id : RequestId)
  | receive (t : Ticket)
  | discard (t : Ticket)
  | forget (id : RequestId)
  | abandon (id : RequestId)
  | clear
  | fail (reason : String)
  | closeByPeer
  | reopen
  | openSubscription (s : SubscriptionId)
  | removeSubscription (s : SubscriptionId)
  | popSubscription (s : SubscriptionId)
  | read (s : SubscriptionId)
  | poll (n : ReaderId)
  | quit (n : ReaderId)
deriving Repr, DecidableEq

/-- An operation with what came of it, if that is more than a change of state. -/
inductive Entry where
  | deposited (v : Json.Value) (push : Bool) (r : Except Failure Deposit)
  | popped (k : CacheKey) (r : Option Response)
  | registered (id : RequestId) (r : Except Failure Ticket)
  | received (t : Ticket) (m : Mailbox)
  | removed (s : SubscriptionId) (vs : List Json.Value)
  | taken (s : SubscriptionId) (v : Option Json.Value)
  | read (n : ReaderId) (s : SubscriptionId) (r : Option (Except Failure Json.Value))
  | did (o : Op)
deriving Repr

structure Exchange where
  correlator : Correlator := {}
  readers : Table ReaderId Reader := {}
  nextReader : ReaderId := 0
  log : List Entry := []

namespace Exchange

def record (x : Exchange) (c : Correlator) (e : Entry) : Exchange :=
  { x with correlator := c, log := x.log ++ [e] }

def look (x : Exchange) (n : ReaderId) (rd : Reader) : Exchange :=
  match x.correlator.nextNotification rd.subscription rd.epoch with
  | (none, c) => { x with readers := x.readers.set n rd }.record c (.read n rd.subscription none)
  | (some r, c) => { x with readers := x.readers.erase n }.record c (.read n rd.subscription (some r))

def step (x : Exchange) : Op → Exchange
  | .deposit v push =>
    x.record (x.correlator.deposit v push).2 (.deposited v push (x.correlator.deposit v push).1)
  | .pop k => x.record (x.correlator.pop k).2 (.popped k (x.correlator.pop k).1)
  | .register id => x.record (x.correlator.register id).2 (.registered id (x.correlator.register id).1)
  | .receive t => x.record (x.correlator.receive t).2 (.received t (x.correlator.receive t).1)
  | .discard t => x.record (x.correlator.discard t) (.did (.discard t))
  | .forget id => x.record (x.correlator.forget id) (.did (.forget id))
  | .abandon id => x.record (x.correlator.abandon id) (.did (.abandon id))
  | .clear => x.record x.correlator.clear (.did .clear)
  | .fail reason => x.record (x.correlator.fail reason) (.did (.fail reason))
  | .closeByPeer => x.record x.correlator.closeByPeer (.did .closeByPeer)
  | .reopen => x.record x.correlator.reopen (.did .reopen)
  | .openSubscription s => x.record (x.correlator.openSubscription s) (.did (.openSubscription s))
  | .removeSubscription s =>
    x.record (x.correlator.removeSubscription s).2 (.removed s (x.correlator.removeSubscription s).1)
  | .popSubscription s =>
    x.record (x.correlator.popSubscription s).2 (.taken s (x.correlator.popSubscription s).1)
  | .read s => { x with nextReader := x.nextReader + 1 }.look x.nextReader ⟨s, x.correlator.epoch⟩
  | .poll n =>
    match x.readers.get? n with
    | some rd => x.look n rd
    | none => x.record x.correlator (.did (.poll n))
  | .quit n => { x with readers := x.readers.erase n }.record x.correlator (.did (.quit n))

def steps (x : Exchange) (os : List Op) : Exchange := os.foldl step x

def run (os : List Op) : Exchange := steps {} os

lemma steps_append (x : Exchange) (os os' : List Op) : x.steps (os ++ os') = (x.steps os).steps os' :=
  List.foldl_append

lemma run_snoc (os : List Op) (o : Op) : run (os ++ [o]) = (run os).step o := by
  rw [run, steps_append]
  rfl

variable {x : Exchange} {n : ReaderId} {rd : Reader}

lemma step_poll (h : x.readers.get? n = some rd) : x.step (.poll n) = x.look n rd := by
  rw [step, h]

lemma step_poll_none (h : x.readers.get? n = none) :
    x.step (.poll n) = x.record x.correlator (.did (.poll n)) := by
  rw [step, h]

end Exchange

end SocketRpc.Correlator
