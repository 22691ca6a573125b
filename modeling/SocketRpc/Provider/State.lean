import SocketRpc.Config
import SocketRpc.Correlator
import SocketRpc.Endpoint
import SocketRpc.Framing
import SocketRpc.Message.Request
import SocketRpc.Transport
/-!
The state of a provider: one connection behind a lock, the listeners it has started, and every call
in progress with the point at which it is suspended.
-/

namespace SocketRpc

inductive ConnectionState where
  | disconnected
  | connecting
  | connected
  | closing
  | failed
deriving Repr, DecidableEq

def ConnectionState.display : ConnectionState → String
  | disconnected => "disconnected"
  | connecting => "connecting"
  | connected => "connected"
  | closing => "closing"
  | failed => "failed"

abbrev SocketId := Nat
abbrev ListenerId := Nat
abbrev CallId := Nat

namespace Provider

inductive ListenerEnd where
  | released
  | cancelled
  | failed (e : Failure)
deriving Repr, DecidableEq

inductive ListenerPhase where
  | starting
  /-- gives way to others before the next read -/
  | resting
  | reading
  /-- the node closed its end; another socket may replace this one -/
  | orphaned
  | finished (r : ListenerEnd)
deriving Repr, DecidableEq

structure Listener where
  reader : SocketId
  framer : Framer := {}
  phase : ListenerPhase := .starting
  /-- a socket to read instead, handed over but not taken up -/
  replacement : Option SocketId := none
  /-- no further replacement can come -/
  released : Bool := false
  aborted : Bool := false
deriving Repr, DecidableEq

def Listener.isFinished (l : Listener) : Bool :=
  match l.phase with
  | .finished _ => true
  | _ => false

/-- The connection that the lock guards: the socket written to and the listener of its replies. -/
structure Connection where
  writer : SocketId
  listener : ListenerId
deriving Repr, DecidableEq

structure Lock where
  holder : Option CallId := none
  queue : List CallId := []
deriving Repr, DecidableEq

def Lock.ask (k : Lock) (c : CallId) : Lock :=
  match k.holder with
  | none => { k with holder := some c }
  | some _ => { k with queue := k.queue ++ [c] }

inductive ResultForm where
  | text
  | flag
  | natural
  | value
deriving Repr, DecidableEq

inductive Operation where
  | connect
  | ensureConnected
  | disconnect
  | isLive
  | send (r : Request)
  | request (method : String) (params : List Json.Value)
  | call (form : ResultForm) (method : String) (params : List Json.Value)
  | isConnected (verbose : Bool)
  | subscribe (kind : String) (params : List Json.Value)
  | unsubscribe (s : SubscriptionId)
  | nextNotification (s : SubscriptionId)
deriving Repr, DecidableEq

inductive Reply where
  | nothing
  | flag (b : Bool)
  | text (s : String)
  | natural (n : Nat)
  | value (v : Json.Value)
  | response (r : Response)
  | subscription (s : SubscriptionId)
deriving Repr, DecidableEq

/-- A request on its way and the claim to its response. -/
structure Dispatch where
  request : Request
  ticket : Ticket
deriving Repr, DecidableEq

/-- Why a socket is replaced under a running listener. -/
inductive ResetCause where
  | peerClosed
  | brokenPipe (first : Failure) (broken : first.isBrokenPipe = true)
deriving Repr, DecidableEq

inductive Errand where
  | connect
  | disconnect
  | isLive
  | ensureConnected
  | send (d : Dispatch)
deriving Repr, DecidableEq

inductive AfterTeardown where
  | connect
  | disconnect
deriving Repr, DecidableEq

/-- Where a call is suspended. -/
inductive Phase where
  | start
  | locking (e : Errand)
  /-- the socket of a connection that is taken down is being closed -/
  | closing (c : Connection) (next : AfterTeardown)
  /-- the listener of that connection has to end first -/
  | joining (l : ListenerId) (next : AfterTeardown)
  | opening (progress : Backoff.Progress)
  | pausing (wake : Nat) (progress : Backoff.Progress)
  | resetClosing (d : Dispatch) (cause : ResetCause)
  | resetOpening (d : Dispatch) (cause : ResetCause)
  /-- a new socket waits to be handed to the listener -/
  | handing (d : Dispatch) (cause : ResetCause) (reader : SocketId)
  | writing (d : Dispatch) (out : Outgoing) (after : Option ResetCause)
  | awaiting (d : Dispatch) (started : Nat)
  | reading (s : SubscriptionId) (epoch : Nat)
  | done (r : Except Failure Reply)
deriving Repr

def Phase.dispatch? : Phase → Option Dispatch
  | .locking (.send d) | .resetClosing d _ | .resetOpening d _ | .handing d _ _ | .writing d _ _
  | .awaiting d _ => some d
  | _ => none

structure Call where
  op : Operation
  phase : Phase := .start
deriving Repr

/-- What has happened, in order: changes that others may be waiting for, and the course of claims and
responses. -/
inductive Note where
  | answered (t : Ticket)
  | notified
  | granted (c : CallId)
  | spawned (l : ListenerId)
  | swapped (l : ListenerId)
  | aborted (l : ListenerId)
  | resumed (l : ListenerId)
  | ended (l : ListenerId)
  | published (s : ConnectionState)
  | claimed (c : CallId) (r : Request) (t : Ticket)
  | deposited (l : ListenerId) (v : Json.Value) (r : Except Failure Deposit)
  | settled (c : CallId) (r : Request) (res : Except Failure Response)
  | popped (k : CacheKey) (r : Option Response)
  | cleared
deriving Repr

end Provider

structure Provider where
  endpoint : Endpoint
  config : Config
  now : Nat := 0
  correlator : Correlator := {}
  state : ConnectionState := .disconnected
  slot : Option Provider.Connection := none
  lock : Provider.Lock := {}
  listeners : Table ListenerId Provider.Listener := {}
  calls : Table CallId Provider.Call := {}
  nextId : Nat := 1
  nextSocket : SocketId := 0
  nextListener : ListenerId := 0
  nextCall : CallId := 0
  notes : List Provider.Note := []

namespace Provider

def note (p : Provider) (n : Note) : Provider := { p with notes := p.notes ++ [n] }

def publish (p : Provider) (s : ConnectionState) : Provider := { p with state := s }.note (.published s)

def setPhase (p : Provider) (c : CallId) (ph : Phase) : Provider :=
  { p with calls := p.calls.modify c fun call => { call with phase := ph } }

def phaseOf (p : Provider) (c : CallId) : Option Phase := (p.calls.get? c).map Call.phase

def finish (p : Provider) (c : CallId) (r : Except Failure Reply) : Provider := p.setPhase c (.done r)

def setListener (p : Provider) (l : ListenerId) (f : Listener → Listener) : Provider :=
  { p with listeners := p.listeners.modify l f }

/-- An unknown listener counts as finished. -/
def isFinished (p : Provider) (l : ListenerId) : Bool := ((p.listeners.get? l).map Listener.isFinished).getD true

def usable (p : Provider) (c : Connection) : Bool := !p.isFinished c.listener && !p.correlator.peerClosed

def isLive (p : Provider) : Bool := (p.slot.map p.usable).getD false

/-- Runs a change that closes claims, and tells their holders and the readers of notifications. -/
def dismissing (p : Provider) (f : Correlator → Correlator) : Provider :=
  { p with
    correlator := f p.correlator
    notes := p.notes ++ p.correlator.waiting.values.map Note.answered ++ [.notified] }

/-- Runs a change that closes at most the claim under an identifier, and tells its holder. -/
def withdrawing (p : Provider) (id : RequestId) (f : Correlator → Correlator) : Provider :=
  { p with
    correlator := f p.correlator
    notes := p.notes ++ (p.correlator.waiting.get? id.key).toList.map Note.answered }

def release (p : Provider) : Provider :=
  match p.lock.queue with
  | [] => { p with lock := {} }
  | c :: rest => { p with lock := { holder := some c, queue := rest } }.note (.granted c)

end Provider

end SocketRpc
