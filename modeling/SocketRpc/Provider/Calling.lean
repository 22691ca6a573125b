import SocketRpc.Provider.Listening
/-!
The calls of a provider, each a sequence of waits: for the lock, for a socket to open, to close or to
take octets, for a response, for the listener to end.
-/

namespace SocketRpc.Provider

def livenessMethod : String := "web3_clientVersion"

def ResultForm.read (form : ResultForm) (v : Json.Value) : Except Failure Reply :=
  let r := match form with
    | .text => (Json.Decoder.text.ofValue v).map Reply.text
    | .flag => (Json.Decoder.bool.ofValue v).map Reply.flag
    | .natural => ((Config.word64 "u64").ofValue v).map Reply.natural
    | .value => .ok (.value v)
  r.mapError fun m => .deserialization (.mismatch m)

def resultOf (form : ResultForm) (r : Response) : Except Failure Reply := do
  form.read (← r.outcome.mapError .rpc)

def isTimeout : Failure → Bool
  | .timeout _ _ => true
  | _ => false

def probeFailure (p : Provider) (verbose : Bool) (e : Failure) : Except Failure Reply :=
  if e.isConnection || isTimeout e then
    if verbose then .error (.unreachable p.endpoint.address e) else .ok (.flag false)
  else .error e

def answer (p : Provider) (c : CallId) (r : Except Failure Response) : Provider :=
  match (p.calls.get? c).map Call.op with
  | some (.call form _ _) => p.finish c (r.bind (resultOf form))
  | some (.isConnected verbose) =>
    match r with
    | .ok _ => p.finish c (.ok (.flag true))
    | .error e => p.finish c (p.probeFailure verbose e)
  | some (.subscribe _ _) =>
    match r.bind (resultOf .text) with
    | .ok (.text s) =>
      { p with correlator := p.correlator.openSubscription ⟨s⟩ }.finish c (.ok (.subscription ⟨s⟩))
    | r => p.finish c r
  | some (.unsubscribe s) =>
    match r.bind (resultOf .flag) with
    | .ok removed =>
      { p with correlator := (p.correlator.removeSubscription s).2 }.finish c (.ok removed)
    | .error e => p.finish c (.error e)
  | _ => p.finish c (r.map .response)

def settle (p : Provider) (c : CallId) (q : Request) (r : Except Failure Response) : Provider :=
  (p.note (.settled c q r)).answer c r

def settleDispatch (p : Provider) (c : CallId) (d : Dispatch) (r : Except Failure Response) : Provider :=
  { p with correlator := p.correlator.discard d.ticket }.settle c d.request r

def askLock (p : Provider) (c : CallId) (e : Errand) : Provider :=
  { p with lock := p.lock.ask c }.setPhase c (.locking e)

def withLock (p : Provider) (c : CallId) (e : Errand) (act : Provider → Provider) : Provider :=
  match p.lock.holder with
  | none => act (p.askLock c e)
  | some _ => p.askLock c e

def releaseAndFinish (p : Provider) (c : CallId) (r : Except Failure Reply) : Provider :=
  p.release.finish c r

def beginConnect (p : Provider) (c : CallId) : Provider :=
  (p.publish .connecting).setPhase c (.opening p.config.backoff.start.begin)

def connectLocked (p : Provider) (c : CallId) : Provider :=
  match p.slot with
  | none => p.beginConnect c
  | some conn =>
    if p.usable conn then p.releaseAndFinish c (.ok .nothing)
    else { p with slot := none }.setPhase c (.closing conn .connect)

def disconnectLocked (p : Provider) (c : CallId) : Provider :=
  match p.slot with
  | none => p.releaseAndFinish c (.ok .nothing)
  | some conn => ({ p with slot := none }.publish .closing).setPhase c (.closing conn .disconnect)

def ensureLocked (p : Provider) (c : CallId) : Provider :=
  if p.isLive then p.releaseAndFinish c (.ok .nothing)
  else p.release.withLock c .connect fun p => p.connectLocked c

def failSend (p : Provider) (c : CallId) (d : Dispatch) (e : Failure) : Provider :=
  (p.release.withdrawing d.request.id (·.forget d.request.id)).settleDispatch c d (.error e)

def beginWrite (p : Provider) (c : CallId) (d : Dispatch) (after : Option ResetCause) : Provider :=
  p.setPhase c (.writing d (.ofText d.request.encode) after)

def sendLocked (p : Provider) (c : CallId) (d : Dispatch) : Provider :=
  match p.slot with
  | none => p.failSend c d .notConnected
  | some conn =>
    if p.isFinished conn.listener then p.failSend c d p.correlator.closedFailure
    else if p.correlator.peerClosed then p.setPhase c (.resetClosing d .peerClosed)
    else p.beginWrite c d none

def perform (p : Provider) (c : CallId) : Errand → Provider
  | .connect => p.connectLocked c
  | .disconnect => p.disconnectLocked c
  | .isLive => p.releaseAndFinish c (.ok (.flag p.isLive))
  | .ensureConnected => p.ensureLocked c
  | .send d => p.sendLocked c d

def run (p : Provider) (c : CallId) (e : Errand) : Provider := p.withLock c e fun p => p.perform c e

def tornDown (p : Provider) (c : CallId) (next : AfterTeardown) : Provider :=
  let p := (p.dismissing Correlator.clear).note .cleared
  match next with
  | .connect => p.beginConnect c
  | .disconnect => (p.publish .disconnected).releaseAndFinish c (.ok .nothing)

def join (p : Provider) (c : CallId) (l : ListenerId) (next : AfterTeardown) : Provider :=
  if p.isFinished l then p.tornDown c next else p

/-- A socket has been closed, it does not matter how well. -/
def closed (p : Provider) (c : CallId) : Provider :=
  match p.phaseOf c with
  | some (.closing conn next) =>
    (((p.letGo conn.listener).abortListener conn.listener).setPhase c
      (.joining conn.listener next)).join c conn.listener next
  | some (.resetClosing d cause) => p.setPhase c (.resetOpening d cause)
  | _ => p

def resetFailed (p : Provider) (c : CallId) (d : Dispatch) (cause : ResetCause) (e : Failure) : Provider :=
  match cause with
  | .peerClosed => p.failSend c d e
  | .brokenPipe first _ => p.failSend c d first

def hand (p : Provider) (c : CallId) (d : Dispatch) (cause : ResetCause) (s : SocketId) : Provider :=
  match p.slot with
  | none => p.resetFailed c d cause p.correlator.closedFailure
  | some conn =>
    if p.isFinished conn.listener then p.resetFailed c d cause p.correlator.closedFailure
    else
      match (p.listeners.get? conn.listener).bind Listener.replacement with
      | some _ => p
      | none =>
        let p := (p.setListener conn.listener fun li => { li with replacement := some s }).note
          (.swapped conn.listener)
        { p with correlator := p.correlator.reopen }.beginWrite c d (some cause)

def takeSocket (p : Provider) : SocketId × Provider := (p.nextSocket, { p with nextSocket := p.nextSocket + 1 })

def opened (p : Provider) (c : CallId) (r : Except Failure Unit) : Provider :=
  match p.phaseOf c, r with
  | some (.opening _), .ok _ =>
    let (s, p) := p.takeSocket
    ((p.spawn s).publish .connected).releaseAndFinish c (.ok .nothing)
  | some (.opening progress), .error e =>
    match progress.nextDelay with
    | some delay => p.setPhase c (.pausing (p.now + delay.millisUp) progress)
    | none =>
      (p.publish .failed).releaseAndFinish c
        (.error (.connectionFailed p.endpoint.address progress.attempt e.message))
  | some (.resetOpening d cause), .ok _ =>
    let (s, p) := p.takeSocket
    ({ p with slot := p.slot.map fun (conn : Connection) => { conn with writer := s } }.setPhase c
      (.handing d cause s)).hand c d cause s
  | some (.resetOpening d cause), .error e => p.resetFailed c d cause e
  | _, _ => p

def await (p : Provider) (c : CallId) (d : Dispatch) (started : Nat) : Provider :=
  match p.correlator.receive d.ticket with
  | (.filled r, k) => { p with correlator := k }.settleDispatch c d (.ok r)
  | (.closed, _) => p.settleDispatch c d (.error p.correlator.closedFailure)
  | (.empty, _) =>
    if started + p.config.requestTimeoutMs ≤ p.now then
      (p.withdrawing d.request.id (·.abandon d.request.id)).settleDispatch c d
        (.error (.timeout d.request.id (.ofMillis (p.now - started))))
    else p

/-- After a reset the claim may have been closed with the old socket; then it is made anew. -/
def awaitAfterReset (p : Provider) (c : CallId) (d : Dispatch) : Provider :=
  match p.correlator.receive d.ticket with
  | (.closed, _) =>
    match p.correlator.register d.request.id with
    | (.ok t, k) =>
      (({ p with correlator := k.discard d.ticket }.note (.claimed c d.request t)).setPhase c
        (.awaiting { d with ticket := t } p.now)).await c { d with ticket := t } p.now
    | (.error e, k) => { p with correlator := k }.settleDispatch c d (.error e)
  | _ => p.await c d p.now

def sink (p : Provider) (c : CallId) (a : SinkAnswer) : Provider :=
  match p.phaseOf c with
  | some (.writing d out after) =>
    match out.step a with
    | .more out => p.setPhase c (.writing d out after)
    | .done (.ok _) =>
      let p := p.release.setPhase c (.awaiting d p.now)
      if after.isSome then p.awaitAfterReset c d else p.await c d p.now
    | .done (.error e) =>
      if h : after.isNone ∧ e.isBrokenPipe then p.setPhase c (.resetClosing d (.brokenPipe e h.2))
      else p.failSend c d e
  | _ => p

def beginSend (p : Provider) (c : CallId) (r : Request) : Provider :=
  match p.correlator.register r.id with
  | (.error e, k) => { p with correlator := k }.settle c r (.error e)
  | (.ok t, k) =>
    ({ p with correlator := k }.note (.claimed c r t)).run c (.send { request := r, ticket := t })

def beginRequest (p : Provider) (c : CallId) (method : String) (params : List Json.Value) : Provider :=
  { p with nextId := (p.nextId + 1) % RequestId.limit }.beginSend c
    { method, params, id := .number p.nextId }

def readNotification (p : Provider) (c : CallId) (s : SubscriptionId) (epoch : Nat) : Provider :=
  match p.correlator.nextNotification s epoch with
  | (some r, k) => { p with correlator := k }.finish c (r.map .value)
  | (none, _) => p.setPhase c (.reading s epoch)

def begin (p : Provider) (c : CallId) : Operation → Provider
  | .connect => p.run c .connect
  | .ensureConnected => p.run c .ensureConnected
  | .disconnect => p.run c .disconnect
  | .isLive => p.run c .isLive
  | .send r => p.beginSend c r
  | .request method params | .call _ method params => p.beginRequest c method params
  | .isConnected _ => p.beginRequest c livenessMethod []
  | .subscribe kind params => p.beginRequest c "eth_subscribe" (.text kind :: params)
  | .unsubscribe s => p.beginRequest c "eth_unsubscribe" [.text s.text]
  | .nextNotification s => p.readNotification c s p.correlator.epoch

/-- Lets a call run up to its next wait, as far as it does not depend on a socket. -/
def turn (p : Provider) (c : CallId) : Provider :=
  match p.calls.get? c with
  | none => p
  | some call =>
    match call.phase with
    | .start => p.begin c call.op
    | .locking e => if p.lock.holder = some c then p.perform c e else p
    | .joining l next => p.join c l next
    | .pausing wake progress =>
      if wake ≤ p.now then p.setPhase c (.opening progress.begin) else p
    | .handing d cause s => p.hand c d cause s
    | .awaiting d started => p.await c d started
    | .reading s epoch => p.readNotification c s epoch
    | _ => p

def giveBack (p : Provider) (ph : Phase) : Provider :=
  match ph.dispatch?, ph with
  | some d, _ => { p with correlator := p.correlator.discard d.ticket }
  | none, .closing conn _ => p.letGo conn.listener
  | none, _ => p

/-- A call lets go of the lock, or of its place in line. -/
def unlock (p : Provider) (c : CallId) : Provider :=
  if p.lock.holder = some c then p.release
  else { p with lock := { p.lock with queue := p.lock.queue.filter (· ≠ c) } }

def drop (p : Provider) (c : CallId) : Provider :=
  match p.phaseOf c with
  | none => p
  | some ph =>
    let p := p.giveBack ph
    { p with calls := p.calls.erase c }.unlock c

end SocketRpc.Provider
