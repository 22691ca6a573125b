import SocketRpc.Proofs.Listener.Cuts
import Mathlib.Logic.Relation

/-!
The steps of a provider taken apart: each is a chain of moves of one call or one listener, the last of
which may close the claims of all callers.
-/

namespace SocketRpc.Provider

open Relation (ReflTransGen)

def Operation.errand? : Operation → Option Errand
  | .connect => some .connect
  | .ensureConnected => some .ensureConnected
  | .disconnect => some .disconnect
  | .isLive => some .isLive
  | _ => none

def generated (p : Provider) (method : String) (params : List Json.Value) : Request × Nat :=
  ({ method, params, id := .number p.nextId }, (p.nextId + 1) % RequestId.limit)

def draw (p : Provider) : Operation → Option (Request × Nat)
  | .send r => some (r, p.nextId)
  | .request method params | .call _ method params => some (p.generated method params)
  | .isConnected _ => some (p.generated livenessMethod [])
  | .subscribe kind params => some (p.generated "eth_subscribe" (.text kind :: params))
  | .unsubscribe s => some (p.generated "eth_unsubscribe" [.text s.text])
  | _ => none

def Holds (p : Provider) (c : CallId) (e : Errand) : Prop :=
  p.phaseOf c = some (.locking e) ∧ p.lock.holder = some c

def Reads (p : Provider) (l : ListenerId) : Prop :=
  ∃ li, p.listeners.get? l = some li ∧ li.Attentive

def ResetCause.report : ResetCause → Failure → Failure
  | .peerClosed, e => e
  | .brokenPipe first _, _ => first

/-- Why a request is not written; sockets may report the failures in `F`. -/
inductive GivesUp (F : Failure → Prop) (p : Provider) (c : CallId) : Dispatch → Failure → Prop where
  | unconnected {d : Dispatch} (h : p.Holds c (.send d)) (hs : p.slot = none) :
      GivesUp F p c d .notConnected
  | ended {d : Dispatch} {conn : Connection} (h : p.Holds c (.send d)) (hs : p.slot = some conn)
      (hf : p.isFinished conn.listener = true) : GivesUp F p c d p.correlator.closedFailure
  | unopened {d : Dispatch} {cause : ResetCause} (h : p.phaseOf c = some (.resetOpening d cause))
      {f : Failure} (hf : F f) : GivesUp F p c d (cause.report f)
  | unheard {d : Dispatch} {cause : ResetCause} {s : SocketId}
      (h : p.phaseOf c = some (.handing d cause s))
      (hf : ∀ conn, p.slot = some conn → p.isFinished conn.listener = true) :
      GivesUp F p c d (cause.report p.correlator.closedFailure)
  | unwritten {d : Dispatch} {out : Outgoing} {after : Option ResetCause} {f : Failure}
      (h : p.phaseOf c = some (.writing d out after)) (hf : F f ∨ f = .io ⟨.writeZero, none⟩) :
      GivesUp F p c d f

/-- A move of one call, or of none, that closes no claim but that of the call, or one of the same
identifier. -/
inductive Calm (F : Failure → Prop) (p : Provider) : Option CallId → Provider → Prop where
  /- the beginning and the end of calls -/
  | call (op : Operation) : Calm F p (some p.nextCall) (p.newCall op)
  | seek {c : CallId} {e : Errand} {op : Operation} (h : p.calls.get? c = some { op, phase := .start })
      (he : op.errand? = some e) : Calm F p (some c) (p.askLock c e)
  | refuse {c : CallId} {op : Operation} {r : Request} {n : Nat} {f : Failure} {k : Correlator}
      (h : p.calls.get? c = some { op, phase := .start }) (hd : p.draw op = some (r, n))
      (hr : p.correlator.register r.id = (.error f, k)) :
      Calm F p (some c) ({ p with nextId := n, correlator := k }.settle c r (.error f))
  | claim {c : CallId} {op : Operation} {r : Request} {n : Nat} {t : Ticket} {k : Correlator}
      (h : p.calls.get? c = some { op, phase := .start }) (hd : p.draw op = some (r, n))
      (hr : p.correlator.register r.id = (.ok t, k)) :
      Calm F p (some c) (({ p with nextId := n, correlator := k }.note (.claimed c r t)).askLock c
        (.send { request := r, ticket := t }))
  | collect {c : CallId} {r : Except Failure Reply} (h : p.phaseOf c = some (.done r)) :
      Calm F p (some c) { p with calls := p.calls.erase c }
  | drop {c : CallId} {ph : Phase} (h : p.phaseOf c = some ph) : Calm F p (some c) (p.drop c)
  /- notifications -/
  | read {c : CallId} {s : SubscriptionId} {epoch : Nat}
      (h : p.calls.get? c = some { op := .nextNotification s, phase := .start } ∧
        epoch = p.correlator.epoch ∨ p.phaseOf c = some (.reading s epoch)) :
      Calm F p (some c) (p.readNotification c s epoch)
  | take (s : SubscriptionId) : Calm F p none { p with correlator := (p.correlator.popSubscription s).2 }
  /- under the lock -/
  | leave {c : CallId} {e : Errand} (h : p.Holds c e) (he : ∀ d, e ≠ .send d) (r : Except Failure Reply) :
      Calm F p (some c) (p.releaseAndFinish c r)
  | yield {c : CallId} (h : p.Holds c .ensureConnected) : Calm F p (some c) (p.release.askLock c .connect)
  | attempt {c : CallId} (h : p.Holds c .connect) (hs : p.slot = none) : Calm F p (some c) (p.beginConnect c)
  | replace {c : CallId} {conn : Connection} (h : p.Holds c .connect) (hs : p.slot = some conn)
      (hu : p.usable conn = false) :
      Calm F p (some c) ({ p with slot := none }.setPhase c (.closing conn .connect))
  | disconnect {c : CallId} {conn : Connection} (h : p.Holds c .disconnect) (hs : p.slot = some conn) :
      Calm F p (some c) (({ p with slot := none }.publish .closing).setPhase c (.closing conn .disconnect))
  | giveUp {c : CallId} {d : Dispatch} {f : Failure} (h : p.GivesUp F c d f) :
      Calm F p (some c) (p.failSend c d f)
  | reset {c : CallId} {d : Dispatch} {conn : Connection} (h : p.Holds c (.send d)) (hs : p.slot = some conn)
      (hf : p.isFinished conn.listener = false) (hc : p.correlator.peerClosed = true) :
      Calm F p (some c) (p.setPhase c (.resetClosing d .peerClosed))
  | write {c : CallId} {d : Dispatch} {conn : Connection} (h : p.Holds c (.send d)) (hs : p.slot = some conn)
      (hf : p.isFinished conn.listener = false) (hc : p.correlator.peerClosed = false) :
      Calm F p (some c) (p.beginWrite c d none)
  | letGo {c : CallId} {conn : Connection} {next : AfterTeardown}
      (h : p.phaseOf c = some (.closing conn next)) :
      Calm F p (some c) (((p.letGo conn.listener).abortListener conn.listener).setPhase c
        (.joining conn.listener next))
  /- opening a socket -/
  | connect {c : CallId} {t : Backoff.Progress} (h : p.phaseOf c = some (.opening t)) :
      Calm F p (some c) (((p.takeSocket.2.spawn p.takeSocket.1).publish .connected).releaseAndFinish c
        (.ok .nothing))
  | pause {c : CallId} {t : Backoff.Progress} {delay : Duration} (h : p.phaseOf c = some (.opening t))
      (hd : t.nextDelay = some delay) : Calm F p (some c) (p.setPhase c (.pausing (p.now + delay.millisUp) t))
  | exhaust {c : CallId} {t : Backoff.Progress} (h : p.phaseOf c = some (.opening t))
      (hd : t.nextDelay = none)
      (f : Failure) :
      Calm F p (some c) ((p.publish .failed).releaseAndFinish c
        (.error (.connectionFailed p.endpoint.address t.attempt f.message)))
  | retry {c : CallId} {wake : Nat} {t : Backoff.Progress} (h : p.phaseOf c = some (.pausing wake t))
      (hw : wake ≤ p.now) : Calm F p (some c) (p.setPhase c (.opening t.begin))
  /- replacing a socket -/
  | resetClosed {c : CallId} {d : Dispatch} {cause : ResetCause}
      (h : p.phaseOf c = some (.resetClosing d cause)) :
      Calm F p (some c) (p.setPhase c (.resetOpening d cause))
  | resetOpened {c : CallId} {d : Dispatch} {cause : ResetCause}
      (h : p.phaseOf c = some (.resetOpening d cause)) :
      Calm F p (some c) ({ p.takeSocket.2 with
        slot := p.slot.map fun (conn : Connection) => { conn with writer := p.nextSocket } }.setPhase c
          (.handing d cause p.nextSocket))
  | hand {c : CallId} {d : Dispatch} {cause : ResetCause} {s : SocketId} {conn : Connection}
      (h : p.phaseOf c = some (.handing d cause s)) (hs : p.slot = some conn)
      (hf : p.isFinished conn.listener = false)
      (hr : (p.listeners.get? conn.listener).bind Listener.replacement = none) :
      Calm F p (some c) ({ (p.setListener conn.listener fun li => { li with replacement := some s }).note
          (.swapped conn.listener) with
        correlator := p.correlator.reopen }.beginWrite c d (some cause))
  /- writing and waiting -/
  | progress {c : CallId} {d : Dispatch} {out : Outgoing} {after : Option ResetCause} (o : Outgoing)
      (h : p.phaseOf c = some (.writing d out after)) : Calm F p (some c) (p.setPhase c (.writing d o after))
  | breakPipe {c : CallId} {d : Dispatch} {out : Outgoing} {f : Failure}
      (h : p.phaseOf c = some (.writing d out none)) (hf : f.isBrokenPipe = true) :
      Calm F p (some c) (p.setPhase c (.resetClosing d (.brokenPipe f hf)))
  | written {c : CallId} {d : Dispatch} {out : Outgoing} {after : Option ResetCause}
      (h : p.phaseOf c = some (.writing d out after)) :
      Calm F p (some c) (p.release.setPhase c (.awaiting d p.now))
  | reclaim {c : CallId} {d : Dispatch} {started : Nat} {t : Ticket} {k : Correlator}
      (h : p.phaseOf c = some (.awaiting d started))
      (hm : (p.correlator.receive d.ticket).1 = .closed)
      (hr : p.correlator.register d.request.id = (.ok t, k)) :
      Calm F p (some c)
        ((({ p with correlator := k.discard d.ticket }).note (.claimed c d.request t)).setPhase c
        (.awaiting { d with ticket := t } p.now))
  | reclaimRefused {c : CallId} {d : Dispatch} {started : Nat} {f : Failure} {k : Correlator}
      (h : p.phaseOf c = some (.awaiting d started))
      (hm : (p.correlator.receive d.ticket).1 = .closed)
      (hr : p.correlator.register d.request.id = (.error f, k)) :
      Calm F p (some c) ({ p with correlator := k }.settleDispatch c d (.error f))
  | receive {c : CallId} {d : Dispatch} {started : Nat} {r : Response} {k : Correlator}
      (h : p.phaseOf c = some (.awaiting d started))
      (hm : p.correlator.receive d.ticket = (.filled r, k)) :
      Calm F p (some c) ({ p with correlator := k }.settleDispatch c d (.ok r))
  | closedOut {c : CallId} {d : Dispatch} {started : Nat} (h : p.phaseOf c = some (.awaiting d started))
      (hm : (p.correlator.receive d.ticket).1 = .closed) :
      Calm F p (some c) (p.settleDispatch c d (.error p.correlator.closedFailure))
  | timeOut {c : CallId} {d : Dispatch} {started : Nat} (h : p.phaseOf c = some (.awaiting d started))
      (hm : (p.correlator.receive d.ticket).1 = .empty)
      (ht : started + p.config.requestTimeoutMs ≤ p.now) :
      Calm F p (some c) ((p.withdrawing d.request.id (·.abandon d.request.id)).settleDispatch c d
        (.error (.timeout d.request.id (.ofMillis (p.now - started)))))
  /- from outside -/
  | pop (k : CacheKey) :
      Calm F p none ({ p with correlator := (p.correlator.pop k).2 }.note (.popped k (p.correlator.pop k).1))
  | elapse (ms : Nat) : Calm F p none { p with now := p.now + ms }
  /- listeners -/
  | deposit {l : ListenerId} (h : p.Reads l) (v : Json.Value) : Calm F p none (p.leave l v).2
  | work {l : ListenerId} {li : Listener} (h : p.listeners.get? l = some li)
      (hf : li.isFinished = false) (f : Framer)
      (ph : ListenerPhase) (hp : ∀ r, ph ≠ .finished r) :
      Calm F p none (p.setListener l fun li => { li with framer := f, phase := ph })
  | resume {l : ListenerId} {li : Listener} {s : SocketId} (h : p.listeners.get? l = some li)
      (hf : li.isFinished = false) (ha : li.aborted = false) (hs : li.replacement = some s) :
      Calm F p none (p.resume l s)
  | retire {l : ListenerId} {li : Listener} {r : ListenerEnd} (h : p.listeners.get? l = some li)
      (hf : li.isFinished = false) (ha : li.aborted = true ∨ li.released = true) :
      Calm F p none (p.endListener l r)

abbrev Calms (F : Failure → Prop) (a : Option CallId) : Provider → Provider → Prop :=
  ReflTransGen (Calm F · a ·)

/-- A move that closes all claims at once. -/
inductive Upheaval (p : Provider) : Provider → Prop where
  | tear {c : CallId} {l : ListenerId} {next : AfterTeardown} (h : p.phaseOf c = some (.joining l next))
      (hf : p.isFinished l = true) : Upheaval p (p.tornDown c next)
  | orphan {l : ListenerId} (h : p.Reads l) : Upheaval p (p.orphan l)
  | fail {l : ListenerId} (h : p.Reads l) (hs : p.config.policy = .strict) (f : Failure) :
      Upheaval p (p.fault l f)

variable {F : Failure → Prop} {p q : Provider} {c : CallId} {l : ListenerId} {e : Errand}

lemma phaseOf_setPhase (p : Provider) (c d : CallId) (ph : Phase) :
    (p.setPhase c ph).phaseOf d = if c = d then (p.phaseOf d).map fun _ => ph else p.phaseOf d := by
  simp only [phaseOf, setPhase, Table.get?_modify]
  split
  · rw [Option.map_map, Option.map_map]
    rfl
  · rfl

lemma phaseOf_setPhase_self {ph ph' : Phase} (h : p.phaseOf c = some ph) :
    (p.setPhase c ph').phaseOf c = some ph' := by
  rw [phaseOf_setPhase, if_pos rfl, h]
  rfl

lemma eq_of_setPhase {ph ph' : Phase} (h : (p.setPhase c ph).phaseOf c = some ph') : ph' = ph := by
  rw [phaseOf_setPhase, if_pos rfl] at h
  obtain ⟨_, -, rfl⟩ := Option.map_eq_some_iff.mp h
  rfl

lemma release_eq (p : Provider) :
    ∃ k ns, p.release = { p with lock := k, notes := p.notes ++ ns } := by
  rw [release]
  split
  · exact ⟨{}, [], by rw [List.append_nil]⟩
  · exact ⟨_, _, rfl⟩

@[simp] lemma now_release (p : Provider) : p.release.now = p.now := by
  obtain ⟨k, ns, h⟩ := release_eq p
  rw [h]

@[simp] lemma correlator_release (p : Provider) : p.release.correlator = p.correlator := by
  obtain ⟨k, ns, h⟩ := release_eq p
  rw [h]

@[simp] lemma slot_release (p : Provider) : p.release.slot = p.slot := by
  obtain ⟨k, ns, h⟩ := release_eq p
  rw [h]

@[simp] lemma listeners_release (p : Provider) : p.release.listeners = p.listeners := by
  obtain ⟨k, ns, h⟩ := release_eq p
  rw [h]

@[simp] lemma calls_release (p : Provider) : p.release.calls = p.calls := by
  obtain ⟨k, ns, h⟩ := release_eq p
  rw [h]

lemma phaseOf_release (p : Provider) (c : CallId) : p.release.phaseOf c = p.phaseOf c := by
  simp only [phaseOf, calls_release]

lemma holds_askLock {ph : Phase} (h : p.phaseOf c = some ph) (hl : p.lock.holder = none) :
    (p.askLock c e).Holds c e := by
  refine ⟨phaseOf_setPhase_self (p := { p with lock := p.lock.ask c }) h, ?_⟩
  simp [askLock, setPhase, Lock.ask, hl]

lemma calms_connectLocked (h : p.Holds c .connect) : Calms F (some c) p (p.connectLocked c) := by
  rw [connectLocked]
  split
  · exact .single (.attempt h ‹_›)
  · split
    · exact .single (.leave h (by simp) _)
    · exact .single (.replace h ‹_› (Bool.eq_false_iff.mpr ‹_›))

lemma calms_disconnectLocked (h : p.Holds c .disconnect) :
    Calms F (some c) p (p.disconnectLocked c) := by
  rw [disconnectLocked]
  split
  · exact .single (.leave h (by simp) _)
  · exact .single (.disconnect h ‹_›)

lemma calms_withLock {ph : Phase} (h : p.phaseOf c = some ph) {act : Provider → Provider}
    (ha : ∀ q : Provider, q.Holds c e → Calms F (some c) q (act q)) :
    Calms F (some c) (p.askLock c e) (p.withLock c e act) := by
  rw [withLock]
  split
  · exact ha _ (holds_askLock h ‹_›)
  · exact .refl

lemma calms_ensureLocked (h : p.Holds c .ensureConnected) :
    Calms F (some c) p (p.ensureLocked c) := by
  rw [ensureLocked]
  split
  · exact .single (.leave h (by simp) _)
  · exact .head (.yield h) (calms_withLock (by rw [phaseOf_release, h.1])
      fun q hq => calms_connectLocked hq)

lemma calms_sendLocked {d : Dispatch} (h : p.Holds c (.send d)) :
    Calms F (some c) p (p.sendLocked c d) := by
  rw [sendLocked]
  split
  · exact .single (.giveUp (.unconnected h ‹_›))
  · split
    · exact .single (.giveUp (.ended h ‹_› ‹_›))
    · split
      · exact .single (.reset h ‹_› (Bool.eq_false_iff.mpr ‹_›) ‹_›)
      · exact .single (.write h ‹_› (Bool.eq_false_iff.mpr ‹_›)
          (Bool.eq_false_iff.mpr ‹_›))

lemma calms_perform (h : p.Holds c e) : Calms F (some c) p (p.perform c e) := by
  cases e with
  | connect => exact calms_connectLocked h
  | disconnect => exact calms_disconnectLocked h
  | isLive => exact .single (.leave h (by simp) _)
  | ensureConnected => exact calms_ensureLocked h
  | send d => exact calms_sendLocked h

lemma calms_run {ph : Phase} (h : p.phaseOf c = some ph) :
    Calms F (some c) (p.askLock c e) (p.run c e) :=
  calms_withLock h fun _ hq => calms_perform hq

lemma calms_await {d : Dispatch} {started : Nat} (h : p.phaseOf c = some (.awaiting d started)) :
    Calms F (some c) p (p.await c d started) := by
  rw [await]
  split
  · exact .single (.receive h ‹_›)
  · rename_i hm
    exact .single (.closedOut h (by rw [hm]))
  · rename_i hm
    split
    · exact .single (.timeOut h (by rw [hm]) ‹_›)
    · exact .refl

lemma calms_awaitAfterReset {d : Dispatch} (h : p.phaseOf c = some (.awaiting d p.now)) :
    Calms F (some c) p (p.awaitAfterReset c d) := by
  rw [awaitAfterReset]
  split
  · rename_i hm
    split
    · rename_i hr
      refine .head (.reclaim h (by rw [hm]) hr) (calms_await ?_)
      exact phaseOf_setPhase_self (p := ({ p with correlator := _ }).note _) h
    · rename_i hr
      exact .single (.reclaimRefused h (by rw [hm]) hr)
  · exact calms_await h

lemma resetFailed_eq (p : Provider) (c : CallId) (d : Dispatch) (cause : ResetCause) (f : Failure) :
    p.resetFailed c d cause f = p.failSend c d (cause.report f) := by
  cases cause <;> rfl

lemma calms_hand {d : Dispatch} {cause : ResetCause} {s : SocketId}
    (h : p.phaseOf c = some (.handing d cause s)) : Calms F (some c) p (p.hand c d cause s) := by
  rw [hand]
  split
  · rename_i hs
    rw [resetFailed_eq]
    exact .single (.giveUp (.unheard h fun conn hn => by cases hs.symm.trans hn))
  · rename_i hs
    split
    · rename_i hf
      rw [resetFailed_eq]
      exact .single (.giveUp (.unheard h fun other hn => by cases hs.symm.trans hn; exact hf))
    · split
      · exact .refl
      · exact .single (.hand h ‹_› (Bool.eq_false_iff.mpr ‹_›) ‹_›)

lemma calms_opened (p : Provider) (c : CallId) (r : Except Failure Unit)
    (hf : ∀ f, r = .error f → F f) : Calms F (some c) p (p.opened c r) := by
  simp only [opened]
  split
  · exact .single (.connect ‹_›)
  · split
    · exact .single (.pause ‹_› ‹_›)
    · exact .single (.exhaust ‹_› ‹_› _)
  · rename_i d cause _ h
    refine .head (.resetOpened h) (calms_hand ?_)
    exact phaseOf_setPhase_self (p := { p.takeSocket.2 with slot := _ }) h
  · rw [resetFailed_eq]
    exact .single (.giveUp (.unopened ‹_› (hf _ rfl)))
  · exact .refl

lemma step_failure {out : Outgoing} {a : SinkAnswer} {f : Failure} (h : out.step a = .done (.error f)) :
    a = .failure f ∨ f = .io ⟨.writeZero, none⟩ := by
  cases a <;> simp only [Outgoing.step] at h
  · split at h
    · cases h
    · split at h <;> cases h
      exact Or.inr rfl
  · cases h
    exact Or.inl rfl
  · split at h <;> cases h

lemma calms_sink (p : Provider) (c : CallId) (a : SinkAnswer) (hf : ∀ f, a = .failure f → F f) :
    Calms F (some c) p (p.sink c a) := by
  rw [sink]
  split
  · rename_i d out after h
    split
    · exact .single (.progress _ h)
    · have hw : (p.release.setPhase c (.awaiting d p.now)).phaseOf c =
          some (.awaiting d (p.release.setPhase c (.awaiting d p.now)).now) := by
        rw [phaseOf_setPhase_self (by rw [phaseOf_release, h])]
        exact congrArg (fun n => some (Phase.awaiting d n)) (now_release p).symm
      refine .head (.written h) ?_
      dsimp only
      split
      · exact calms_awaitAfterReset hw
      · exact calms_await hw
    · split
      · rename_i hb
        cases after with
        | none => exact .single (.breakPipe h hb.2)
        | some cause => simp at hb
      · rename_i hs _
        exact .single (.giveUp (.unwritten h ((step_failure hs).imp_left (hf _))))
  · exact .refl

lemma draw_of_errand_none {op : Operation} (h : op.errand? = none) :
    (∃ r n, p.draw op = some (r, n) ∧ p.begin c op = { p with nextId := n }.beginSend c r) ∨
      ∃ s, op = .nextNotification s := by
  cases op <;> first | exact Or.inl ⟨_, _, rfl, rfl⟩ | exact Or.inr ⟨_, rfl⟩ | cases h

lemma begin_of_errand {op : Operation} (h : op.errand? = some e) : p.begin c op = p.run c e := by
  cases op <;> cases h <;> rfl

lemma calms_begin {op : Operation} (h : p.calls.get? c = some { op, phase := .start }) :
    Calms F (some c) p (p.begin c op) := by
  have hph : p.phaseOf c = some .start := by simp [phaseOf, h]
  cases he : op.errand? with
  | some e =>
    rw [begin_of_errand he]
    exact .head (.seek h he) (calms_run hph)
  | none =>
    obtain ⟨r, n, hd, hb⟩ | ⟨s, rfl⟩ := draw_of_errand_none (p := p) (c := c) he
    · rw [hb, beginSend]
      split
      · exact .single (.refuse h hd ‹_›)
      · exact .head (.claim h hd ‹_›) (calms_run hph)
    · exact .single (.read (Or.inl ⟨h, rfl⟩))

def TearsDown (p : Provider) (c : CallId) (q : Provider) : Prop :=
  ∃ l next, p.phaseOf c = some (.joining l next) ∧ p.isFinished l = true ∧ q = p.tornDown c next

lemma TearsDown.upheaval (h : p.TearsDown c q) : Upheaval p q := by
  obtain ⟨l, next, hp, hf, rfl⟩ := h
  exact .tear hp hf

lemma get?_setPhase (p : Provider) {b : CallId} (hb : c ≠ b) (ph : Phase) :
    (p.setPhase c ph).calls.get? b = p.calls.get? b := by
  rw [setPhase, Table.get?_modify, if_neg hb]

lemma TearsDown.others (h : p.TearsDown c q) {b : CallId} (hb : c ≠ b) : q.calls.get? b = p.calls.get? b := by
  obtain ⟨l, next, -, -, rfl⟩ := h
  cases next with
  | connect => exact get?_setPhase _ hb _
  | disconnect => exact (get?_setPhase _ hb _).trans (by rw [calls_release]; rfl)

lemma turn_moves (p : Provider) (c : CallId) :
    Calms F (some c) p (p.turn c) ∨ p.TearsDown c (p.turn c) := by
  rw [turn]
  split
  · exact Or.inl .refl
  · rename_i call hc
    have hph : p.phaseOf c = some call.phase := by simp [phaseOf, hc]
    obtain ⟨op, ph⟩ := call
    cases ph with
    | start => exact Or.inl (calms_begin hc)
    | locking e =>
      dsimp only
      split
      · exact Or.inl (calms_perform ⟨hph, ‹_›⟩)
      · exact Or.inl .refl
    | joining l next =>
      dsimp only [join]
      split
      · exact Or.inr ⟨l, next, hph, ‹_›, rfl⟩
      · exact Or.inl .refl
    | pausing wake t =>
      dsimp only
      split
      · exact Or.inl (.single (.retry hph ‹_›))
      · exact Or.inl .refl
    | handing d cause s => exact Or.inl (calms_hand hph)
    | awaiting d started => exact Or.inl (calms_await hph)
    | reading s epoch => exact Or.inl (.single (.read (Or.inr hph)))
    | _ => exact Or.inl .refl

lemma closed_moves (p : Provider) (c : CallId) :
    ∃ m, Calms F (some c) p m ∧ m.slot = p.slot ∧ (p.closed c = m ∨ m.TearsDown c (p.closed c)) := by
  rw [closed]
  split
  · rename_i conn next h
    refine ⟨_, .single (.letGo h), rfl, ?_⟩
    rw [join]
    split
    · exact Or.inr ⟨conn.listener, next, phaseOf_setPhase_self h, ‹_›, rfl⟩
    · exact Or.inl rfl
  · exact ⟨_, .single (.resetClosed ‹_›), rfl, Or.inl rfl⟩
  · exact ⟨p, .refl, rfl, Or.inl rfl⟩

lemma calms_depositAll (h : p.Reads l) (vs : List Json.Value) :
    Calms F none p (p.depositAll l vs).1 ∧
      (p.depositAll l vs).1.listeners = p.listeners ∧ (p.depositAll l vs).1.slot = p.slot := by
  induction vs generalizing p with
  | nil => exact ⟨.refl, rfl, rfl⟩
  | cons v vs ih =>
    obtain ⟨ns, hl⟩ := p.leave_eq l v
    have hm := Calm.deposit (F := F) h v
    have hli : (p.leave l v).2.listeners = p.listeners := by rw [hl]
    have hsl : (p.leave l v).2.slot = p.slot := by rw [hl]
    have go := ih (p := (p.leave l v).2) (by rwa [Reads, hli])
    rw [hli, hsl] at go
    rw [depositAll]
    split
    · rename_i q hq
      rw [hq] at hm go
      exact ⟨.head hm go.1, go.2⟩
    · rename_i f q hq
      rw [hq] at hm go hli hsl
      split
      · exact ⟨.head hm go.1, go.2⟩
      · exact ⟨.single hm, hli, hsl⟩

lemma fault_moves (h : p.Reads l) (f : Failure) :
    Calm F p none (p.fault l f) ∨ Upheaval p (p.fault l f) := by
  obtain ⟨li, hl, ha⟩ := h
  cases hc : p.config.policy with
  | strict => exact Or.inr (.fail ⟨li, hl, ha⟩ hc f)
  | lenient =>
    simp only [fault, hc]
    exact Or.inl (.work hl ha.unfinished _ _ (by simp))

lemma calls_fault (p : Provider) (l : ListenerId) (f : Failure) : (p.fault l f).calls = p.calls := by
  rw [fault]
  split <;> rfl

lemma slot_fault (p : Provider) (l : ListenerId) (f : Failure) : (p.fault l f).slot = p.slot := by
  rw [fault]
  split <;> rfl

lemma takeChunk_moves (h : p.Reads l) (framer : Framer) (chunk : Bytes) :
    ∃ m, Calms F none p m ∧ m.slot = p.slot ∧
      (p.takeChunk l framer chunk = m ∨ Upheaval m (p.takeChunk l framer chunk) ∧
        (p.takeChunk l framer chunk).calls = m.calls) := by
  rcases hm : (framer.push chunk).messages with ⟨vs, bad, left⟩
  obtain ⟨hc, hl, hs⟩ := calms_depositAll h vs
  rcases hd : p.depositAll l vs with ⟨q, _ | f⟩
  · rw [hd] at hc hl hs
    have ht : p.takeChunk l framer chunk = q.setListener l fun li =>
        { li with framer := if bad.isSome then {} else left, phase := .resting } := by
      simp only [takeChunk, hm, hd]
    obtain ⟨li, hli, ha⟩ := h
    have hw : q.listeners.get? l = some li := by
      dsimp only at hl
      rw [hl, hli]
    rw [ht]
    exact ⟨_, .tail hc (.work hw ha.unfinished _ _ (by simp)), hs, Or.inl rfl⟩
  · rw [hd] at hc hl hs
    have ht : p.takeChunk l framer chunk = q.fault l f := by simp only [takeChunk, hm, hd]
    have hr : q.Reads l := by
      dsimp only at hl
      rw [Reads, hl]
      exact h
    rw [ht]
    rcases fault_moves hr f with hm | hm
    · exact ⟨_, .tail hc hm, (slot_fault q l f).trans hs, Or.inl rfl⟩
    · exact ⟨q, hc, hs, Or.inr ⟨hm, calls_fault q l f⟩⟩

lemma arrive_moves (p : Provider) (l : ListenerId) (chunk : Chunk) :
    ∃ m, Calms F none p m ∧ m.slot = p.slot ∧
      (p.arrive l chunk = m ∨ Upheaval m (p.arrive l chunk) ∧ (p.arrive l chunk).calls = m.calls) := by
  rw [arrive]
  split
  · exact ⟨p, .refl, rfl, Or.inl rfl⟩
  · rename_i li hl
    split
    · rename_i hp hr hf ha
      have h : p.Reads l := ⟨li, hl, hp, hr, hf, ha⟩
      split
      · rename_i f
        rcases fault_moves h f with hm | hm
        · exact ⟨_, .single hm, slot_fault p l f, Or.inl rfl⟩
        · exact ⟨p, .refl, rfl, Or.inr ⟨hm, calls_fault p l f⟩⟩
      · exact ⟨p, .refl, rfl, Or.inr ⟨.orphan h, rfl⟩⟩
      · exact takeChunk_moves h _ _
    · exact ⟨p, .refl, rfl, Or.inl rfl⟩

lemma setListener_eq_work {li : Listener} (hl : p.listeners.get? l = some li) (ph : ListenerPhase) :
    (p.setListener l fun li => { li with phase := ph }) =
      p.setListener l fun lj => { lj with framer := li.framer, phase := ph } := by
  simp only [setListener, Table.modify, hl]

lemma calms_listen (p : Provider) (l : ListenerId) : Calms F none p (p.listen l) := by
  rw [listen]
  split
  · exact .refl
  · rename_i li hl
    split
    · exact .refl
    · rename_i hf
      have hf' : li.isFinished = false := Bool.eq_false_iff.mpr hf
      split
      · exact .single (.retire hl hf' (Or.inl ‹_›))
      · rename_i ha
        split
        · rw [setListener_eq_work hl]
          exact .single (.work hl hf' _ _ (by simp))
        · exact .single (.resume hl hf' (Bool.eq_false_iff.mpr ha) ‹_›)
        · exact .single (.retire hl hf' (Or.inr ‹_›))
        · rw [setListener_eq_work hl]
          exact .single (.work hl hf' _ _ (by simp))
        · exact .refl

lemma calms_collect (p : Provider) (c : CallId) : Calms F (some c) p (p.collect c) := by
  unfold collect result?
  split
  · rename_i h
    split at h
    · exact .single (.collect ‹_›)
    · cases h
  · exact .refl

lemma calms_drop (p : Provider) (c : CallId) : Calms F (some c) p (p.drop c) := by
  cases h : p.phaseOf c with
  | none =>
    simp only [drop, h]
    exact .refl
  | some ph => exact .single (.drop h)

def Event.failure? : Event → Option Failure
  | .opened _ (.error f) | .sink _ (.failure f) => some f
  | _ => none

def subject (p : Provider) : Event → Option CallId
  | .call _ => some p.nextCall
  | .turn c | .opened c _ | .closed c | .sink c _ | .collect c | .drop c => some c
  | _ => none

theorem step_moves (p : Provider) (e : Event) (hf : ∀ f, e.failure? = some f → F f) :
    ∃ m, Calms F (p.subject e) p m ∧ (p.step e = m ∨ m.slot = p.slot ∧ Upheaval m (p.step e) ∧
      ∀ c, p.subject e ≠ some c → (p.step e).calls.get? c = m.calls.get? c) := by
  have calm : Calms F (p.subject e) p (p.step e) → ∃ m, Calms F (p.subject e) p m ∧
      (p.step e = m ∨ m.slot = p.slot ∧ Upheaval m (p.step e) ∧
        ∀ c, p.subject e ≠ some c → (p.step e).calls.get? c = m.calls.get? c) := fun h => ⟨_, h, Or.inl rfl⟩
  cases e with
  | call op => exact calm (.single (.call op))
  | turn c =>
    rcases turn_moves p c with h | h
    · exact calm h
    · exact ⟨p, .refl, Or.inr ⟨rfl, h.upheaval, fun b hb => h.others fun he => hb (congrArg some he)⟩⟩
  | listen l => exact calm (calms_listen p l)
  | arrive l chunk =>
    obtain ⟨m, hc, hs, h | ⟨h, hcalls⟩⟩ := arrive_moves p l chunk
    · exact ⟨m, hc, Or.inl h⟩
    · exact ⟨m, hc, Or.inr ⟨hs, h, fun b _ => congrArg (Table.get? · b) hcalls⟩⟩
  | opened c r => exact calm (calms_opened p c r fun f hr => hf f (by rw [hr]; rfl))
  | closed c =>
    obtain ⟨m, hc, hs, h | h⟩ := closed_moves p c
    · exact ⟨m, hc, Or.inl h⟩
    · exact ⟨m, hc, Or.inr ⟨hs, h.upheaval, fun b hb => h.others fun he => hb (congrArg some he)⟩⟩
  | sink c a => exact calm (calms_sink p c a fun f ha => hf f (by rw [ha]; rfl))
  | collect c => exact calm (calms_collect p c)
  | drop c => exact calm (calms_drop p c)
  | pop k => exact calm (.single (.pop k))
  | take s => exact calm (.single (.take s))
  | elapse ms => exact calm (.single (.elapse ms))

lemma chain_preserves {I : Provider → Prop} {a : Option CallId}
    (calm : ∀ p q, I p → Calm F p a q → I q) (hp : I p) (h : Calms F a p q) : I q := by
  induction h with
  | refl => exact hp
  | tail _ hm ih => exact calm _ _ ih hm

theorem invariant_of_moves {I : Provider → Prop} (calm : ∀ p a q, I p → Calm F p a q → I q)
    (upheaval : ∀ p q, I p → Upheaval p q → I q) (hp : I p) {es : List Event}
    (hf : ∀ e ∈ es, ∀ f, e.failure? = some f → F f) : I (p.steps es) := by
  induction es generalizing p with
  | nil => exact hp
  | cons e es ih =>
    have hes : ∀ e ∈ es, ∀ f, e.failure? = some f → F f := fun d hd => hf d (List.mem_cons_of_mem e hd)
    obtain ⟨m, hm, h | ⟨-, h, -⟩⟩ := step_moves p e (hf e List.mem_cons_self)
    · exact ih (h ▸ chain_preserves (fun p q => calm p _ q) hp hm) hes
    · exact ih (upheaval m _ (chain_preserves (fun p q => calm p _ q) hp hm) h) hes

end SocketRpc.Provider
