import SocketRpc.Proofs.Correlator.Queues

/-! Responses and pushes pass through one correlator and leave each other alone. -/

namespace SocketRpc.Correlator

variable {c d : Correlator} {x y : Exchange} {o : Op} {e : Entry} {os : List Op}

namespace Op

def sorted : Op → Bool
  | .deposit v push => push == isPush v
  | _ => true

def onClaims : Op → Bool
  | .deposit _ push => !push
  | .pop _ | .register _ | .receive _ | .discard _ | .forget _ | .abandon _ => true
  | _ => false

def onPushes : Op → Bool
  | .deposit _ push => push
  | .reopen | .openSubscription _ | .removeSubscription _ | .popSubscription _ => true
  | .read _ | .poll _ | .quit _ => true
  | _ => false

def bringsPush : Op → Bool
  | .deposit v _ => isPush v
  | _ => false

def bringsOther : Op → Bool
  | .deposit v _ => !isPush v
  | _ => false

lemma onPushes_of_bringsPush (hs : o.sorted) (ho : o.bringsPush) : o.onPushes := by
  cases o with
  | deposit v push =>
    have hp : push = isPush v := by simpa [sorted] using hs
    exact hp.trans ho
  | _ => cases ho

lemma onClaims_of_bringsOther (hs : o.sorted) (ho : o.bringsOther) : o.onClaims := by
  cases o with
  | deposit v push =>
    have hp : push = isPush v := by simpa [sorted] using hs
    exact (congrArg not hp).trans ho
  | _ => cases ho

end Op

namespace Entry

def ofResponses : Entry → Bool
  | .deposited _ push _ => !push
  | .popped _ _ | .registered _ _ | .received _ _ => true
  | _ => false

def ofPushes : Entry → Bool
  | .deposited _ push _ => push
  | .removed _ _ | .taken _ _ | .read _ _ _ => true
  | _ => false

end Entry

lemma depositResponse_claims (c : Correlator) (r : Response) :
    c.claims.depositResponse r = ((c.depositResponse r).1, (c.depositResponse r).2.claims) := by
  by_cases ha : r.id.key ∈ c.abandoned
  · simp [depositResponse, claims, ha]
  · rcases hw : c.waiting.get? r.id.key with _ | t
    · rcases hp : c.parked.get? r.id.key with _ | first
      · simp [depositResponse, claims, ha, hw, hp, park]
        rfl
      · simp [depositResponse, claims, ha, hw, hp]
    · rcases hm : c.mail.get? t with _ | m <;> simp [depositResponse, claims, ha, hw, hm]

lemma deposit_claims (c : Correlator) (v : Json.Value) :
    c.claims.deposit v false = ((c.deposit v false).1, (c.deposit v false).2.claims) := by
  rcases hi : v.get? "id" with _ | i
  · simp [deposit, hi]
  · rcases hr : Response.ofValue v with e | r <;> simp [deposit, hi, hr, depositResponse_claims]

lemma pop_claims (c : Correlator) (k : CacheKey) : c.claims.pop k = ((c.pop k).1, (c.pop k).2.claims) := by
  rcases hp : c.parked.get? k with _ | r <;> simp [pop, claims, hp]

lemma register_claims (c : Correlator) (id : RequestId) :
    c.claims.register id = ((c.register id).1, (c.register id).2.claims) := by
  rcases hw : c.waiting.get? id.key with _ | t
  · rcases hp : c.parked.get? id.key with _ | r <;> simp [register, claims, hw, hp]
  · simp [register, claims, hw]

lemma receive_claims (c : Correlator) (t : Ticket) :
    c.claims.receive t = ((c.receive t).1, (c.receive t).2.claims) := by
  rcases hm : c.mail.get? t with _ | m
  · simp [receive, claims, hm]
  · cases m <;> simp [receive, claims, hm, closeTicket]

lemma forget_claims (c : Correlator) (id : RequestId) : c.claims.forget id = (c.forget id).claims := by
  rcases hw : c.waiting.get? id.key with _ | t <;> simp [forget, claims, hw, closeTicket]

lemma abandon_claims (c : Correlator) (id : RequestId) : c.claims.abandon id = (c.abandon id).claims := by
  rcases hw : c.waiting.get? id.key with _ | t
  · simp [abandon, claims, hw]
  · simp [abandon, claims, hw, closeTicket]
    rfl

lemma foldl_closeTicket_claims (ts : List Ticket) (c : Correlator) :
    ts.foldl closeTicket c.claims = (ts.foldl closeTicket c).claims := by
  induction ts generalizing c with
  | nil => rfl
  | cons t ts ih => exact ih (c.closeTicket t)

lemma dismiss_claims (c : Correlator) : c.claims.dismiss = c.dismiss.claims := by
  rw [dismiss, foldl_closeTicket_claims]
  rfl

lemma claims_clear (c : Correlator) : c.claims.clear.claims = c.clear.claims := by
  rw [clear, dismiss_claims]
  rfl

lemma claims_fail (c : Correlator) (reason : String) :
    (c.claims.fail reason).claims = (c.fail reason).claims := by
  rw [fail, dismiss_claims]
  rfl

lemma claims_closeByPeer (c : Correlator) : c.claims.closeByPeer.claims = c.closeByPeer.claims := by
  rw [closeByPeer, dismiss_claims]
  rfl

lemma depositPush_subscriptions (c : Correlator) (v : Json.Value) :
    c.subscriptions.depositPush v = ((c.depositPush v).1, (c.depositPush v).2.subscriptions) := by
  rcases hn : Notification.ofValue v with e | n <;> simp [depositPush, subscriptions, hn, queue]

lemma popSubscription_subscriptions (c : Correlator) (s : SubscriptionId) :
    c.subscriptions.popSubscription s = ((c.popSubscription s).1, (c.popSubscription s).2.subscriptions) := by
  have hs : c.subscriptions.queue s = c.queue s := rfl
  rcases hq : c.queue s with _ | ⟨v, vs⟩
  · simp [popSubscription, hs, hq]
  · simp [popSubscription, hs, hq]
    rfl

lemma openSubscription_subscriptions (c : Correlator) (s : SubscriptionId) :
    c.subscriptions.openSubscription s = (c.openSubscription s).subscriptions := by
  rcases hq : c.queues.get? s with _ | vs <;> simp [openSubscription, subscriptions, hq]

lemma nextNotification_subscriptions (c : Correlator) (s : SubscriptionId) (epoch : Nat) :
    c.subscriptions.nextNotification s epoch =
      ((c.nextNotification s epoch).1, (c.nextNotification s epoch).2.subscriptions) := by
  have he : c.subscriptions.epoch = c.epoch := rfl
  have hf : c.subscriptions.fault = c.fault := rfl
  have hc : c.subscriptions.peerClosed = c.peerClosed := rfl
  by_cases h : c.epoch = epoch
  · rcases hp : c.popSubscription s with ⟨_ | v, d⟩
    · rcases hr : c.fault with _ | reason <;>
        simp [nextNotification, popSubscription_subscriptions, he, hf, hc, h, hp, hr]
    · simp [nextNotification, popSubscription_subscriptions, he, h, hp]
  · simp [nextNotification, he, h]

lemma subscriptions_fail (c : Correlator) (reason : String) :
    (c.fail reason).subscriptions = { c.subscriptions with fault := some reason } :=
  congrArg (fun d : Correlator => { d with fault := some reason }) c.subscriptions_dismiss

lemma subscriptions_closeByPeer (c : Correlator) :
    c.closeByPeer.subscriptions = { c.subscriptions with peerClosed := true } :=
  congrArg (fun d : Correlator => { d with peerClosed := true }) c.subscriptions_dismiss

lemma claims_depositPush (c : Correlator) (v : Json.Value) : (c.depositPush v).2.claims = c.claims := by
  rw [depositPush]
  split <;> rfl

lemma subscriptions_deposit (c : Correlator) (v : Json.Value) :
    (c.deposit v false).2.subscriptions = c.subscriptions := by
  rcases hi : v.get? "id" with _ | i
  · simp [deposit, hi]
  · rcases hr : Response.ofValue v with e | r
    · simp [deposit, hi, hr]
    · simp [deposit, hi, hr, subscriptions_depositResponse]

namespace Exchange

def responseSide (x : Exchange) : Exchange :=
  { correlator := x.correlator.claims, log := x.log.filter Entry.ofResponses }

def pushSide (x : Exchange) : Exchange :=
  { x with correlator := x.correlator.subscriptions, log := x.log.filter Entry.ofPushes }

lemma responseSide_record (hc : d.claims = c.claims) :
    (x.responseSide.record d e).responseSide = (x.record c e).responseSide := by
  simp [responseSide, record, hc]

lemma responseSide_record_idle (hc : d.claims = x.correlator.claims) (he : e.ofResponses = false) :
    (x.record d e).responseSide = x.responseSide := by
  simp [responseSide, record, hc, he]

lemma responseSide_look (x : Exchange) (n : ReaderId) (rd : Reader) :
    (x.look n rd).responseSide = x.responseSide := by
  simp [responseSide, claims_look, log_look, Entry.ofResponses]

lemma responseSide_responseSide (x : Exchange) : x.responseSide.responseSide = x.responseSide := by
  simp [responseSide, claims]

lemma responseSide_idle (x : Exchange) (o : Op) (ho : o.onPushes) :
    (x.step o).responseSide = x.responseSide := by
  cases o with
  | deposit v push =>
    obtain rfl : push = true := ho
    exact responseSide_record_idle (claims_depositPush _ v) rfl
  | reopen => exact responseSide_record_idle rfl rfl
  | openSubscription s => exact responseSide_record_idle (claims_openSubscription _ s) rfl
  | removeSubscription s => exact responseSide_record_idle rfl rfl
  | popSubscription s => exact responseSide_record_idle (claims_popSubscription _ s) rfl
  | read s => exact responseSide_look { x with nextReader := x.nextReader + 1 } _ _
  | poll n =>
    rcases hr : x.readers.get? n with _ | rd
    · rw [step_poll_none hr]
      exact responseSide_record_idle rfl rfl
    · rw [step_poll hr]
      exact responseSide_look x n rd
  | quit n => exact responseSide_record_idle rfl rfl
  | pop _ | register _ | receive _ | discard _ | forget _ | abandon _ | clear | fail _ | closeByPeer => cases ho

lemma responseSide_step (x : Exchange) (o : Op) :
    (x.step o).responseSide = (x.responseSide.step o).responseSide := by
  have hc : x.responseSide.correlator = x.correlator.claims := rfl
  by_cases ho : o.onPushes
  · rw [responseSide_idle _ o ho, responseSide_idle _ o ho, responseSide_responseSide]
  · symm
    cases o with
    | deposit v push =>
      obtain rfl : push = false := Bool.eq_false_iff.mpr ho
      simp only [step, hc, deposit_claims]
      exact responseSide_record rfl
    | pop k =>
      simp only [step, hc, pop_claims]
      exact responseSide_record rfl
    | register id =>
      simp only [step, hc, register_claims]
      exact responseSide_record rfl
    | receive t =>
      simp only [step, hc, receive_claims]
      exact responseSide_record rfl
    | discard t => exact responseSide_record rfl
    | forget id =>
      simp only [step, hc, forget_claims]
      exact responseSide_record rfl
    | abandon id =>
      simp only [step, hc, abandon_claims]
      exact responseSide_record rfl
    | clear => exact responseSide_record (claims_clear _)
    | fail reason => exact responseSide_record (claims_fail _ reason)
    | closeByPeer => exact responseSide_record (claims_closeByPeer _)
    | reopen | openSubscription _ | removeSubscription _ | popSubscription _ | read _ | poll _ | quit _ =>
      exact absurd rfl ho

lemma pushSide_record (hc : d.subscriptions = c.subscriptions) :
    (x.pushSide.record d e).pushSide = (x.record c e).pushSide := by
  simp [pushSide, record, hc]

lemma pushSide_record_idle (hc : d.subscriptions = x.correlator.subscriptions) (he : e.ofPushes = false) :
    (x.record d e).pushSide = x.pushSide := by
  simp [pushSide, record, hc, he]

lemma pushSide_pushSide (x : Exchange) : x.pushSide.pushSide = x.pushSide := by
  simp [pushSide, subscriptions]

lemma pushSide_look (x : Exchange) (n : ReaderId) (rd : Reader) :
    (x.look n rd).pushSide = (x.pushSide.look n rd).pushSide := by
  rcases hn : x.correlator.nextNotification rd.subscription rd.epoch with ⟨_ | r, d⟩ <;>
    simp [look, pushSide, nextNotification_subscriptions, hn, record] <;> rfl

lemma pushSide_idle (x : Exchange) (o : Op) (ho : o.onClaims) : (x.step o).pushSide = x.pushSide := by
  cases o with
  | deposit v push =>
    obtain rfl : push = false := by simpa [Op.onClaims] using ho
    exact pushSide_record_idle (subscriptions_deposit _ v) rfl
  | pop k => exact pushSide_record_idle (subscriptions_pop _ k) rfl
  | register id => exact pushSide_record_idle (subscriptions_register _ id) rfl
  | receive t => exact pushSide_record_idle (subscriptions_receive _ t) rfl
  | discard t => exact pushSide_record_idle rfl rfl
  | forget id => exact pushSide_record_idle (subscriptions_forget _ id) rfl
  | abandon id => exact pushSide_record_idle (subscriptions_abandon _ id) rfl
  | clear | fail _ | closeByPeer | reopen | openSubscription _ | removeSubscription _ | popSubscription _
  | read _ | poll _ | quit _ => cases ho

lemma pushSide_step (x : Exchange) (o : Op) : (x.step o).pushSide = (x.pushSide.step o).pushSide := by
  have hc : x.pushSide.correlator = x.correlator.subscriptions := rfl
  by_cases ho : o.onClaims
  · rw [pushSide_idle _ o ho, pushSide_idle _ o ho, pushSide_pushSide]
  · symm
    cases o with
    | deposit v push =>
      obtain rfl : push = true := by simpa [Op.onClaims] using ho
      simp only [step, hc, deposit, if_pos, depositPush_subscriptions]
      exact pushSide_record rfl
    | clear => exact pushSide_record rfl
    | fail reason => exact pushSide_record (by simp only [subscriptions_fail, hc]; rfl)
    | closeByPeer => exact pushSide_record (by simp only [subscriptions_closeByPeer, hc]; rfl)
    | reopen => exact pushSide_record rfl
    | openSubscription s =>
      simp only [step, hc, openSubscription_subscriptions]
      exact pushSide_record rfl
    | removeSubscription s => exact pushSide_record rfl
    | popSubscription s =>
      simp only [step, hc, popSubscription_subscriptions]
      exact pushSide_record rfl
    | read s => exact (pushSide_look { x with nextReader := x.nextReader + 1 } _ _).symm
    | poll n =>
      rcases hr : x.readers.get? n with _ | rd
      · rw [step_poll_none hr, step_poll_none (x := x.pushSide) hr]
        exact pushSide_record rfl
      · rw [step_poll hr, step_poll (x := x.pushSide) hr]
        exact (pushSide_look x n rd).symm
    | quit n => exact pushSide_record (x := { x with readers := x.readers.erase n }) rfl
    | pop _ | register _ | receive _ | discard _ | forget _ | abandon _ => exact absurd rfl ho

lemma view_run {view : Exchange → Exchange} {drops : Op → Bool}
    (hstep : ∀ x o, view (step x o) = view (step (view x) o))
    (hidle : ∀ x o, o.sorted → drops o → view (step x o) = view x) (hs : ∀ o ∈ os, o.sorted) :
    view (run (os.filter fun o => !drops o)) = view (run os) := by
  -- Operations are taken off the end, as the view is kept up to the last one.
  induction os using List.reverseRecOn with
  | nil => rfl
  | append_singleton os o ih =>
    have ih := ih fun p hp => hs p (List.mem_append_left _ hp)
    have ho := hs o (List.mem_append_right _ List.mem_cons_self)
    rw [List.filter_append, run_snoc]
    by_cases hd : drops o
    · rw [hidle _ o ho hd, ← ih, List.filter_singleton, hd]
      simp
    · rw [List.filter_singleton, Bool.eq_false_iff.mpr hd]
      calc view (run (os.filter (fun o => !drops o) ++ [o]))
          = view (step (view (run (os.filter fun o => !drops o))) o) := by rw [run_snoc, hstep]
        _ = view (step (view (run os)) o) := by rw [ih]
        _ = view ((run os).step o) := (hstep _ o).symm

end Exchange

/-- The pushes of a run may be left out without a difference to claims and responses, and whatever else
arrives without a difference to notifications. -/
theorem halves_apart (hs : ∀ o ∈ os, o.sorted) :
    (let x := Exchange.run os
      let y := Exchange.run (os.filter fun o => !o.bringsPush)
      y.log.filter Entry.ofResponses = x.log.filter Entry.ofResponses ∧
        y.correlator.inFlight = x.correlator.inFlight ∧ y.correlator.cached = x.correlator.cached ∧
        y.correlator.mail = x.correlator.mail) ∧
      let x := Exchange.run os
      let z := Exchange.run (os.filter fun o => !o.bringsOther)
      z.log.filter Entry.ofPushes = x.log.filter Entry.ofPushes ∧ z.readers = x.readers ∧
        ∀ s, z.correlator.pending s = x.correlator.pending s := by
  have hy := Exchange.view_run Exchange.responseSide_step
    (fun x o ho hd => x.responseSide_idle o (Op.onPushes_of_bringsPush ho hd)) hs
  have hz := Exchange.view_run Exchange.pushSide_step
    (fun x o ho hd => x.pushSide_idle o (Op.onClaims_of_bringsOther ho hd)) hs
  obtain ⟨hw, hp, -, hm, -⟩ := fields_of_claims (congrArg Exchange.correlator hy)
  have hq := congrArg (fun x => x.correlator.queues) hz
  refine ⟨⟨congrArg Exchange.log hy, congrArg Table.size hw, congrArg Table.size hp, hm⟩,
    congrArg Exchange.log hz, (congrArg Exchange.readers hz :), fun s => ?_⟩
  exact congrArg (fun t : Table SubscriptionId (List Json.Value) => ((t.get? s).getD []).length) hq

/-- A push under the identifier of a request in flight arrives between the request and its response. -/
def crossing : List Op :=
  let s : SubscriptionId := ⟨"0x1"⟩
  let push := .object [("id", .number (.integer 1)), ("method", .text "eth_subscription"),
    ("params", .object [("result", .bool true), ("subscription", .text "0x1")])]
  let response := .object [("id", .number (.integer 1)), ("result", .null)]
  [.register (.number 1), .read s, .deposit push true, .poll 0, .deposit response false, .receive 0]

theorem halves_apart_crossing :
    (∀ o ∈ crossing, o.sorted) ∧
      (Exchange.run (crossing.filter fun o => !o.bringsPush)).log.filter Entry.ofResponses =
        (Exchange.run crossing).log.filter Entry.ofResponses ∧
      (Exchange.run (crossing.filter fun o => !o.bringsOther)).log.filter Entry.ofPushes =
        (Exchange.run crossing).log.filter Entry.ofPushes := by
  have hs : ∀ o ∈ crossing, o.sorted := by decide
  obtain ⟨⟨hy, -⟩, hz, -⟩ := halves_apart hs
  exact ⟨hs, hy, hz⟩

end SocketRpc.Correlator
