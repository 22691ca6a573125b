import SocketRpc.Proofs.Provider.Epochs

namespace SocketRpc

namespace Correlator

variable {c d : Correlator}

def serves (c : Correlator) (s : SubscriptionId) : Bool := (c.queues.get? s).isSome

lemma serves_of_feeds (h : d.feeds = c.feeds) (s : SubscriptionId) : d.serves s = c.serves s := by
  rw [serves, show d.queues = c.queues from congrArg Prod.fst h, serves]

lemma epoch_of_feeds (h : d.feeds = c.feeds) : d.epoch = c.epoch := congrArg Prod.snd h

lemma serves_popSubscription (c : Correlator) (i s : SubscriptionId) :
    (c.popSubscription i).2.serves s = c.serves s := by
  rw [popSubscription]
  split
  · rename_i v rest hq
    simp only [serves, Table.get?_set]
    split
    · rename_i he
      subst he
      cases hs : c.queues.get? i with
      | none => simp [queue, hs] at hq
      | some vs => rfl
    · rfl
  · rfl

lemma serves_nextNotification (c : Correlator) (i s : SubscriptionId) (epoch : Nat) :
    (c.nextNotification i epoch).2.serves s = c.serves s := by
  rcases c.nextNotification_cases i epoch with ⟨v, hp, -⟩ | ⟨hc, -⟩
  · rw [← serves_popSubscription c i s, hp]
  · rw [hc]

lemma serves_openSubscription (c : Correlator) (i s : SubscriptionId) :
    (c.openSubscription i).serves s = (c.serves s || decide (i = s)) := by
  rw [openSubscription]
  split
  · rename_i vs hs
    by_cases he : i = s
    · subst he
      simp [serves, hs]
    · simp [he]
  · simp only [serves, Table.get?_set]
    split <;> simp [*]

lemma serves_removeSubscription (c : Correlator) (i s : SubscriptionId) :
    (c.removeSubscription i).2.serves s = (c.serves s && !decide (i = s)) := by
  simp only [serves, removeSubscription, Table.get?_erase]
  split <;> simp [*]

end Correlator

namespace Provider

variable {F : Failure → Prop} {a : Option CallId} {p q m : Provider} {c : CallId} {l : ListenerId}
  {ph : Phase} {ns : List Note} {s : SubscriptionId}

def Note.takenUp? : Note → Option (CallId × Response)
  | .settled c _ (.ok r) => some (c, r)
  | _ => none

def Operation.turns? : Operation → Response → Option (SubscriptionId × Bool)
  | .subscribe _ _, r =>
    match resultOf .text r with
    | .ok (.text s) => some (⟨s⟩, true)
    | _ => none
  | .unsubscribe s, r =>
    match resultOf .flag r with
    | .ok _ => some (s, false)
    | _ => none
  | _, _ => none

def Untaken (p q : Provider) : Prop := ∃ ns, q.notes = p.notes ++ ns ∧ ∀ x ∈ ns, x.takenUp? = none

lemma untaken_same (hn : q.notes = p.notes) : Untaken p q := ⟨[], by simp [hn], by simp⟩

lemma Untaken.trans (h : Untaken p m) (g : Untaken m q) : Untaken p q := by
  obtain ⟨ns, hn, hx⟩ := h
  obtain ⟨ms, gn, gx⟩ := g
  refine ⟨ns ++ ms, by rw [gn, hn, List.append_assoc], fun x hm => ?_⟩
  rcases List.mem_append.mp hm with hm | hm
  · exact hx x hm
  · exact gx x hm

structure Goes (p q : Provider) : Prop where
  epoch : q.correlator.epoch = p.correlator.epoch
  notes : Untaken p q

structure Steady (p q : Provider) : Prop extends Goes p q where
  serves : ∀ s, q.correlator.serves s = p.correlator.serves s

lemma Goes.trans (h : Goes p m) (g : Goes m q) : Goes p q where
  epoch := g.epoch.trans h.epoch
  notes := h.notes.trans g.notes

lemma Steady.trans (h : Steady p m) (g : Steady m q) : Steady p q where
  toGoes := h.toGoes.trans g.toGoes
  serves s := (g.serves s).trans (h.serves s)

lemma steady_notes (hk : q.correlator.feeds = p.correlator.feeds) (hn : q.notes = p.notes ++ ns)
    (hx : ∀ x ∈ ns, x.takenUp? = none) : Steady p q :=
  ⟨⟨Correlator.epoch_of_feeds hk, ns, hn, hx⟩, Correlator.serves_of_feeds hk⟩

lemma steady_same (hk : q.correlator.feeds = p.correlator.feeds) (hn : q.notes = p.notes) : Steady p q :=
  ⟨⟨Correlator.epoch_of_feeds hk, untaken_same hn⟩, Correlator.serves_of_feeds hk⟩

lemma steady_note {x : Note} (hx : x.takenUp? = none) : Steady p (p.note x) :=
  steady_notes rfl rfl (by simpa using hx)

lemma steady_release (p : Provider) : Steady p p.release := by
  rw [release]
  split
  · exact steady_same rfl rfl
  · exact steady_notes rfl rfl (by simp [Note.takenUp?])

lemma steady_publish (st : ConnectionState) : Steady p (p.publish st) :=
  steady_notes rfl rfl (by simp [Note.takenUp?])

lemma steady_setPhase : Steady p (p.setPhase c ph) := steady_same rfl rfl

lemma steady_passOn : Steady p (p.release.setPhase c ph) := (steady_release p).trans steady_setPhase

lemma answer_error (p : Provider) (c : CallId) (f : Failure) : ∃ x, p.answer c (.error f) = p.finish c x := by
  rw [answer]
  split
  · exact ⟨_, rfl⟩
  · exact ⟨_, rfl⟩
  · exact ⟨_, rfl⟩
  · exact ⟨_, rfl⟩
  · exact ⟨_, rfl⟩

lemma steady_refused (p : Provider) (c : CallId) (y : Request) (f : Failure) :
    Steady p (p.settle c y (.error f)) := by
  obtain ⟨x, hx⟩ := answer_error (p.note (.settled c y (.error f))) c f
  rw [settle, hx]
  exact (steady_note rfl).trans steady_setPhase

lemma steady_settleDispatch (p : Provider) (c : CallId) (d : Dispatch) (f : Failure) :
    Steady p (p.settleDispatch c d (.error f)) := by
  have h : Steady p { p with correlator := p.correlator.discard d.ticket } := steady_same rfl rfl
  exact h.trans (steady_refused _ c d.request f)

lemma steady_withdrawing (id : RequestId) (g : Correlator → Correlator)
    (hg : (g p.correlator).feeds = p.correlator.feeds) : Steady p (p.withdrawing id g) := by
  refine steady_notes hg rfl fun x hx => ?_
  obtain ⟨t, -, rfl⟩ := List.mem_map.mp hx
  rfl

lemma steady_dismissing (g : Correlator → Correlator) (hg : (g p.correlator).feeds = p.correlator.feeds) :
    Steady p (p.dismissing g) := by
  refine steady_notes hg (List.append_assoc _ _ _) fun x hx => ?_
  rcases List.mem_append.mp hx with hx | hx
  · obtain ⟨t, -, rfl⟩ := List.mem_map.mp hx
    rfl
  · cases List.mem_singleton.mp hx
    rfl

lemma steady_failSend (p : Provider) (c : CallId) (d : Dispatch) (f : Failure) :
    Steady p (p.failSend c d f) :=
  ((steady_release p).trans (steady_withdrawing d.request.id _ (Correlator.feeds_forget _ _))).trans
    (steady_settleDispatch _ c d f)

lemma steady_read (p : Provider) (c : CallId) (i : SubscriptionId) (epoch : Nat) :
    Steady p (p.readNotification c i epoch) := by
  have he := Correlator.Exchange.epoch_nextNotification p.correlator i epoch
  have hs := p.correlator.serves_nextNotification i
  rw [readNotification]
  split
  · rename_i r k hn
    have h : Steady p { p with correlator := k } :=
      ⟨⟨by rw [← he, hn], untaken_same rfl⟩, fun s => by rw [← hs s epoch, hn]⟩
    exact h.trans steady_setPhase
  · exact steady_setPhase

lemma steady_drop (h : p.phaseOf c = some ph) : Steady p (p.drop c) := by
  have hg : Steady p (p.giveBack ph) := by
    simp only [giveBack]
    split
    · exact steady_same rfl rfl
    · exact steady_notes rfl rfl (by simp [Note.takenUp?])
    · exact steady_same rfl rfl
  have hu : ∀ q : Provider, Steady q (q.unlock c) := fun q => by
    rw [unlock]
    split
    · exact steady_release q
    · exact steady_same rfl rfl
  simp only [drop, h]
  have he : Steady p { p.giveBack ph with calls := (p.giveBack ph).calls.erase c } :=
    hg.trans (steady_same rfl rfl)
  exact he.trans (hu _)

lemma steady_resume (p : Provider) (l : ListenerId) (i : SocketId) : Steady p (p.resume l i) := by
  unfold resume
  dsimp only
  split
  · exact steady_notes rfl rfl (by simp [Note.takenUp?])
  · refine Steady.trans ?_ (steady_publish _)
    exact steady_notes rfl rfl (by simp [Note.takenUp?])

def TakesUp (p : Provider) (c : CallId) (d : Dispatch) (r : Response) (q : Provider) : Prop :=
  ∃ started k, p.phaseOf c = some (.awaiting d started) ∧ p.correlator.receive d.ticket = (.filled r, k) ∧
    q = ({ p with correlator := k }).settleDispatch c d (.ok r)

theorem calm_steady (hm : Calm F p a q) : Steady p q ∨ (∃ c d r, a = some c ∧ p.TakesUp c d r q) ∨
    a = none ∧ ∃ l v, p.Reads l ∧ q = (p.leave l v).2 := by
  have registered : ∀ {id r k}, p.correlator.register id = (r, k) → k.feeds = p.correlator.feeds :=
    fun hr => by rw [← Correlator.feeds_register p.correlator, hr]
  have fed : ∀ {k : Correlator} {n}, k.feeds = p.correlator.feeds →
      Steady p { p with nextId := n, correlator := k } := fun hk => steady_same hk rfl
  have notes : ∀ {q : Provider} {ns}, q.correlator.feeds = p.correlator.feeds → q.notes = p.notes ++ ns →
      (∀ x ∈ ns, x.takenUp? = none) → Steady p q := steady_notes
  cases hm with
  | receive hp hr => exact Or.inr (Or.inl ⟨_, _, _, rfl, _, _, hp, hr, rfl⟩)
  | deposit hr v => exact Or.inr (Or.inr ⟨rfl, _, v, hr, rfl⟩)
  | call | seek | collect | replace | reset | write | pause | retry | resetClosed | resetOpened | progress
  | breakPipe | elapse | work => exact Or.inl (steady_same rfl rfl)
  | refuse _ _ hr => exact Or.inl ((fed (registered hr)).trans (steady_refused _ _ _ _))
  | claim _ _ hr =>
    exact Or.inl (((fed (registered hr)).trans (steady_note rfl)).trans (steady_same rfl rfl))
  | drop hp => exact Or.inl (steady_drop hp)
  | read => exact Or.inl (steady_read p _ _ _)
  | take i =>
    exact Or.inl ⟨⟨Correlator.Exchange.epoch_popSubscription p.correlator i, untaken_same rfl⟩,
      p.correlator.serves_popSubscription i⟩
  | leave | written => exact Or.inl steady_passOn
  | yield => exact Or.inl ((steady_release p).trans (steady_same rfl rfl))
  | attempt | disconnect => exact Or.inl ((steady_publish _).trans (steady_same rfl rfl))
  | giveUp => exact Or.inl (steady_failSend p _ _ _)
  | letGo => exact Or.inl (notes rfl (List.append_assoc _ _ _) (by simp [Note.takenUp?]))
  | connect =>
    have h : Steady p (p.takeSocket.2.spawn p.nextSocket) := notes rfl rfl (by simp [Note.takenUp?])
    exact Or.inl ((h.trans (steady_publish _)).trans steady_passOn)
  | exhaust => exact Or.inl ((steady_publish _).trans steady_passOn)
  | hand => exact Or.inl (notes rfl rfl (by simp [Note.takenUp?]))
  | @reclaim _ d _ _ k _ _ hr =>
    have hk : (k.discard d.ticket).feeds = p.correlator.feeds := show k.feeds = _ from registered hr
    exact Or.inl (((fed hk).trans (steady_note rfl)).trans steady_setPhase)
  | reclaimRefused _ _ hr => exact Or.inl ((fed (registered hr)).trans (steady_settleDispatch _ _ _ _))
  | closedOut => exact Or.inl (steady_settleDispatch p _ _ _)
  | timeOut =>
    exact Or.inl ((steady_withdrawing _ _ (Correlator.feeds_abandon _ _)).trans (steady_settleDispatch _ _ _ _))
  | pop k => exact Or.inl ((fed (Correlator.feeds_pop _ k)).trans (steady_note rfl))
  | resume => exact Or.inl (steady_resume p _ _)
  | retire => exact Or.inl (notes rfl rfl (by simp [Note.takenUp?]))

def Operation.turned (op : Operation) (r : Response) (s : SubscriptionId) (kept : Bool) : Bool :=
  match op.turns? r with
  | some (i, b) => if i = s then b else kept
  | none => kept

lemma epoch_answer (p : Provider) (c : CallId) (r : Except Failure Response) :
    (p.answer c r).correlator.epoch = p.correlator.epoch := by
  rw [answer]
  split
  · rfl
  · split <;> rfl
  · split
    · exact Correlator.Exchange.epoch_openSubscription _ _
    · rfl
  · split <;> rfl
  · rfl

lemma serves_answer {call : Call} (hc : p.calls.get? c = some call) (r : Response) (s : SubscriptionId) :
    (p.answer c (.ok r)).correlator.serves s = call.op.turned r s (p.correlator.serves s) := by
  rw [answer, hc]
  cases h : call.op with
  | subscribe kind params =>
    simp only [Option.map_some, h, Except.bind]
    split
    · rename_i i hi
      simp only [Operation.turned, Operation.turns?, hi]
      show (p.correlator.openSubscription ⟨i⟩).serves s = _
      rw [Correlator.serves_openSubscription]
      by_cases he : (⟨i⟩ : SubscriptionId) = s <;> simp [he]
    · rename_i hn
      have none : (Operation.subscribe kind params).turns? r = none := by
        rw [Operation.turns?]
        split
        · exact absurd ‹_› (hn _)
        · rfl
      rw [Operation.turned, none]
      rfl
  | unsubscribe i =>
    simp only [Option.map_some, h, Operation.turned, Operation.turns?, Except.bind]
    split
    · rename_i removed hr
      simp only [hr]
      show (p.correlator.removeSubscription i).2.serves s = _
      rw [Correlator.serves_removeSubscription]
      by_cases he : i = s <;> simp [he]
    · rename_i f hf
      simp only [hf]
      rfl
  | _ => simp [h, Operation.turned, Operation.turns?, finish, setPhase]

lemma TakesUp.eq {d : Dispatch} {r : Response} (h : p.TakesUp c d r q) :
    ∃ k : Correlator, k.feeds = p.correlator.feeds ∧
      q = ({ p with correlator := k }.note (.settled c d.request (.ok r))).answer c (.ok r) := by
  obtain ⟨started, k, -, hr, rfl⟩ := h
  refine ⟨k.discard d.ticket, ?_, rfl⟩
  rw [← Correlator.feeds_receive p.correlator d.ticket, hr]
  rfl

lemma TakesUp.serves {d : Dispatch} {r : Response} (h : p.TakesUp c d r q) {call : Call}
    (hc : p.calls.get? c = some call) (s : SubscriptionId) :
    q.correlator.serves s = call.op.turned r s (p.correlator.serves s) := by
  obtain ⟨k, hk, rfl⟩ := h.eq
  rw [← Correlator.serves_of_feeds hk]
  exact serves_answer (p := { p with correlator := k }.note _) hc r s

lemma TakesUp.epoch {d : Dispatch} {r : Response} (h : p.TakesUp c d r q) :
    q.correlator.epoch = p.correlator.epoch := by
  obtain ⟨k, hk, rfl⟩ := h.eq
  exact (epoch_answer _ c _).trans (Correlator.epoch_of_feeds hk)

lemma TakesUp.finish {d : Dispatch} {r : Response} (h : p.TakesUp c d r q) :
    q.notes = p.notes ++ [.settled c d.request (.ok r)] ∧ q.nextCall = p.nextCall ∧
      ∀ ph, q.phaseOf c = some ph → ∃ x, ph = .done x := by
  obtain ⟨k, -, rfl⟩ := h.eq
  obtain ⟨k', x, -, -, he⟩ :=
    answer_eq ({ p with correlator := k }.note (.settled c d.request (.ok r))) c (.ok r)
  rw [he]
  exact ⟨rfl, rfl, fun ph hp => ⟨x, eq_of_setPhase hp⟩⟩

structure Turns (p : Provider) (c : CallId) (op : Operation) (r : Response) (q : Provider) : Prop where
  epoch : q.correlator.epoch = p.correlator.epoch
  serves : ∀ s, q.correlator.serves s = op.turned r s (p.correlator.serves s)
  notes : ∃ ns y, q.notes = p.notes ++ ns ∧ .settled c y (.ok r) ∈ ns ∧
    ∀ x ∈ ns, ∀ v, x.takenUp? = some v → v = (c, r)
  ended : Over q c fun _ => True

structure Clears (p q : Provider) : Prop where
  epoch : q.correlator.epoch = p.correlator.epoch + 1
  serves : ∀ s, q.correlator.serves s = false
  notes : Untaken p q

variable {op : Operation} {call : Call} {d : Dispatch} {r : Response} {e : Event}

lemma Turns.go (h : Turns p c op r m) (g : Steady m q) (ho : Over q c fun _ => True) : Turns p c op r q where
  epoch := g.epoch.trans h.epoch
  serves s := (g.serves s).trans (h.serves s)
  notes := by
    obtain ⟨ns, y, hn, hm, hx⟩ := h.notes
    obtain ⟨ms, gn, gx⟩ := g.notes
    refine ⟨ns ++ ms, y, by rw [gn, hn, List.append_assoc], List.mem_append_left _ hm, fun x hm v hv => ?_⟩
    rcases List.mem_append.mp hm with hm | hm
    · exact hx x hm v hv
    · cases (gx x hm).symm.trans hv
  ended := ho

lemma TakesUp.turns (h : Steady p m) (g : m.TakesUp c d r q) (hc : m.calls.get? c = some call)
    (hk : c < m.nextCall) : Turns p c call.op r q := by
  obtain ⟨hn, hcall, hdone⟩ := g.finish
  refine ⟨g.epoch.trans h.epoch, fun s => (g.serves hc s).trans (by rw [h.serves]), ?_, hcall ▸ hk,
    fun ph hp => ?_⟩
  · obtain ⟨ns, hm, hx⟩ := h.notes
    refine ⟨ns ++ [.settled c d.request (.ok r)], d.request, by rw [hn, hm, List.append_assoc],
      List.mem_append_right _ (List.mem_singleton_self _), fun x hx' v hv => ?_⟩
    rcases List.mem_append.mp hx' with hx' | hx'
    · cases (hx x hx').symm.trans hv
    · cases List.mem_singleton.mp hx'
      exact (Option.some.inj hv).symm
  · obtain ⟨x, rfl⟩ := hdone ph hp
    exact ⟨x, rfl, trivial⟩

lemma steady_or_turns (hl : Ledger p) (hc : p.calls.get? c = some call) (hm : Calms F (some c) p q) :
    Steady p q ∨ ∃ r, Turns p c call.op r q := by
  have hk : c < p.nextCall := hl.known c (by rw [hc]; rfl)
  induction hm with
  | refl => exact Or.inl (steady_same rfl rfl)
  | @tail m q hs hm ih =>
    rcases calm_steady hm with h | ⟨b, d, r, hb, h⟩ | ⟨hn, -⟩
    · rcases ih with ih | ⟨r, ih⟩
      · exact Or.inl (ih.trans h)
      · exact Or.inr ⟨r, ih.go h (ih.ended.calm hm)⟩
    · cases hb
      obtain ⟨started, k, hp, -⟩ := id h
      obtain ⟨op, hcm⟩ := call_of_phase hp
      obtain ⟨ns, f⟩ := entries_frame (calms_entries hs)
      have same : call.op = op := by
        rcases f.op c with hn | ho
        · exact absurd hk (Nat.not_lt.mpr hn)
        · simpa [hcm, hc] using ho
      rcases ih with ih | ⟨r', ih⟩
      · exact Or.inr ⟨r, same ▸ h.turns ih hcm (Nat.lt_of_lt_of_le hk f.nextCall)⟩
      · exact absurd (awaits_of_phase hp) ih.ended.not_awaits
    · cases hn

lemma Clears.go (h : Clears p m) (g : Steady m q) : Clears p q where
  epoch := g.epoch.trans h.epoch
  serves s := (g.serves s).trans (h.serves s)
  notes := h.notes.trans g.notes

lemma Goes.clears (h : Goes p m) (g : Clears m q) : Clears p q where
  epoch := g.epoch.trans (by rw [h.epoch])
  serves := g.serves
  notes := h.notes.trans g.notes

lemma clears_clear (p : Provider) : Clears p ((p.dismissing Correlator.clear).note .cleared) where
  epoch := rfl
  serves _ := rfl
  notes := by
    refine ⟨p.correlator.waiting.values.map Note.answered ++ [.notified, .cleared], ?_, fun x hx => ?_⟩
    · simp [dismissing, note]
    · rcases List.mem_append.mp hx with hx | hx
      · obtain ⟨t, -, rfl⟩ := List.mem_map.mp hx
        rfl
      · rcases List.mem_pair.mp hx with rfl | rfl <;> rfl

lemma upheaval_clears (hu : Upheaval p q) : q.correlator = p.correlator.clear ∨
    q.calls = p.calls ∧ q.slot = p.slot ∧ q.correlator.feeds = p.correlator.feeds ∧
      q.correlator.parked = p.correlator.parked := by
  have parked : p.correlator.dismiss.parked = p.correlator.parked := by
    obtain ⟨mail, he, -⟩ := Correlator.foldl_closeTicket p.correlator p.correlator.waiting.values
    rw [Correlator.dismiss, he]
  cases hu with
  | tear hp hf =>
    rename_i next
    left
    cases next with
    | connect => rfl
    | disconnect => exact correlator_release _
  | orphan hr => exact Or.inr ⟨rfl, rfl, Correlator.feeds_dismiss _, parked⟩
  | fail hr hs f =>
    simp only [fault, hs]
    exact Or.inr ⟨rfl, rfl, Correlator.feeds_dismiss _, parked⟩

lemma phaseOf_tornDown_ne {next : AfterTeardown} (hp : p.phaseOf c = some (.joining l next)) :
    (p.tornDown c next).phaseOf c ≠ p.phaseOf c := by
  have moved : ∀ {m : Provider} {ph}, m.calls = p.calls → (∀ l next, ph ≠ .joining l next) →
      (m.setPhase c ph).phaseOf c ≠ p.phaseOf c := fun hm hn he => by
    rw [phaseOf_setPhase_self (phaseOf_of_calls hm c ▸ hp), hp] at he
    exact hn _ _ (Option.some.inj he)
  cases next with
  | connect => exact moved rfl nofun
  | disconnect => exact moved (calls_release _) nofun

lemma upheaval_steady (hu : Upheaval p q) : Steady p q ∨
    Clears p q ∧ ∃ c l next, p.phaseOf c = some (.joining l next) ∧ q.phaseOf c ≠ p.phaseOf c := by
  cases hu with
  | tear hp hf =>
    rename_i c l next
    refine Or.inr ⟨?_, c, l, next, hp, phaseOf_tornDown_ne hp⟩
    cases next with
    | connect => exact (clears_clear p).go ((steady_publish _).trans steady_setPhase)
    | disconnect => exact (clears_clear p).go ((steady_publish _).trans steady_passOn)
  | orphan hr =>
    refine Or.inl (((steady_dismissing _ ?_).trans (steady_publish _)).trans (steady_same rfl rfl))
    exact Correlator.feeds_dismiss _
  | fail hr hs f =>
    simp only [fault, hs]
    refine Or.inl (((steady_dismissing _ ?_).trans (steady_publish _)).trans
      (steady_notes rfl rfl (by simp [Note.takenUp?])))
    exact Correlator.feeds_dismiss _

inductive Effect (p : Provider) : Provider → Prop where
  | steady {q : Provider} (h : Steady p q) : Effect p q
  | turned {q : Provider} {c : CallId} {call : Call} {r : Response} (hc : p.calls.get? c = some call)
      (h : Turns p c call.op r q) : Effect p q
  | heard {q : Provider} {l : ListenerId} (hr : p.Reads l) (h : Goes p q) : Effect p q
  | cleared {q : Provider} (h : Clears p q) : Effect p q

lemma steady_listen (p : Provider) (l : ListenerId) : Steady p (p.listen l) := by
  rw [listen]
  split
  · exact steady_same rfl rfl
  · split
    · exact steady_same rfl rfl
    · split
      · exact steady_notes rfl rfl (by simp [Note.takenUp?])
      · split
        · exact steady_same rfl rfl
        · exact steady_resume p _ _
        · exact steady_notes rfl rfl (by simp [Note.takenUp?])
        · exact steady_same rfl rfl
        · exact steady_same rfl rfl

lemma goes_calms (hm : Calms F none p q) : Goes p q := by
  induction hm with
  | refl => exact (steady_same (p := p) rfl rfl).toGoes
  | @tail m q hs hm ih =>
    rcases calm_steady hm with h | ⟨c, d, r, hc, -⟩ | ⟨-, l, v, hr, rfl⟩
    · exact ih.trans h.toGoes
    · cases hc
    · obtain ⟨ns, hq, hns⟩ := m.leave_notes l v
      refine ih.trans ⟨?_, _, by rw [hq], fun x hx => ?_⟩
      · rw [hq]
        exact Correlator.Exchange.epoch_deposit _ _ _
      · rcases List.mem_cons.mp hx with rfl | hx
        · rfl
        · rcases hns x hx with rfl | ⟨t, rfl⟩ <;> rfl

lemma epoch_calm (hm : Calm F p a q) : q.correlator.epoch = p.correlator.epoch := by
  rcases calm_steady hm with h | ⟨c, d, r, -, h⟩ | ⟨rfl, -⟩
  · exact h.epoch
  · exact h.epoch
  · exact (goes_calms (.single hm)).epoch

lemma arrive_unread (hr : ¬ p.Reads l) (chunk : Chunk) : p.arrive l chunk = p := by
  rw [arrive]
  split
  · rfl
  · rename_i li hl
    split
    · rename_i hp hs hf ha
      exact absurd ⟨li, hl, hp, hs, hf, ha⟩ hr
    · rfl

lemma arrive_effect (p : Provider) (l : ListenerId) (chunk : Chunk) : Effect p (p.arrive l chunk) := by
  by_cases hr : p.Reads l
  · obtain ⟨m, hm, -, he | ⟨hu, hcalls⟩⟩ := arrive_moves (F := fun _ => True) p l chunk
    · rw [he]
      exact .heard hr (goes_calms hm)
    · rcases upheaval_steady hu with h | ⟨-, c, k, next, -, hne⟩
      · exact .heard hr ((goes_calms hm).trans h.toGoes)
      · exact absurd (phaseOf_of_calls hcalls c) hne
  · rw [arrive_unread hr]
    exact .steady (steady_same rfl rfl)

lemma upheaval_effect (ht : Steady p m ∨ ∃ r, Turns p c call.op r m) (hc : p.calls.get? c = some call)
    (hu : Upheaval m q) (others : ∀ b, some c ≠ some b → q.calls.get? b = m.calls.get? b) : Effect p q := by
  rcases upheaval_steady hu with h | ⟨h, b, l, next, hp, hne⟩
  · rcases ht with ht | ⟨r, ht⟩
    · exact .steady (ht.trans h)
    · exact .turned hc (ht.go h (ht.ended.upheaval hu))
  · rcases ht with ht | ⟨r, ht⟩
    · exact .cleared (ht.toGoes.clears h)
    · by_cases hb : c = b
      · obtain ⟨x, hx, -⟩ := (hb ▸ ht.ended).done _ hp
        cases hx
      · refine absurd ?_ hne
        rw [phaseOf, others b fun he => hb (Option.some.inj he), phaseOf]

theorem step_effect (hl : Ledger p) (e : Event) : Effect p (p.step e) := by
  have alone : Calm (fun _ => True) p none (p.step e) → Effect p (p.step e) := fun hm => by
    rcases calm_steady hm with h | ⟨c, d, r, hc, -⟩ | ⟨-, l, v, hr, -⟩
    · exact .steady h
    · cases hc
    · exact .heard hr (goes_calms (.single hm))
  cases hs : p.subject e with
  | none =>
    cases e with
    | listen l => exact .steady (steady_listen p l)
    | arrive l chunk => exact arrive_effect p l chunk
    | pop k => exact alone (.pop k)
    | take s => exact alone (.take s)
    | elapse ms => exact alone (.elapse ms)
    | _ => cases hs
  | some c =>
    by_cases hnew : ∃ op, e = .call op
    · obtain ⟨op, rfl⟩ := hnew
      exact .steady (steady_same rfl rfl)
    cases hc : p.calls.get? c with
    | none =>
      rw [step_unknown hs (fun op he => hnew ⟨op, he⟩) hc]
      exact .steady (steady_same rfl rfl)
    | some call =>
      obtain ⟨m, hm, hend⟩ := step_moves (F := fun _ => True) p e fun _ _ => trivial
      rw [hs] at hm hend
      have trail := steady_or_turns hl hc hm
      rcases hend with he | ⟨-, hu, others⟩
      · rw [he]
        exact trail.elim .steady fun ⟨r, h⟩ => .turned hc h
      · exact upheaval_effect trail hc hu others

end Provider

end SocketRpc
