import SocketRpc.Proofs.Correlator.Queues
import SocketRpc.Proofs.Provider.Locking

namespace SocketRpc.Provider

variable {F : Failure → Prop} {a : Option CallId} {p q m : Provider} {c : CallId} {l : ListenerId}
  {ph ph' : Phase} {ns : List Note} {x : Note} {s : SubscriptionId} {v : Json.Value}

def Operation.reads? : Operation → Option SubscriptionId
  | .nextNotification s => some s
  | _ => none

def Phase.suits : Phase → Operation → Prop
  | .start, _ | .done _, _ => True
  | .reading s _, o => o = .nextNotification s
  | _, o => o.reads? = none

def Suited (p : Provider) : Prop :=
  ∀ c op ph, p.calls.get? c = some { op, phase := ph } → ph.suits op

lemma suited_new (endpoint : Endpoint) (config : Config) : Suited (new endpoint config) := by
  intro c op ph h
  cases h

lemma Suited.turn (h : Suited p)
    (hq : q.calls = p.calls.modify c fun call => { call with phase := ph' })
    (hs : ∀ op ph, p.calls.get? c = some { op, phase := ph } → ph.suits op → ph'.suits op) :
    Suited q := by
  intro b op y hb
  rw [hq, Table.get?_modify] at hb
  split at hb
  · obtain ⟨⟨op, ph⟩, hc, he⟩ := Option.map_eq_some_iff.mp hb
    subst b
    cases he
    exact hs op ph hc (h c op ph hc)
  · exact h b op y hb

lemma Suited.goOn (h : Suited p) (hp : p.phaseOf c = some ph)
    (hq : q.calls = p.calls.modify c fun call => { call with phase := ph' })
    (hs : ∀ op, ph.suits op → ph'.suits op) : Suited q := by
  refine h.turn hq fun op y hc hy => hs op ?_
  cases hp.symm.trans (phaseOf_of_call hc)
  exact hy

lemma Suited.finish (h : Suited p) {r : Except Failure Reply}
    (hq : q.calls = p.calls.modify c fun call => { call with phase := .done r }) : Suited q :=
  h.turn hq fun _ _ _ _ => trivial

lemma Suited.erase (h : Suited p) (hq : q.calls = p.calls.erase c) : Suited q := by
  intro b op y hb
  rw [hq, Table.get?_erase] at hb
  split at hb
  · cases hb
  · exact h b op y hb

lemma Suited.same (h : Suited p) (hq : q.calls = p.calls) : Suited q := by
  intro b op y hb
  exact h b op y (hq ▸ hb)

lemma Suited.release (h : Suited p) : Suited p.release := h.same (calls_release p)

lemma Suited.settle (h : Suited p) (hm : m.calls = p.calls) (y : Request) (r : Except Failure Response) :
    Suited (m.settle c y r) := by
  obtain ⟨z, hz⟩ := calls_settle m c y r
  exact h.finish (hm ▸ hz)

lemma suits_of_errand {op : Operation} {e : Errand} (h : op.errand? = some e) :
    (Phase.locking e).suits op := by
  cases op <;> cases h <;> rfl

lemma reads_of_draw {op : Operation} {d : Request × Nat} (h : p.draw op = some d) : op.reads? = none := by
  cases op <;> first | rfl | cases h

theorem Suited.calm (h : Suited p) (hm : Calm F p a q) : Suited q := by
  cases hm with
  | call op =>
    intro b op' y hb
    have hb : (p.calls.set p.nextCall { op }).get? b = some { op := op', phase := y } := hb
    rw [Table.get?_set] at hb
    split at hb
    · cases hb
      trivial
    · exact h b op' y hb
  | seek hs he =>
    refine h.turn rfl fun op y hc _ => ?_
    cases hs.symm.trans hc
    exact suits_of_errand he
  | claim hs hd hr =>
    refine h.turn rfl fun op y hc _ => ?_
    cases hs.symm.trans hc
    exact reads_of_draw hd
  | refuse | reclaimRefused | receive | closedOut | timeOut => exact h.settle (by rfl) _ _
  | giveUp hg => exact h.release.settle (by rfl) _ _
  | collect hp => exact h.erase rfl
  | drop hp => exact h.erase (calls_drop hp)
  | read hp =>
    rw [readNotification]
    split
    · exact h.finish rfl
    · refine h.turn rfl fun op y hc hy => ?_
      rcases hp with ⟨hs, -⟩ | hp
      · cases hs.symm.trans hc
        rfl
      · cases hp.symm.trans (phaseOf_of_call hc)
        exact hy
  | take | pop | elapse | work | retire => exact h.same rfl
  | resume =>
    unfold resume
    dsimp only
    split <;> exact h.same rfl
  | deposit hr v =>
    obtain ⟨ns, he⟩ := p.leave_eq _ v
    rw [he]
    exact h.same rfl
  | leave => exact h.release.finish rfl
  | connect | exhaust => exact (Suited.release (h.same (by rfl))).finish rfl
  | yield hh => exact h.release.goOn ((phaseOf_release p _).trans hh.1) rfl fun _ hs => hs
  | written hp => exact h.release.goOn ((phaseOf_release p _).trans hp) rfl fun _ hs => hs
  | attempt hh | replace hh | disconnect hh | reset hh | write hh => exact h.goOn hh.1 rfl fun _ hs => hs
  | letGo hp | pause hp | retry hp | resetClosed hp | resetOpened hp | hand hp | progress _ hp
  | breakPipe hp | reclaim hp => exact h.goOn hp rfl fun _ hs => hs

lemma Suited.upheaval (h : Suited p) (hu : Upheaval p q) : Suited q := by
  cases hu with
  | tear hp hf =>
    rename_i next
    cases next with
    | connect => exact h.goOn hp rfl fun _ hs => hs
    | disconnect => exact (Suited.release (h.same (by rfl))).finish rfl
  | orphan => exact h.same rfl
  | fail hr hs f =>
    simp only [fault, hs]
    exact h.same rfl

def Note.quiet : Note → Bool
  | .spawned _ | .deposited _ _ _ | .cleared => false
  | _ => true

def Took (p : Provider) (c : CallId) (s : SubscriptionId) (v : Json.Value) : Prop :=
  p.calls.get? c = some { op := .nextNotification s, phase := .done (.ok (.value v)) }

structure Hushes (p q : Provider) : Prop where
  notes : ∃ ns, q.notes = p.notes ++ ns ∧ ∀ x ∈ ns, x.quiet
  quietens : Quietens p q
  nextListener : q.nextListener = p.nextListener

structure Rests (p q : Provider) : Prop extends Hushes p q where
  listening : q.listening = p.listening
  queues : ∀ s, q.correlator.queue s <:+ p.correlator.queue s
  took : ∀ c s v, q.Took c s v → p.Took c s v

lemma hushes_same (hx : q.notes = p.notes) (hl : q.listeners = p.listeners)
    (hn : q.nextListener = p.nextListener) : Hushes p q :=
  ⟨⟨[], hx.trans (List.append_nil _).symm, nofun⟩, quietens_of_eq hl, hn⟩

lemma Hushes.trans (h : Hushes p m) (g : Hushes m q) : Hushes p q where
  notes := by
    obtain ⟨ns, hn, hq⟩ := h.notes
    obtain ⟨ms, gn, gq⟩ := g.notes
    refine ⟨ns ++ ms, by rw [gn, hn, List.append_assoc], fun x hx => ?_⟩
    rcases List.mem_append.mp hx with hx | hx
    · exact hq x hx
    · exact gq x hx
  quietens l li hl hv := by
    obtain ⟨lj, hj, hv⟩ := g.quietens l li hl hv
    exact h.quietens l lj hj hv
  nextListener := g.nextListener.trans h.nextListener

lemma Rests.trans (h : Rests p m) (g : Rests m q) : Rests p q where
  toHushes := h.toHushes.trans g.toHushes
  listening := g.listening.trans h.listening
  queues s := (g.queues s).trans (h.queues s)
  took c s v ht := h.took c s v (g.took c s v ht)

def outline (p : Provider) : Table CallId Call × Table ListenerId Listener × ListenerId ×
    Option ListenerId × Table SubscriptionId (List Json.Value) :=
  (p.calls, p.listeners, p.nextListener, p.listening, p.correlator.queues)

lemma rests_notes (h : q.outline = p.outline) (hx : q.notes = p.notes ++ ns) (hq : ∀ x ∈ ns, x.quiet) :
    Rests p q := by
  simp only [outline, Prod.mk.injEq] at h
  obtain ⟨hc, hl, hn, hs, hk⟩ := h
  refine ⟨⟨⟨ns, hx, hq⟩, quietens_of_eq hl, hn⟩, hs, fun s => ?_, fun c s v ht => ?_⟩
  · rw [Correlator.queue, hk]
    exact List.suffix_rfl
  · rwa [Took, hc] at ht

lemma rests_same (h : q.outline = p.outline) (hx : q.notes = p.notes) : Rests p q :=
  rests_notes h (hx.trans (List.append_nil _).symm) nofun

lemma rests_note (hx : x.quiet) : Rests p (p.note x) := rests_notes rfl rfl (by simpa using hx)

lemma rests_publish (st : ConnectionState) : Rests p (p.publish st) :=
  rests_notes rfl rfl (by simp [Note.quiet])

lemma rests_correlator (hc : q.calls = p.calls) (hh : Hushes p q) (hl : q.listening = p.listening)
    (hk : ∀ s, q.correlator.queue s <:+ p.correlator.queue s) : Rests p q :=
  ⟨hh, hl, hk, fun _ _ _ ht => by rwa [Took, hc] at ht⟩

lemma rests_release (p : Provider) : Rests p p.release := by
  rw [release]
  split
  · exact rests_same rfl rfl
  · exact rests_notes rfl rfl (by simp [Note.quiet])

def Deaf (p : Provider) (c : CallId) : Prop :=
  ∀ s ph, p.calls.get? c ≠ some { op := .nextNotification s, phase := ph }

lemma Suited.deaf (h : Suited p) (hp : p.phaseOf c = some ph)
    (hs : ∀ s, ¬ ph.suits (.nextNotification s)) : p.Deaf c := by
  intro s y hc
  cases hp.symm.trans (phaseOf_of_call hc)
  exact hs s (h c _ _ hc)

lemma Deaf.same (h : p.Deaf c) (hq : q.calls = p.calls) : q.Deaf c := by
  intro s y hc
  exact h s y (hq ▸ hc)

lemma rests_setPhase (ht : p.Deaf c ∨ ∀ v, ph ≠ .done (.ok (.value v))) : Rests p (p.setPhase c ph) where
  toHushes := hushes_same rfl rfl rfl
  listening := rfl
  queues _ := List.suffix_rfl
  took b s v hb := by
    have hb : (p.calls.modify c fun call => { call with phase := ph }).get? b =
      some { op := .nextNotification s, phase := .done (.ok (.value v)) } := hb
    rw [Table.get?_modify] at hb
    split at hb
    · obtain ⟨⟨op, y⟩, hc, he⟩ := Option.map_eq_some_iff.mp hb
      cases he
      rcases ht with ht | ht
      · exact absurd (by simp [*]) (ht s y)
      · exact absurd rfl (ht v)
    · exact hb

lemma rests_goOn (hp : ∀ v, ph ≠ .done (.ok (.value v))) : Rests p (p.setPhase c ph) :=
  rests_setPhase (Or.inr hp)

lemma rests_finish (hd : p.Deaf c) (r : Except Failure Reply) : Rests p (p.finish c r) :=
  rests_setPhase (Or.inl hd)

lemma rests_releaseAndFinish (hd : p.Deaf c) (r : Except Failure Reply) : Rests p (p.releaseAndFinish c r) :=
  (rests_release p).trans (rests_finish (hd.same (calls_release p)) r)

lemma rests_erase (p : Provider) (c : CallId) : Rests p { p with calls := p.calls.erase c } where
  toHushes := hushes_same rfl rfl rfl
  listening := rfl
  queues _ := List.suffix_rfl
  took b s v hb := by
    have hb : (p.calls.erase c).get? b =
      some { op := .nextNotification s, phase := .done (.ok (.value v)) } := hb
    rw [Table.get?_erase] at hb
    split at hb
    · cases hb
    · exact hb

lemma queue_answer (p : Provider) (c : CallId) (r : Except Failure Response) (s : SubscriptionId) :
    (p.answer c r).correlator.queue s <:+ p.correlator.queue s := by
  rw [answer]
  split
  · exact List.suffix_rfl
  · split <;> exact List.suffix_rfl
  · split
    · exact (p.correlator.openSubscription_turns _ s).suffix rfl
    · exact List.suffix_rfl
  · split
    · exact (p.correlator.removeSubscription_turns _ s).suffix rfl
    · exact List.suffix_rfl
  · exact List.suffix_rfl

lemma rests_settle (hd : p.Deaf c) (y : Request) (r : Except Failure Response) : Rests p (p.settle c y r) := by
  obtain ⟨k, z, -, -, he⟩ := settle_eq p c y r
  have hk : ∀ s, k.queue s <:+ p.correlator.queue s := fun s => by
    have hq := queue_answer (p.note (.settled c y r)) c r s
    rw [← settle, he] at hq
    exact hq
  rw [he]
  have hn : Rests p (p.note (.settled c y r)) := rests_note rfl
  have hk : Rests (p.note (.settled c y r)) { p.note (.settled c y r) with correlator := k } :=
    rests_correlator rfl (hushes_same rfl rfl rfl) rfl hk
  exact (hn.trans hk).trans (rests_finish (hd.same (by rfl)) z)

lemma rests_settleDispatch (hd : p.Deaf c) (d : Dispatch) (r : Except Failure Response) :
    Rests p (p.settleDispatch c d r) := by
  have h : Rests p { p with correlator := p.correlator.discard d.ticket } := rests_same rfl rfl
  exact h.trans (rests_settle (hd.same (by rfl)) d.request r)

lemma rests_withdrawing (id : RequestId) (g : Correlator → Correlator)
    (hg : (g p.correlator).feeds = p.correlator.feeds) : Rests p (p.withdrawing id g) := by
  refine rests_notes ?_ rfl fun x hx => ?_
  · rw [outline, outline, show (p.withdrawing id g).correlator.queues = _ from congrArg Prod.fst hg]
    rfl
  · obtain ⟨t, -, rfl⟩ := List.mem_map.mp hx
    rfl

lemma notes_dismissing (p : Provider) (g : Correlator → Correlator) :
    ∃ ns, (p.dismissing g).notes = p.notes ++ ns ∧ ∀ x ∈ ns, x.quiet := by
  refine ⟨_, List.append_assoc _ _ _, fun x hx => ?_⟩
  rcases List.mem_append.mp hx with hx | hx
  · obtain ⟨t, -, rfl⟩ := List.mem_map.mp hx
    rfl
  · cases List.mem_singleton.mp hx
    rfl

lemma rests_dismissing (g : Correlator → Correlator) (hg : (g p.correlator).feeds = p.correlator.feeds) :
    Rests p (p.dismissing g) := by
  obtain ⟨ns, hn, hq⟩ := p.notes_dismissing g
  refine rests_notes ?_ hn hq
  rw [outline, outline, show (p.dismissing g).correlator.queues = _ from congrArg Prod.fst hg]
  rfl

lemma rests_setListener {g : Listener → Listener}
    (hg : ∀ li, p.listeners.get? l = some li → (g li).Live → li.Live) : Rests p (p.setListener l g) :=
  rests_correlator rfl ⟨⟨[], (List.append_nil _).symm, nofun⟩, quietens_setListener hg rfl, rfl⟩ rfl
    fun _ => List.suffix_rfl

lemma rests_letGo (p : Provider) (l : ListenerId) : Rests p (p.letGo l) :=
  (rests_setListener fun _ _ hv => absurd hv.2.1 (by simp)).trans (rests_note rfl)

lemma rests_abortListener (p : Provider) (l : ListenerId) : Rests p (p.abortListener l) :=
  (rests_setListener fun _ _ hv => absurd hv.2.2 (by simp)).trans (rests_note rfl)

lemma rests_endListener (p : Provider) (l : ListenerId) (r : ListenerEnd) : Rests p (p.endListener l r) :=
  (rests_setListener fun _ _ hv => absurd hv.1 (by simp [Listener.isFinished])).trans
    (rests_note rfl)

lemma rests_askLock (p : Provider) (c : CallId) (e : Errand) : Rests p (p.askLock c e) := by
  have h : Rests p { p with lock := p.lock.ask c } := rests_same rfl rfl
  exact h.trans (rests_goOn (by simp))

lemma rests_drop (h : p.phaseOf c = some ph) : Rests p (p.drop c) := by
  have given : Rests p (p.giveBack ph) := by
    simp only [giveBack]
    split
    · exact rests_same rfl rfl
    · exact rests_letGo p _
    · exact rests_same rfl rfl
  simp only [drop, h, unlock]
  refine given.trans ((rests_erase _ c).trans ?_)
  split
  · exact rests_release _
  · exact rests_same rfl rfl

lemma rests_resume (s : SocketId) (hl : ∀ li, p.listeners.get? l = some li → li.isFinished = false) :
    Rests p (p.resume l s) := by
  have h : Rests p (p.setListener l fun li =>
      { li with reader := s, framer := {}, replacement := none, phase := .resting }) :=
    rests_setListener fun li hli hv => ⟨hl li hli, hv.2⟩
  have reopened : ∀ m : Provider, Rests m { m with correlator := m.correlator.reopen } :=
    fun _ => rests_same rfl rfl
  have hn := (h.trans (reopened _)).trans (rests_note (x := .resumed l) rfl)
  unfold resume
  dsimp only
  split
  · exact hn
  · exact hn.trans (rests_publish _)

lemma rests_newCall (op : Operation) : Rests p (p.newCall op) where
  toHushes := hushes_same rfl rfl rfl
  listening := rfl
  queues _ := List.suffix_rfl
  took b s v hb := by
    have hb : (p.calls.set p.nextCall { op }).get? b =
      some { op := .nextNotification s, phase := .done (.ok (.value v)) } := hb
    rw [Table.get?_set] at hb
    split at hb
    · cases hb
    · exact hb

inductive Passage (p : Provider) (a : Option CallId) : Provider → Prop where
  | rest {q : Provider} (h : Rests p q) : Passage p a q
  | takeOut {q : Provider} {c : CallId} {conn : Connection} {next : AfterTeardown} (ha : a = some c)
      (hs : p.slot = some conn) (h : Rests { p with slot := none } q)
      (hq : q.phaseOf c = some (.closing conn next)) : Passage p a q
  | connect {q : Provider} {c : CallId} {t : Backoff.Progress} {s : SocketId} (ha : a = some c)
      (hp : p.phaseOf c = some (.opening t)) (h : Rests (p.spawn s) q) : Passage p a q
  | deposit {l : ListenerId} (ha : a = none) (h : p.Reads l) (v : Json.Value) : Passage p a (p.leave l v).2
  | read {c : CallId} {s : SubscriptionId} {ph : Phase} {v : Json.Value} {k : Correlator} (ha : a = some c)
      (hc : p.calls.get? c = some { op := .nextNotification s, phase := ph }) (hp : ∀ r, ph ≠ .done r)
      (hk : p.correlator.popSubscription s = (some v, k)) :
      Passage p a ({ p with correlator := k }.finish c (.ok (.value v)))

lemma readNotification_passage {epoch : Nat}
    (hc : p.calls.get? c = some { op := .nextNotification s, phase := ph }) (hp : ∀ r, ph ≠ .done r) :
    Passage p (some c) (p.readNotification c s epoch) := by
  rw [readNotification]
  rcases p.correlator.nextNotification_cases s epoch with ⟨v, hk, hr⟩ | ⟨hk, hr⟩
  · rw [show p.correlator.nextNotification s epoch = (some (.ok v), _) from Prod.ext hr rfl]
    exact .read rfl hc hp hk
  · split
    · rename_i r k hn
      rw [hn] at hk hr
      dsimp only at hk hr
      subst hk
      refine .rest (rests_goOn fun v hv => ?_)
      cases r with
      | error f => cases hv
      | ok w => exact hr w rfl
    · exact .rest (rests_goOn (by simp))

lemma rests_takeSocket (p : Provider) : Rests p { p.takeSocket.2 with
    slot := p.slot.map fun (conn : Connection) => { conn with writer := p.nextSocket } } := by
  refine rests_same ?_ rfl
  simp only [outline, listening, Option.map_map]
  rfl

lemma Suited.silent (h : Suited p) (hp : p.phaseOf c = some ph)
    (hy : ∀ s, ph.suits (.nextNotification s) = (some s = none)) : p.Deaf c :=
  h.deaf hp fun s hs => Option.some_ne_none s (cast (hy s) hs)

lemma Suited.givesUp (h : Suited p) {d : Dispatch} {f : Failure} (hg : GivesUp F p c d f) : p.Deaf c := by
  cases hg with
  | unconnected hp | ended hp => exact h.silent hp.1 fun _ => rfl
  | unopened hp | unheard hp | unwritten hp => exact h.silent hp fun _ => rfl

lemma rests_fed {k : Correlator} {n : Nat} (hk : k.feeds = p.correlator.feeds) :
    Rests p { p with nextId := n, correlator := k } :=
  rests_same (by rw [outline, outline, show Correlator.queues _ = _ from congrArg Prod.fst hk]; rfl) rfl

lemma feeds_of_register {id : RequestId} {r : Except Failure Ticket} {k : Correlator}
    (hr : p.correlator.register id = (r, k)) : k.feeds = p.correlator.feeds := by
  rw [← Correlator.feeds_register p.correlator, hr]

lemma Rests.goOn (h : Rests p m) (hp : ∀ v, ph ≠ .done (.ok (.value v))) : Rests p (m.setPhase c ph) :=
  h.trans (rests_goOn hp)

lemma Rests.settleDispatch (h : Rests p m) (hd : p.Deaf c) (hc : m.calls = p.calls) (d : Dispatch)
    (r : Except Failure Response) : Rests p (m.settleDispatch c d r) :=
  h.trans (rests_settleDispatch (hd.same hc) d r)

lemma rests_hand (p : Provider) (l : ListenerId) (s : SocketId) :
    Rests p { (p.setListener l fun li => { li with replacement := some s }).note (.swapped l) with
      correlator := p.correlator.reopen } := by
  have h : Rests p (p.setListener l fun li => { li with replacement := some s }) :=
    rests_setListener fun _ _ hv => hv
  exact (h.trans (rests_note (x := .swapped l) rfl)).trans (rests_same rfl rfl)

theorem calm_passage (hs : Suited p) (hm : Calm F p a q) : Passage p a q := by
  cases hm with
  | call op => exact .rest (rests_newCall op)
  | seek => exact .rest (rests_askLock p _ _)
  | refuse hc hd hr =>
    refine .rest ((rests_fed (feeds_of_register hr)).trans (rests_settle (Deaf.same (fun s y h => ?_) (by rfl)) _ _))
    cases hc.symm.trans h
    cases reads_of_draw hd
  | claim hc hd hr =>
    exact .rest (((rests_fed (feeds_of_register hr)).trans (rests_note rfl)).trans (rests_askLock _ _ _))
  | collect => exact .rest (rests_erase p _)
  | drop hp => exact .rest (rests_drop hp)
  | read hp =>
    rcases hp with ⟨hc, -⟩ | hp
    · exact readNotification_passage hc (by simp)
    · obtain ⟨op, hc⟩ := call_of_phase hp
      obtain rfl : op = .nextNotification _ := hs _ op _ hc
      exact readNotification_passage hc (by simp)
  | take s =>
    exact .rest (rests_correlator rfl (hushes_same rfl rfl rfl) rfl fun i =>
      (p.correlator.popSubscription_turns s i).suffix rfl)
  | leave hh he r => exact .rest (rests_releaseAndFinish (hs.silent hh.1 fun _ => rfl) r)
  | yield hh => exact .rest ((rests_release p).trans (rests_askLock _ _ _))
  | attempt => exact .rest ((rests_publish _).goOn (by simp))
  | replace hh hn hu =>
    exact .takeOut rfl hn (rests_goOn (by simp)) (phaseOf_setPhase_self (p := { p with slot := none }) hh.1)
  | disconnect hh hn =>
    exact .takeOut rfl hn ((rests_publish _).goOn (by simp))
      (phaseOf_setPhase_self (p := { p with slot := none }.publish .closing) hh.1)
  | giveUp hg =>
    rename_i c d f
    have hw := (rests_release p).trans
      (rests_withdrawing d.request.id (·.forget d.request.id) (Correlator.feeds_forget _ _))
    exact .rest (hw.settleDispatch (hs.givesUp hg) (calls_release p) _ _)
  | reset | write | pause | retry | resetClosed | progress | breakPipe => exact .rest (rests_goOn (by simp))
  | letGo => exact .rest (((rests_letGo p _).trans (rests_abortListener _ _)).goOn (by simp))
  | connect hp =>
    have h : Rests (p.spawn p.nextSocket) (p.takeSocket.2.spawn p.nextSocket) := rests_same rfl rfl
    exact .connect rfl hp (((h.trans (rests_publish _)).trans (rests_release _)).goOn (by simp))
  | exhaust hp =>
    have hd : p.Deaf _ := hs.silent hp fun _ => rfl
    exact .rest ((rests_publish _).trans (rests_releaseAndFinish (hd.same (by rfl)) _))
  | resetOpened => exact .rest ((rests_takeSocket p).goOn (by simp))
  | hand => exact .rest ((rests_hand p _ _).goOn (by simp))
  | written => exact .rest ((rests_release p).goOn (by simp))
  | reclaim hp hc hr =>
    rename_i c d started t k
    have hk : (k.discard d.ticket).feeds = p.correlator.feeds := show k.feeds = _ from feeds_of_register hr
    exact .rest (((rests_fed hk).trans (rests_note rfl)).goOn (by simp))
  | reclaimRefused hp hc hr =>
    exact .rest ((rests_fed (feeds_of_register hr)).settleDispatch (hs.silent hp fun _ => rfl) rfl _ _)
  | receive hp hc =>
    rename_i c d started r k
    have hk : k.feeds = p.correlator.feeds := by
      rw [← Correlator.feeds_receive p.correlator d.ticket, hc]
    exact .rest ((rests_fed hk).settleDispatch (hs.silent hp fun _ => rfl) rfl _ _)
  | closedOut hp => exact .rest (rests_settleDispatch (hs.silent hp fun _ => rfl) _ _)
  | timeOut hp hc ht =>
    rename_i c d started
    have hw := rests_withdrawing (p := p) d.request.id (·.abandon d.request.id) (Correlator.feeds_abandon _ _)
    exact .rest (hw.settleDispatch (hs.silent hp fun _ => rfl) rfl _ _)
  | pop k => exact .rest ((rests_fed (Correlator.feeds_pop _ k)).trans (rests_note rfl))
  | elapse => exact .rest (rests_same rfl rfl)
  | deposit hr v => exact .deposit rfl hr v
  | work hl hf =>
    refine .rest (rests_setListener fun li hli hv => ?_)
    cases hl.symm.trans hli
    exact ⟨hf, hv.2⟩
  | resume hl hf =>
    refine .rest (rests_resume _ fun li hli => ?_)
    cases hl.symm.trans hli
    exact hf
  | retire => exact .rest (rests_endListener p _ _)

theorem upheaval_passage (hu : Upheaval p q) : Rests p q ∧ q.calls = p.calls ∨
    (∃ c l next, p.phaseOf c = some (.joining l next)) ∧
      Rests ((p.dismissing Correlator.clear).note .cleared) q := by
  cases hu with
  | tear hp hf =>
    rename_i c l next
    refine Or.inr ⟨⟨c, l, next, hp⟩, ?_⟩
    cases next with
    | connect => exact (rests_publish _).trans (rests_goOn (by simp))
    | disconnect =>
      exact (rests_publish _).trans ((rests_release _).trans (rests_goOn (by simp)))
  | orphan hr =>
    rename_i l
    refine Or.inl ⟨?_, rfl⟩
    have h := rests_dismissing (p := p) Correlator.closeByPeer (Correlator.feeds_dismiss _)
    refine (h.trans (rests_publish .disconnected)).trans (rests_setListener fun li hli hv => ?_)
    obtain ⟨lj, hj, ha⟩ := hr
    cases hj.symm.trans hli
    exact ha.live
  | fail hr hp f =>
    simp only [fault, hp]
    refine Or.inl ⟨?_, rfl⟩
    have h := rests_dismissing (p := p) (fun k => k.fail f.message) (Correlator.feeds_dismiss _)
    exact (h.trans (rests_publish .disconnected)).trans (rests_endListener _ _ _)

structure Serial (p : Provider) : Prop where
  known : ∀ (i : Nat) l, p.notes[i]? = some (.spawned l) → l < p.nextListener
  once : ∀ (i j : Nat) l, p.notes[i]? = some (.spawned l) → p.notes[j]? = some (.spawned l) → i = j
  live : ∀ l li, p.listeners.get? l = some li → li.Live → ∃ i : Nat, p.notes[i]? = some (.spawned l) ∧
    ∀ j : Nat, p.notes[j]? = some .cleared → j < i
  spoken : ∀ (k : Nat) l w r, p.notes[k]? = some (.deposited l w r) → ∃ i, i < k ∧
    p.notes[i]? = some (.spawned l) ∧ ∀ j, i < j → p.notes[j]? = some .cleared → k < j

lemma serial_new (endpoint : Endpoint) (config : Config) : Serial (new endpoint config) where
  known i l h := by simp [new] at h
  once i j l h := by simp [new] at h
  live l li h := by cases h
  spoken k l w r h := by simp [new] at h

lemma Hushes.place (h : Hushes p q) (hx : x.quiet = false) (i : Nat) :
    q.notes[i]? = some x ↔ p.notes[i]? = some x := by
  obtain ⟨ns, hn, hq⟩ := h.notes
  rw [hn]
  refine ⟨fun hi => ?_, place_append⟩
  rcases place_of_append hi with hi | ⟨-, hm⟩
  · exact hi
  · rw [hq x hm] at hx
    cases hx

lemma Serial.hush (h : Serial p) (hh : Hushes p q) : Serial q where
  known i l hi := by
    rw [hh.nextListener]
    exact h.known i l ((hh.place rfl i).mp hi)
  once i j l hi hj := h.once i j l ((hh.place rfl i).mp hi) ((hh.place rfl j).mp hj)
  live l li hl hv := by
    obtain ⟨lj, hj, hv⟩ := hh.quietens l li hl hv
    obtain ⟨i, hi, hc⟩ := h.live l lj hj hv
    exact ⟨i, (hh.place rfl i).mpr hi, fun j hj => hc j ((hh.place rfl j).mp hj)⟩
  spoken k l w r hk := by
    obtain ⟨i, hik, hi, hc⟩ := h.spoken k l w r ((hh.place rfl k).mp hk)
    exact ⟨i, hik, (hh.place rfl i).mpr hi, fun j hij hj => hc j hij ((hh.place rfl j).mp hj)⟩

lemma place_of_note {y : Note} {i : Nat} (h : (p.note y).notes[i]? = some x) :
    p.notes[i]? = some x ∨ i = p.notes.length ∧ x = y := by
  rcases place_of_append h with hi | ⟨hl, hm⟩
  · exact Or.inl hi
  · have hi := place_lt h
    simp only [note, List.length_append, List.length_singleton] at hi
    exact Or.inr ⟨by omega, List.mem_singleton.mp hm⟩

lemma place_note {y : Note} (hx : x ≠ y) (i : Nat) :
    (p.note y).notes[i]? = some x ↔ p.notes[i]? = some x :=
  ⟨fun h => (place_of_note h).resolve_right fun he => hx he.2, place_append⟩

lemma le_of_note {y : Note} {i : Nat} (h : (p.note y).notes[i]? = some x) : i ≤ p.notes.length := by
  rcases place_of_note h with h | ⟨h, -⟩
  · exact Nat.le_of_lt (place_lt h)
  · exact Nat.le_of_eq h

lemma last_of_note (p : Provider) (y : Note) : (p.note y).notes[p.notes.length]? = some y :=
  List.getElem?_concat_length

lemma Serial.spawn (h : Serial p) (s : SocketId) : Serial (p.spawn s) where
  known i l hi := by
    rcases place_of_note hi with hi | ⟨-, he⟩
    · exact Nat.lt_succ_of_lt (h.known i l hi)
    · cases he
      exact Nat.lt_succ_self _
  once i j l hi hj := by
    rcases place_of_note hi with hi | ⟨rfl, he⟩ <;> rcases place_of_note hj with hj | ⟨rfl, he'⟩
    · exact h.once i j l hi hj
    · cases he'
      exact absurd (h.known i _ hi) (Nat.lt_irrefl _)
    · cases he
      exact absurd (h.known j _ hj) (Nat.lt_irrefl _)
    · rfl
  live l li hl hv := by
    have hl : (p.listeners.set p.nextListener { reader := s }).get? l = some li := hl
    rw [Table.get?_set] at hl
    split at hl
    · exact ⟨p.notes.length, ‹_ = l› ▸ last_of_note _ _,
        fun j hj => place_lt ((place_note (by simp) j).mp hj)⟩
    · obtain ⟨i, hi, hc⟩ := h.live l li hl hv
      exact ⟨i, place_append hi, fun j hj => hc j ((place_note (by simp) j).mp hj)⟩
  spoken k l w r hk := by
    obtain ⟨i, hik, hi, hc⟩ := h.spoken k l w r ((place_note (by simp) k).mp hk)
    exact ⟨i, hik, place_append hi, fun j hij hj => hc j hij ((place_note (by simp) j).mp hj)⟩

lemma Serial.speak (h : Serial p) (hr : p.Reads l) (w : Json.Value) (r : Except Failure Deposit) :
    Serial (p.note (.deposited l w r)) where
  known i k hi := h.known i k ((place_note (by simp) i).mp hi)
  once i j k hi hj := h.once i j k ((place_note (by simp) i).mp hi) ((place_note (by simp) j).mp hj)
  live k li hl hv := by
    obtain ⟨i, hi, hc⟩ := h.live k li hl hv
    exact ⟨i, place_append hi, fun j hj => hc j ((place_note (by simp) j).mp hj)⟩
  spoken k b v t hk := by
    rcases place_of_note hk with hk | ⟨rfl, he⟩
    · obtain ⟨i, hik, hi, hc⟩ := h.spoken k b v t hk
      exact ⟨i, hik, place_append hi, fun j hij hj => hc j hij ((place_note (by simp) j).mp hj)⟩
    · cases he
      obtain ⟨li, hl, ha⟩ := hr
      -- whoever speaks goes on, and all clearances came before it was set to work
      obtain ⟨i, hi, hc⟩ := h.live l li hl ha.live
      refine ⟨i, place_lt hi, place_append hi, fun j hij hj => ?_⟩
      exact absurd (hc j ((place_note (by simp) j).mp hj)) (Nat.not_lt.mpr (Nat.le_of_lt hij))

lemma Serial.clear (h : Serial p) (hl : ∀ l li, p.listeners.get? l = some li → ¬ li.Live) :
    Serial (p.note .cleared) where
  known i k hi := h.known i k ((place_note (by simp) i).mp hi)
  once i j k hi hj := h.once i j k ((place_note (by simp) i).mp hi) ((place_note (by simp) j).mp hj)
  live k li hk hv := absurd hv (hl k li hk)
  spoken k b v t hk := by
    have hk := (place_note (by simp) k).mp hk
    obtain ⟨i, hik, hi, hc⟩ := h.spoken k b v t hk
    refine ⟨i, hik, place_append hi, fun j hij hj => ?_⟩
    rcases place_of_note hj with hj | ⟨rfl, -⟩
    · exact hc j hij hj
    · exact place_lt hk

lemma hushes_leave (p : Provider) (l : ListenerId) (w : Json.Value) :
    Hushes (p.note (.deposited l w (p.correlator.deposit w (isPush w)).1)) (p.leave l w).2 := by
  obtain ⟨ns, he, hn⟩ := p.leave_notes l w
  rw [he]
  refine ⟨⟨ns, by simp [note], fun x hx => ?_⟩, quietens_of_eq rfl, rfl⟩
  rcases hn x hx with rfl | ⟨t, rfl⟩ <;> rfl

theorem Serial.calm (h : Serial p) (hs : Suited p) (hm : Calm F p a q) : Serial q := by
  cases calm_passage hs hm with
  | rest hr => exact h.hush hr.toHushes
  | takeOut ha ho hr hq => exact Serial.hush (p := { p with slot := none }) ⟨h.1, h.2, h.3, h.4⟩ hr.toHushes
  | connect ha hp hr => exact (h.spawn _).hush hr.toHushes
  | deposit ha hr w => exact (h.speak hr w _).hush (p.hushes_leave _ w)
  | read => exact h.hush (hushes_same rfl rfl rfl)

lemma Guarded.still (h : Guarded p) {next : AfterTeardown} (hp : p.phaseOf c = some (.joining l next)) :
    ∀ k li, p.listeners.get? k = some li → ¬ li.Live := by
  intro k li hk hv
  rcases h.heard k li hk hv with hl | ⟨b, conn, next, hb, -⟩
  · rw [h.empty c _ hp rfl] at hl
    cases hl
  · cases h.alone (h.holds c _ hp rfl) hb rfl
    cases hp.symm.trans hb

lemma Serial.upheaval (h : Serial p) (hg : Guarded p) (hu : Upheaval p q) : Serial q := by
  rcases upheaval_passage hu with ⟨hr, -⟩ | ⟨⟨c, l, next, hp⟩, hr⟩
  · exact h.hush hr.toHushes
  · have hm : Hushes p (p.dismissing Correlator.clear) :=
      ⟨p.notes_dismissing _, quietens_of_eq rfl, rfl⟩
    exact ((h.hush hm).clear (hg.still hp)).hush hr.toHushes

structure Orderly (p : Provider) : Prop where
  ledger : Ledger p
  guarded : Guarded p
  suited : Suited p
  serial : Serial p

lemma orderly_new (endpoint : Endpoint) (config : Config) : Orderly (new endpoint config) :=
  ⟨ledger_new endpoint config, guarded_new endpoint config, suited_new endpoint config,
    serial_new endpoint config⟩

lemma Orderly.calm (h : Orderly p) (hm : Calm F p a q) : Orderly q :=
  ⟨h.ledger.calm hm, h.guarded.calm h.ledger.known hm, h.suited.calm hm, h.serial.calm h.suited hm⟩

lemma Orderly.upheaval (h : Orderly p) (hu : Upheaval p q) : Orderly q :=
  ⟨h.ledger.upheaval hu, h.guarded.upheaval hu, h.suited.upheaval hu,
    h.serial.upheaval h.guarded hu⟩

lemma Orderly.calms (h : Orderly p) (hm : Calms F a p q) : Orderly q :=
  chain_preserves (fun _ _ h hm => h.calm hm) h hm

theorem Orderly.steps (h : Orderly p) (es : List Event) : Orderly (p.steps es) :=
  invariant_of_moves (F := fun _ => True) (fun _ _ _ h hm => h.calm hm) (fun _ _ h hu => h.upheaval hu)
    h fun _ _ _ _ => trivial

end SocketRpc.Provider
