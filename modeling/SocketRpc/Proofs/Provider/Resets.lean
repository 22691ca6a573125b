import SocketRpc.Proofs.Provider.Deeds
import SocketRpc.Proofs.Transport

namespace SocketRpc.Provider

variable {p q m : Provider} {c : CallId} {l : ListenerId} {d : Dispatch} {ph : Phase} {e : Event} {es : List Event}
  {f : Failure} {s n : SocketId} {bs : Bytes} {st : Bool} {ds : List Deed} {cause : ResetCause}
  {conn : Connection} {out : Outgoing}

def ResetCause.lead (s : SocketId) (bs : Bytes) : ResetCause → List Deed
  | .peerClosed => []
  | .brokenPipe first _ => [.writes s bs, .wrote (.error first)]

def ResetCause.stale : ResetCause → Bool
  | .peerClosed => true
  | .brokenPipe _ _ => false

inductive Effort (s : SocketId) (bs : Bytes) : Bool → List Deed → Option (Except Failure Unit) → Prop where
  | writing : Effort s bs false [.writes s bs] none
  | written : Effort s bs false [.writes s bs, .wrote (.ok ())] (some (.ok ()))
  | unwritten {f : Failure} (hf : f.isBrokenPipe = false) :
      Effort s bs false [.writes s bs, .wrote (.error f)] (some (.error f))
  | closing (cause : ResetCause) : Effort s bs cause.stale (cause.lead s bs ++ [.closes s]) none
  | opening (cause : ResetCause) : Effort s bs cause.stale (cause.lead s bs ++ [.closes s, .opens]) none
  | unopened (cause : ResetCause) (f : Failure) :
      Effort s bs cause.stale (cause.lead s bs ++ [.closes s, .opens, .opened (.error f)])
        (some (.error (cause.report f)))
  | handing (cause : ResetCause) (n : SocketId) :
      Effort s bs cause.stale (cause.lead s bs ++ [.closes s, .opens, .opened (.ok n)]) none
  | unheard (cause : ResetCause) (n : SocketId) (f : Failure) :
      Effort s bs cause.stale (cause.lead s bs ++ [.closes s, .opens, .opened (.ok n), .handed (.error f)])
        (some (.error (cause.report f)))
  | rewriting (cause : ResetCause) (n : SocketId) :
      Effort s bs cause.stale
        (cause.lead s bs ++ [.closes s, .opens, .opened (.ok n), .handed (.ok n), .writes n bs]) none
  | rewritten (cause : ResetCause) (n : SocketId) (r : Except Failure Unit) :
      Effort s bs cause.stale
        (cause.lead s bs ++ [.closes s, .opens, .opened (.ok n), .handed (.ok n), .writes n bs, .wrote r]) (some r)

inductive Underway (q : Provider) (c : CallId) (d : Dispatch) (s : SocketId) (l : ListenerId) :
    Bool → List Deed → Prop where
  | writes {out : Outgoing} (hp : q.phaseOf c = some (.writing d out none)) (hs : q.slot = some ⟨s, l⟩) :
      Underway q c d s l false [.writes s (Utf8.ofText d.request.encode)]
  | closes {cause : ResetCause} (hp : q.phaseOf c = some (.resetClosing d cause)) (hs : q.slot = some ⟨s, l⟩) :
      Underway q c d s l cause.stale (cause.lead s (Utf8.ofText d.request.encode) ++ [.closes s])
  | opens {cause : ResetCause} (hp : q.phaseOf c = some (.resetOpening d cause)) (hs : q.slot = some ⟨s, l⟩) :
      Underway q c d s l cause.stale (cause.lead s (Utf8.ofText d.request.encode) ++ [.closes s, .opens])
  | hands {cause : ResetCause} {n : SocketId} (hp : q.phaseOf c = some (.handing d cause n))
      (hs : q.slot = some ⟨n, l⟩) :
      Underway q c d s l cause.stale
        (cause.lead s (Utf8.ofText d.request.encode) ++ [.closes s, .opens, .opened (.ok n)])
  | rewrites {cause : ResetCause} {n : SocketId} {out : Outgoing}
      (hp : q.phaseOf c = some (.writing d out (some cause))) (hs : q.slot = some ⟨n, l⟩) :
      Underway q c d s l cause.stale
        (cause.lead s (Utf8.ofText d.request.encode) ++
          [.closes s, .opens, .opened (.ok n), .handed (.ok n), .writes n (Utf8.ofText d.request.encode)])

lemma Underway.effort (h : Underway q c d s l st ds) :
    Effort s (Utf8.ofText d.request.encode) st ds none := by
  cases h with
  | writes => exact .writing
  | closes => exact .closing _
  | opens => exact .opening _
  | hands => exact .handing _ _
  | rewrites => exact .rewriting _ _

lemma Underway.phase (h : Underway q c d s l st ds) :
    ∃ ph conn, q.phaseOf c = some ph ∧ ph.uses ∧ q.slot = some conn := by
  cases h with
  | writes hp hs | closes hp hs | opens hp hs | hands hp hs | rewrites hp hs => exact ⟨_, _, hp, rfl, hs⟩

lemma Underway.of_same (h : Underway p c d s l st ds) (hp : q.phaseOf c = p.phaseOf c) (hs : q.slot = p.slot) :
    Underway q c d s l st ds := by
  cases h with
  | writes hp' hs' => exact .writes (hp.trans hp') (hs.trans hs')
  | closes hp' hs' => exact .closes (hp.trans hp') (hs.trans hs')
  | opens hp' hs' => exact .opens (hp.trans hp') (hs.trans hs')
  | hands hp' hs' => exact .hands (hp.trans hp') (hs.trans hs')
  | rewrites hp' hs' => exact .rewrites (hp.trans hp') (hs.trans hs')

lemma offer_congr (hs : q.listening = p.listening) (hl : q.listeners = p.listeners)
    (hk : q.correlator = p.correlator) (n : SocketId) : q.offer n = p.offer n := by
  unfold offer isFinished
  rw [hs, hl, hk]

inductive HandsOver (m : Provider) (c : CallId) (d : Dispatch) (cause : ResetCause) (n : SocketId) :
    Option (Except Failure SocketId) → Provider → Prop where
  | waits : HandsOver m c d cause n none m
  | fails (f : Failure) : HandsOver m c d cause n (some (.error f)) (m.failSend c d (cause.report f))
  | renews {q : Provider} {x : Listener}
      (hp : q.phaseOf c = some (.writing d (.ofText d.request.encode) (some cause))) (hs : q.slot = m.slot)
      (hk : q.correlator = m.correlator.reopen) (hu : Unsettled m c q)
      (hl : q.listening.bind q.listeners.get? = some x) (hr : x.replacement = some n) :
      HandsOver m c d cause n (some (.ok n)) q

lemma hand_offer (hp : m.phaseOf c = some (.handing d cause n)) (hs : m.slot = some conn) :
    HandsOver m c d cause n (m.offer n) (m.hand c d cause n) := by
  have listens : ∀ x : Provider, x.slot = m.slot → x.listening = some conn.listener := fun x hx => by
    rw [listening, hx, hs]
    rfl
  simp only [offer, listens m rfl, hand, hs]
  split
  · rw [resetFailed_eq]
    exact .fails _
  · rename_i hf
    cases hr : (m.listeners.get? conn.listener).bind Listener.replacement with
    | some t => exact .waits
    | none =>
      obtain ⟨li, hli⟩ : ∃ li, m.listeners.get? conn.listener = some li := by
        rw [← Option.isSome_iff_exists]
        cases h : m.listeners.get? conn.listener with
        | none => simp [isFinished, h] at hf
        | some li => rfl
      refine .renews (x := { li with replacement := some n })
        (phaseOf_setPhase_self (p := { (m.setListener conn.listener _).note _ with correlator := _ }) hp) rfl rfl
        (unsettled_tacit ⟨[.swapped conn.listener], rfl, by simp [Note.tacit]⟩ c) ?_ rfl
      have hl : Table.get? (m.listeners.modify conn.listener fun li => { li with replacement := some n })
          conn.listener = some { li with replacement := some n } := by simp [hli]
      exact (congrArg (Option.bind · _) (listens _ rfl)).trans hl

lemma phaseOf_failSend (hp : m.phaseOf c = some ph) (d : Dispatch) (f : Failure) :
    ∃ z, (m.failSend c d f).phaseOf c = some (.done z) :=
  phaseOf_settle (m := { m.release.withdrawing d.request.id (·.forget d.request.id) with correlator := _ })
    ((phaseOf_release m c).trans hp) d.request (.error f)

lemma asked_rests (h : ∃ ph', q.phaseOf c = some ph' ∧ ph'.rests) (ph : Phase) : q.asked c ph = none := by
  obtain ⟨ph', hp, hr⟩ := h
  refine asked_none fun ph'' hp' => Or.inr fun s => ?_
  cases hp.symm.trans hp'
  cases ph' <;> first | rfl | cases hr

lemma asked_failSend (hp : m.phaseOf c = some ph) (d : Dispatch) (f : Failure) (old : Phase) :
    (m.failSend c d f).asked c old = none := by
  obtain ⟨z, hz⟩ := phaseOf_failSend hp d f
  exact asked_rests ⟨_, hz, rfl⟩ old

inductive Onward (p : Provider) (c : CallId) (d : Dispatch) (s : SocketId) (l : ListenerId) (st : Bool)
    (ds : List Deed) (q : Provider) : Prop where
  | goes (h : Underway q c d s l st ds) (hk : q.correlator = p.correlator) (hu : Unsettled p c q)
  | renews {out : Outgoing} {cause : ResetCause} (h : Underway q c d s l st ds)
      (hp : q.phaseOf c = some (.writing d out (some cause))) (hk : q.correlator = p.correlator.reopen)
      (hu : Unsettled p c q)
  | fails {f : Failure} {m : Provider} {ph : Phase}
      (h : Effort s (Utf8.ofText d.request.encode) st ds (some (.error f))) (hp : m.phaseOf c = some ph)
      (hn : m.notes = p.notes) (hk : m.correlator = p.correlator) (hq : q = m.failSend c d f)
  | succeeds (h : Effort s (Utf8.ofText d.request.encode) st ds (some (.ok ())))
      (hq : ∃ ph, q.phaseOf c = some ph ∧ ph.rests)
  | leaves (h : Effort s (Utf8.ofText d.request.encode) st ds none) (hq : q.phaseOf c = none)

lemma deed_sink {after : Option ResetCause} {a : SinkAnswer} {r : Except Failure Unit}
    (hp : p.phaseOf c = some (.writing d out after)) (ha : out.step a = .done r) :
    p.deed c (.sink c a) = .wrote r :: ((p.sink c a).asked c (.writing d out after)).toList := by
  rw [deed_of_phase rfl hp]
  simp only [Phase.told, Phase.inHand, ha]
  rfl

lemma deed_more {after : Option ResetCause} {a : SinkAnswer} {o : Outgoing}
    (hp : p.phaseOf c = some (.writing d out after)) (ha : out.step a = .more o) :
    p.sink c a = p.setPhase c (.writing d o after) ∧ p.deed c (.sink c a) = [] := by
  have hq : p.sink c a = p.setPhase c (.writing d o after) := by simp only [sink, hp, ha]
  refine ⟨hq, ?_⟩
  have hasked : (p.step (.sink c a)).asked c (.writing d out after) = none := by
    refine asked_none fun ph hph => Or.inl ?_
    rw [Provider.step, hq, phaseOf_setPhase_self hp] at hph
    cases hph
    exact List.isSuffixOf_iff_suffix.mpr ⟨out.taken a, Outgoing.left_of_more ha⟩
  rw [deed_of_phase rfl hp, hasked]
  simp only [Phase.told, Phase.inHand, ha]
  rfl

lemma sink_ok {after : Option ResetCause} {a : SinkAnswer} (hp : p.phaseOf c = some (.writing d out after))
    (ha : out.step a = .done (.ok ())) :
    (∃ ph, (p.sink c a).phaseOf c = some ph ∧ ph.rests) ∧ p.deed c (.sink c a) = [.wrote (.ok ())] := by
  have hw : (p.release.setPhase c (.awaiting d p.now)).phaseOf c = some (.awaiting d p.now) :=
    phaseOf_setPhase_self ((phaseOf_release p c).trans hp)
  have hr : ∃ ph, (p.sink c a).phaseOf c = some ph ∧ ph.rests := by
    simp only [sink, hp, ha]
    split
    · exact phaseOf_awaitAfterReset hw rfl d
    · exact phaseOf_await hw rfl d _
  exact ⟨hr, by rw [deed_sink hp ha, asked_rests hr]; rfl⟩

lemma sink_error {after : Option ResetCause} {a : SinkAnswer} (hp : p.phaseOf c = some (.writing d out after))
    (ha : out.step a = .done (.error f)) (hf : after.isSome ∨ f.isBrokenPipe = false) :
    p.sink c a = p.failSend c d f ∧ p.deed c (.sink c a) = [.wrote (.error f)] := by
  have hq : p.sink c a = p.failSend c d f := by
    simp only [sink, hp, ha]
    refine dif_neg fun h => ?_
    rcases hf with hf | hf
    · simp [Option.isNone_iff_eq_none.mp h.1] at hf
    · simp [h.2] at hf
  exact ⟨hq, by rw [deed_sink hp ha, hq, asked_failSend hp]; rfl⟩

lemma sink_broken {a : SinkAnswer} (hp : p.phaseOf c = some (.writing d out none)) (hs : p.slot = some ⟨s, l⟩)
    (ha : out.step a = .done (.error f)) (hf : f.isBrokenPipe = true) :
    p.sink c a = p.setPhase c (.resetClosing d (.brokenPipe f hf)) ∧
      p.deed c (.sink c a) = [.wrote (.error f), .closes s] := by
  have hq : p.sink c a = p.setPhase c (.resetClosing d (.brokenPipe f hf)) := by
    simp only [sink, hp, ha]
    exact dif_pos ⟨rfl, hf⟩
  refine ⟨hq, ?_⟩
  rw [deed_sink hp ha, hq, asked_of_phase (phaseOf_setPhase_self hp) hs]
  rfl

lemma closed_deed (hp : p.phaseOf c = some (.resetClosing d cause)) (hs : p.slot = some ⟨s, l⟩) :
    p.closed c = p.setPhase c (.resetOpening d cause) ∧ p.deed c (.closed c) = [.opens] := by
  have hq : p.closed c = p.setPhase c (.resetOpening d cause) := by simp only [Provider.closed, hp]
  refine ⟨hq, ?_⟩
  have ha : (p.step (.closed c)).asked c (.resetClosing d cause) = some .opens := by
    rw [Provider.step, hq, asked_of_phase (phaseOf_setPhase_self hp) hs]
    rfl
  rw [deed_of_phase rfl hp, ha]
  rfl

lemma opened_error (hp : p.phaseOf c = some (.resetOpening d cause)) (f : Failure) :
    p.opened c (.error f) = p.failSend c d (cause.report f) ∧
      p.deed c (.opened c (.error f)) = [.opened (.error f)] := by
  have hq : p.opened c (.error f) = p.failSend c d (cause.report f) := by
    simp only [opened, hp]
    exact resetFailed_eq p c d cause f
  refine ⟨hq, ?_⟩
  rw [deed_of_phase rfl hp, Provider.step, hq, asked_failSend hp]
  rfl

lemma HandsOver.onward {r : Option (Except Failure SocketId)} (h : HandsOver m c d cause n r q)
    (hp : m.phaseOf c = some (.handing d cause n)) (hs : m.slot = some ⟨n, l⟩) (hn : m.notes = p.notes)
    (hk : m.correlator = p.correlator) (old : Phase) (ho : ∀ out after, old.goesOn (.writing d out after) = false) :
    Onward p c d s l cause.stale
      (cause.lead s (Utf8.ofText d.request.encode) ++ [.closes s, .opens, .opened (.ok n)] ++
        (r.toList.map Deed.handed ++ (q.asked c old).toList)) q := by
  have same : Unsettled p c m := unsettled_same hn
  cases h with
  | waits =>
    have ha : q.asked c old = none := asked_none fun ph hph => Or.inr fun s => by
      cases hp.symm.trans hph
      rfl
    rw [ha]
    exact .goes (by simpa using Underway.hands hp hs) hk same
  | fails f =>
    rw [asked_failSend hp]
    exact .fails (by simpa using Effort.unheard cause n f) hp hn hk rfl
  | renews hq hs' hk' hu hl hr =>
    have ha : q.asked c old = some (.writes n (Utf8.ofText d.request.encode)) := by
      simp only [asked_of_phase hq (hs'.trans hs), ho, Phase.asks, Outgoing.ofText, Bool.false_eq_true, if_false]
    rw [ha]
    exact .renews (by simpa using Underway.rewrites hq (hs'.trans hs)) hq (hk'.trans (congrArg _ hk)) (same.trans hu)

lemma opened_hand (hp : p.phaseOf c = some (.resetOpening d cause)) (hs : p.slot = some conn) :
    ∃ m : Provider, m.phaseOf c = some (.handing d cause p.nextSocket) ∧
      m.slot = some { conn with writer := p.nextSocket } ∧ m.notes = p.notes ∧ m.correlator = p.correlator ∧
      m.offer p.nextSocket = p.offer p.nextSocket ∧
      p.opened c (.ok ()) = m.hand c d cause p.nextSocket := by
  let m := { p.takeSocket.2 with
    slot := p.slot.map fun (conn : Connection) => { conn with writer := p.nextSocket } }.setPhase c
      (.handing d cause p.nextSocket)
  have hm : m.phaseOf c = some (.handing d cause p.nextSocket) :=
    phaseOf_setPhase_self (p := { p.takeSocket.2 with slot := _ }) hp
  have hms : m.slot = some { conn with writer := p.nextSocket } := by
    simp only [m, setPhase, hs, Option.map_some]
  refine ⟨m, hm, hms, rfl, rfl, ?_, ?_⟩
  · exact offer_congr (q := m) (p := p) (by simp only [listening, hms, hs, Option.map_some]) rfl rfl _
  · simp only [opened, hp]
    rfl

lemma opened_onward (hp : p.phaseOf c = some (.resetOpening d cause)) (hs : p.slot = some ⟨s, l⟩)
    (r : Except Failure Unit) :
    Onward p c d s l cause.stale
      (cause.lead s (Utf8.ofText d.request.encode) ++ [.closes s, .opens] ++ p.deed c (.opened c r))
      (p.opened c r) := by
  cases r with
  | error f =>
    obtain ⟨hq, hd⟩ := opened_error hp f
    rw [hd]
    exact .fails (by simpa using Effort.unopened cause f) hp rfl rfl hq
  | ok u =>
    cases u
    obtain ⟨m, hm, hms, hn, hk, ho, hq⟩ := opened_hand hp hs
    have hh := (hand_offer hm hms).onward (p := p) (s := s) hm hms hn hk (.resetOpening d cause) fun _ _ => rfl
    rw [← hq, ho] at hh
    rw [deed_of_phase rfl hp, Provider.step]
    simpa [Phase.told, Phase.inHand, Except.map] using hh

lemma handed_onward (hp : p.phaseOf c = some (.handing d cause n)) (hs : p.slot = some ⟨n, l⟩) :
    Onward p c d s l cause.stale
      (cause.lead s (Utf8.ofText d.request.encode) ++ [.closes s, .opens, .opened (.ok n)] ++ p.deed c (.turn c))
      (p.turn c) := by
  obtain ⟨op, hc⟩ := call_of_phase hp
  have hq : p.turn c = p.hand c d cause n := by simp only [turn, hc]
  have hh := (hand_offer hp hs).onward (p := p) (s := s) hp hs rfl rfl (.handing d cause n) fun _ _ => rfl
  rw [← hq] at hh
  rw [deed_of_phase rfl hp, Provider.step]
  simpa [Phase.told, Phase.inHand] using hh

lemma Underway.sunk {a : SinkAnswer} (h : Underway p c d s l st ds) {after : Option ResetCause}
    (hp : p.phaseOf c = some (.writing d out after)) :
    Onward p c d s l st (ds ++ p.deed c (.sink c a)) (p.sink c a) := by
  cases ha : out.step a with
  | more o =>
    obtain ⟨hq, hd⟩ := deed_more hp ha
    have hq' : (p.setPhase c (.writing d o after)).phaseOf c = some (.writing d o after) := phaseOf_setPhase_self hp
    rw [hq, hd, List.append_nil]
    refine .goes ?_ rfl (unsettled_same rfl)
    cases h with
    | writes hp' hs =>
      cases hp.symm.trans hp'
      exact .writes hq' hs
    | rewrites hp' hs =>
      cases hp.symm.trans hp'
      exact .rewrites hq' hs
    | closes hp' | opens hp' | hands hp' => cases hp.symm.trans hp'
  | done r =>
    cases h with
    | writes hp' hs =>
      cases hp.symm.trans hp'
      cases r with
      | ok =>
        obtain ⟨hr, hd⟩ := sink_ok hp ha
        exact .succeeds (hd ▸ .written) hr
      | error f =>
        cases hf : f.isBrokenPipe with
        | false =>
          obtain ⟨hq, hd⟩ := sink_error hp ha (Or.inr hf)
          exact .fails (hd ▸ .unwritten hf) hp rfl rfl hq
        | true =>
          obtain ⟨hq, hd⟩ := sink_broken hp hs ha hf
          rw [hd, hq]
          have hw : Underway (p.setPhase c (.resetClosing d (.brokenPipe f hf))) c d s l false _ :=
            @Underway.closes _ _ _ _ _ (.brokenPipe f hf) (phaseOf_setPhase_self hp) hs
          exact .goes hw rfl (unsettled_same rfl)
    | rewrites hp' hs =>
      rename_i cause n out'
      cases hp.symm.trans hp'
      have effort : ∀ {r}, p.deed c (.sink c a) = [.wrote r] → Effort s (Utf8.ofText d.request.encode) cause.stale
          (cause.lead s (Utf8.ofText d.request.encode) ++ [.closes s, .opens, .opened (.ok n), .handed (.ok n),
            .writes n (Utf8.ofText d.request.encode)] ++ p.deed c (.sink c a)) (some r) := fun {r} hd => by
        rw [hd]
        simpa using Effort.rewritten cause n r
      cases r with
      | ok =>
        obtain ⟨hr, hd⟩ := sink_ok hp ha
        exact .succeeds (effort hd) hr
      | error f =>
        obtain ⟨hq, hd⟩ := sink_error hp ha (Or.inl rfl)
        exact .fails (effort hd) hp rfl rfl hq
    | closes hp' | opens hp' | hands hp' => cases hp.symm.trans hp'

theorem Underway.step (h : Underway p c d s l st ds) (hk : c < p.nextCall) (hs : p.subject e = some c) :
    Onward p c d s l st (ds ++ p.deed c e) (p.step e) := by
  obtain ⟨ph, conn, hp, hu, hsl⟩ := h.phase
  cases hh : ph.heeds e with
  | false =>
    rw [deed_unheeded hk hp hs hh, step_unheeded hk hp hs hh, List.append_nil]
    exact .goes h rfl (unsettled_same rfl)
  | true =>
    by_cases hd : e = .drop c
    · have ht : ph.told p.nextSocket e = none ∧ ph.inHand p.nextSocket e = none := by
        rw [hd]
        cases ph <;> exact ⟨rfl, rfl⟩
      have hq : (p.step e).phaseOf c = none := hd ▸ phaseOf_drop hp
      have ha : (p.step e).asked c ph = none := asked_none fun ph' hp' => by cases hq.symm.trans hp'
      rw [deed_of_phase hs hp, ht.1, ht.2, ha]
      exact .leaves (by simpa using h.effort) hq
    · cases e with
      | turn b =>
        cases hs
        cases h with
        | hands hp' hs' => exact handed_onward hp' hs'
        | writes hp' | closes hp' | opens hp' | rewrites hp' =>
          cases hp.symm.trans hp'
          cases hh
      | closed b =>
        cases hs
        cases h with
        | closes hp' hs' =>
          obtain ⟨hq, hd⟩ := closed_deed hp' hs'
          rw [Provider.step, hq, hd]
          refine .goes ?_ rfl (unsettled_same rfl)
          simpa using Underway.opens (phaseOf_setPhase_self hp') hs'
        | writes hp' | opens hp' | hands hp' | rewrites hp' =>
          cases hp.symm.trans hp'
          cases hh
      | opened b r =>
        cases hs
        cases h with
        | opens hp' hs' => exact opened_onward hp' hs' r
        | writes hp' | closes hp' | hands hp' | rewrites hp' =>
          cases hp.symm.trans hp'
          cases hh
      | sink b a =>
        cases hs
        cases ph with
        | writing d' out after =>
          obtain rfl : d' = d := by
            cases h with
            | writes hp' | rewrites hp' =>
              cases hp.symm.trans hp'
              rfl
            | closes hp' | opens hp' | hands hp' => cases hp.symm.trans hp'
          exact h.sunk hp
        | _ => cases hh
      | drop b =>
        cases hs
        exact absurd rfl hd
      | call | listen | arrive | collect | pop | take | elapse =>
        cases ph <;> first | exact absurd hu Bool.false_ne_true | exact absurd hh Bool.false_ne_true

/-- A turn gets a call to the connection with a request to write: it has the lock, or takes it at once. -/
inductive Reaches (p : Provider) (c : CallId) (d : Dispatch) : Prop where
  | holds (h : p.Holds c (.send d))
  | begins {op : Operation} {n : Nat} {k : Correlator} (h : p.calls.get? c = some { op })
      (hd : p.draw op = some (d.request, n)) (hr : p.correlator.register d.request.id = (.ok d.ticket, k))
      (hl : p.lock.holder = none)

lemma begin_drawn {op : Operation} {r : Request} {n : Nat} (hd : p.draw op = some (r, n)) :
    p.begin c op = { p with nextId := n }.beginSend c r := by
  cases op <;> cases hd <;> rfl

lemma turn_start {op : Operation} (h : p.calls.get? c = some { op }) : p.turn c = p.begin c op := by
  simp only [turn, h]

def Phase.comes (ph : Phase) : Prop := ph = .start ∨ ∃ d, ph = .locking (.send d)

lemma Reaches.turn (h : p.Reaches c d) :
    ∃ m ph, p.turn c = m.sendLocked c d ∧ m.Holds c (.send d) ∧ m.slot = p.slot ∧ m.listeners = p.listeners ∧
      m.correlator.peerClosed = p.correlator.peerClosed ∧ Unsettled p c m ∧ p.phaseOf c = some ph ∧ ph.comes := by
  cases h with
  | holds h =>
    obtain ⟨op, hc⟩ := call_of_phase h.1
    refine ⟨p, _, ?_, h, rfl, rfl, rfl, unsettled_same rfl, h.1, Or.inr ⟨d, rfl⟩⟩
    simp only [Provider.turn, hc, h.2, if_true, perform]
  | begins h hd hr hl =>
    rename_i op n k
    have hp : p.phaseOf c = some .start := phaseOf_of_call h
    let m := ({ p with nextId := n, correlator := k }.note (.claimed c d.request d.ticket)).askLock c (.send d)
    have hm : m.Holds c (.send d) := holds_askLock (p := { p with nextId := n, correlator := k }.note _) hp hl
    refine ⟨m, _, ?_, hm, rfl, rfl, ?_, ⟨[.claimed c d.request d.ticket], rfl, rfl⟩, hp, Or.inl rfl⟩
    · rw [turn_start h, begin_drawn hd]
      simp only [beginSend, hr, run, withLock, note, hl]
      rfl
    · have := congrArg Correlator.peerClosed (p.correlator.subscriptions_register d.request.id)
      rwa [hr] at this

lemma Phase.comes.begins (h : ph.comes) (p : Provider) (c : CallId) :
    ph.told p.nextSocket (.turn c) = none ∧ ph.inHand p.nextSocket (.turn c) = none ∧
      ∀ ph', ph.goesOn ph' = false := by
  obtain rfl | ⟨d, rfl⟩ := h <;> exact ⟨rfl, rfl, fun _ => rfl⟩

lemma Reaches.underway (h : p.Reaches c d) (hs : p.slot = some ⟨s, l⟩) (hf : p.isFinished l = false) :
    Underway (p.turn c) c d s l p.correlator.peerClosed (p.deed c (.turn c)) ∧ Unsettled p c (p.turn c) := by
  obtain ⟨m, ph, ht, hm, hms, hml, hmc, hu, hp, hph⟩ := h.turn
  obtain ⟨htold, hhand, hon⟩ := hph.begins p c
  have hdeed : ∀ {ph' : Phase}, p.turn c = m.setPhase c ph' → p.deed c (.turn c) = (ph'.asks s).toList :=
    fun {ph'} he => by
      have hq : (p.turn c).phaseOf c = some ph' := he ▸ phaseOf_setPhase_self hm.1
      have hqs : (p.turn c).slot = some ⟨s, l⟩ := by rw [he]; exact hms.trans hs
      rw [deed_of_phase rfl hp, htold, hhand, Provider.step, asked_of_phase hq hqs, hon]
      rfl
  have hfin : m.isFinished l = false := by rw [isFinished, hml]; exact hf
  simp only [sendLocked, hms, hs, hfin, hmc] at ht
  have settled : ∀ {ph'}, p.turn c = m.setPhase c ph' → Unsettled p c (p.turn c) := fun he =>
    he ▸ hu.trans (unsettled_same rfl)
  cases hc : p.correlator.peerClosed with
  | true =>
    have he : p.turn c = m.setPhase c (.resetClosing d .peerClosed) := by simpa [hc] using ht
    refine ⟨?_, settled he⟩
    have hd : p.deed c (.turn c) = [.closes s] := hdeed he
    rw [hd, he]
    exact @Underway.closes _ _ _ _ _ .peerClosed (phaseOf_setPhase_self hm.1) (hms.trans hs)
  | false =>
    have he : p.turn c = m.setPhase c (.writing d (.ofText d.request.encode) none) := by
      simpa [hc, beginWrite] using ht
    refine ⟨?_, settled he⟩
    have hd : p.deed c (.turn c) = [.writes s (Utf8.ofText d.request.encode)] := by
      simp only [hdeed he, Phase.asks, Outgoing.ofText, Option.toList_some]
    rw [hd, he]
    exact .writes (phaseOf_setPhase_self hm.1) (hms.trans hs)

inductive Account (q : Provider) (c : CallId) (d : Dispatch) (s : SocketId) (l : ListenerId) (st : Bool)
    (ds : List Deed) (rs : List (Except Failure Response)) : Prop where
  | underway (h : Underway q c d s l st ds) (hr : rs = [])
  | failed {f : Failure} (h : Effort s (Utf8.ofText d.request.encode) st ds (some (.error f)))
      (hq : Over q c fun _ => True) (hr : rs = [.error f])
  | passed {o : Option (Except Failure Unit)} (h : Effort s (Utf8.ofText d.request.encode) st ds o)
      (ho : ∀ f, o ≠ some (.error f)) (hq : AtRest q c)

lemma notes_failSend (m : Provider) (c : CallId) (d : Dispatch) (f : Failure) :
    ∃ ns, (m.failSend c d f).notes = m.notes ++ (ns ++ [.settled c d.request (.error f)]) ∧ ∀ x ∈ ns, x.tacit := by
  obtain ⟨ns, hn, hs⟩ := (stays_release (p := m)).notes
  have hf := (frame_settleDispatch (m.release.withdrawing d.request.id (·.forget d.request.id)) c d (.error f)).1.notes
  refine ⟨ns ++ (m.release.correlator.waiting.get? d.request.id.key).toList.map Note.answered, ?_, fun x hx => ?_⟩
  · exact hf.trans (by simp [withdrawing, hn])
  · rcases List.mem_append.mp hx with hx | hx
    · exact hs x hx
    · obtain ⟨t, -, rfl⟩ := List.mem_map.mp hx
      rfl

lemma Account.step {p : Provider} {es : List Event}
    (h : Account (p.steps es) c d s l st (p.deeds c es) (p.settlements c es)) (ho : Orderly (p.steps es))
    (hk : c < (p.steps es).nextCall) (e : Event) :
    Account (p.steps (es ++ [e])) c d s l st (p.deeds c (es ++ [e])) (p.settlements c (es ++ [e])) := by
  have hk' : c < ((p.steps es).step e).nextCall := Nat.lt_of_lt_of_le hk (nextCall_le _ e)
  rw [deeds_snoc, steps_snoc]
  cases h with
  | underway h hr =>
    by_cases hs : (p.steps es).subject e = some c
    · cases h.step hk hs with
      | goes h _ hu | renews h _ _ hu => exact .underway h (hu.settlements_snoc.trans hr)
      | @fails f m ph he hp hn _ hq =>
        obtain ⟨ns, hms, ht⟩ := notes_failSend m c d f
        obtain ⟨z, hz⟩ := phaseOf_failSend hp d f
        refine .failed he ⟨hk', fun ph hph => ⟨z, ?_, trivial⟩⟩ ?_
        · rw [hq, hz] at hph
          exact (Option.some.inj hph).symm
        · rw [settlements_snoc (by rw [hq, hms, hn]), hr, List.filterMap_append, settles_tacit ht]
          simp [Note.settles]
      | succeeds he hq =>
        obtain ⟨ph, hph, hrest⟩ := hq
        exact .passed he (fun _ h => by cases h) ⟨hk', fun ph' hp' => Option.some.inj (hph.symm.trans hp') ▸ hrest⟩
      | leaves he hq => exact .passed he (fun _ h => by cases h) ⟨hk', fun ph hp => by cases hq.symm.trans hp⟩
    · -- nobody else gets at the connection as long as the call works on it
      obtain ⟨ph, conn, hp, hu, -⟩ := h.phase
      rw [deed_other hs, List.append_nil]
      refine .underway (h.of_same (phaseOf_other hs) (slot_other ho hp (Phase.guarded_of_uses hu) hs)) ?_
      exact (unsettled_step ho (Or.inl hs)).settlements_snoc.trans hr
  | failed he hq hr =>
    rw [hq.atRest.deed, List.append_nil]
    exact .failed he (hq.steps [e]) ((unsettled_step ho (Or.inr hq)).settlements_snoc.trans hr)
  | passed he hne hq =>
    rw [hq.deed, List.append_nil]
    exact .passed he hne (hq.step e)

theorem Reaches.account (h : p.Reaches c d) (ho : Orderly p) (hs : p.slot = some ⟨s, l⟩)
    (hf : p.isFinished l = false) (es : List Event) :
    Account (p.steps (.turn c :: es)) c d s l p.correlator.peerClosed (p.deeds c (.turn c :: es))
        (p.settlements c (.turn c :: es)) ∧
      c < (p.steps (.turn c :: es)).nextCall := by
  induction es using List.reverseRecOn with
  | nil =>
    obtain ⟨hw, hu⟩ := h.underway hs hf
    obtain ⟨m, ph, -, -, -, -, -, -, hp, -⟩ := h.turn
    have hk := Nat.lt_of_lt_of_le (ho.ledger.known c (isSome_of_phase hp)) (nextCall_le p (.turn c))
    have hd : p.deeds c [.turn c] = p.deed c (.turn c) := List.append_nil _
    have hr : p.settlements c [] = [] := by simp [settlements, steps]
    refine ⟨.underway (hd ▸ hw) ?_, hk⟩
    have hu : Unsettled (p.steps []) c ((p.steps []).step (.turn c)) := hu
    exact hu.settlements_snoc.trans hr
  | append_singleton es e ih =>
    rw [← List.cons_append]
    refine ⟨ih.1.step (ho.steps _) ih.2 e, ?_⟩
    rw [steps_snoc]
    exact Nat.lt_of_lt_of_le ih.2 (nextCall_le _ e)

namespace Deed

@[simp] def payload? : Deed → Option Bytes
  | writes _ bs => some bs
  | _ => none

@[simp] def outcome? : Deed → Option (Except Failure Unit)
  | wrote r => some r
  | _ => none

@[simp] def isClose : Deed → Bool
  | closes _ => true
  | _ => false

end Deed

def payloads (ds : List Deed) : List Bytes := ds.filterMap Deed.payload?

def outcomes (ds : List Deed) : List (Except Failure Unit) := ds.filterMap Deed.outcome?

def Renews (ds : List Deed) : Prop := ∃ n, .handed (.ok n) ∈ ds

def ResetFails (ds : List Deed) (f : Failure) : Prop := .opened (.error f) ∈ ds ∨ .handed (.error f) ∈ ds

structure Sparing (bs : Bytes) (ds : List Deed) : Prop where
  opens : ds.count .opens ≤ 1
  outcomes : (outcomes ds).length ≤ (payloads ds).length
  payloads : ∃ k, k ≤ 2 ∧ payloads ds = List.replicate k bs
  renewed : ds.Pairwise fun x y => ∀ n t b, x = .opened (.ok n) → y = .writes t b → t = n

/-- Something is written right away, and again once the socket was replaced, if the pipe was broken. -/
structure RetriesOnce (ds : List Deed) (rs : List (Except Failure Response)) : Prop where
  first : ∃ t bs, ds.head? = some (.writes t bs)
  again : (payloads ds).length = 2 ↔
    (∃ f, (outcomes ds).head? = some (.error f) ∧ f.isBrokenPipe = true) ∧ Renews ds
  other : ∀ f, (outcomes ds).head? = some (.error f) → f.isBrokenPipe = false →
    rs = [.error f] ∧ .opens ∉ ds ∧ ds.countP Deed.isClose = 0
  broken : ∀ f g, (outcomes ds).head? = some (.error f) → f.isBrokenPipe = true → ResetFails ds g →
    rs = [.error f]

/-- Nothing is written before the socket was replaced. -/
structure ResetsFirst (ds : List Deed) (rs : List (Except Failure Response)) : Prop where
  first : ∃ t, ds.head? = some (.closes t) ∧ ds.countP Deed.isClose = 1
  once : ((payloads ds).length = 1 ↔ Renews ds) ∧ (payloads ds).length ≤ 1
  unreset : ∀ f, ResetFails ds f → rs = [.error f]
  unwritten : ∀ f, (outcomes ds).head? = some (.error f) → rs = [.error f]

section Effort

variable {o : Option (Except Failure Unit)} {rs : List (Except Failure Response)}

lemma Effort.sparing (h : Effort s bs st ds o) : Sparing bs ds where
  opens := by
    cases h with
    | writing | written | unwritten hf => simp
    | closing cause | opening cause | unopened cause f | handing cause n | unheard cause n f | rewriting cause n
    | rewritten cause n r => cases cause <;> simp [ResetCause.lead]
  outcomes := by
    cases h with
    | writing | written | unwritten hf => simp [outcomes, payloads, List.filterMap_cons]
    | closing cause | opening cause | unopened cause f | handing cause n | unheard cause n f | rewriting cause n
    | rewritten cause n r => cases cause <;> simp [outcomes, payloads, ResetCause.lead, List.filterMap_cons]
  payloads := by
    cases h with
    | writing | written | unwritten hf => exact ⟨1, by decide, rfl⟩
    | closing cause | opening cause | unopened cause f | handing cause n | unheard cause n f =>
      cases cause with
      | peerClosed => exact ⟨0, by decide, rfl⟩
      | brokenPipe first hb => exact ⟨1, by decide, rfl⟩
    | rewriting cause n | rewritten cause n r =>
      cases cause with
      | peerClosed => exact ⟨1, by decide, rfl⟩
      | brokenPipe first hb => exact ⟨2, by decide, rfl⟩
  renewed := by
    cases h with
    | writing | written | unwritten hf => simp
    | closing cause | opening cause | unopened cause f | handing cause n | unheard cause n f | rewriting cause n
    | rewritten cause n r => cases cause <;> simp +contextual [ResetCause.lead]

lemma Effort.retriesOnce (h : Effort s bs st ds o) (hs : st = false)
    (hr : ∀ f, o = some (.error f) → rs = [.error f]) : RetriesOnce ds rs := by
  cases h with
  | writing | written | unwritten hf =>
    constructor <;> simp_all [payloads, outcomes, Renews, ResetFails, List.filterMap_cons]
  | closing cause | opening cause | unopened cause f | handing cause n | unheard cause n f | rewriting cause n
  | rewritten cause n r =>
    cases cause with
    | peerClosed => cases hs
    | brokenPipe first hb =>
      constructor <;>
        simp_all [payloads, outcomes, Renews, ResetFails, ResetCause.lead, ResetCause.report, List.filterMap_cons]

lemma Effort.resetsFirst (h : Effort s bs st ds o) (hs : st = true)
    (hr : ∀ f, o = some (.error f) → rs = [.error f]) : ResetsFirst ds rs := by
  cases h with
  | writing | written | unwritten hf => cases hs
  | closing cause | opening cause | unopened cause g | handing cause n | unheard cause n g | rewriting cause n
  | rewritten cause n r =>
    cases cause with
    | peerClosed =>
      constructor <;>
        simp_all [payloads, outcomes, Renews, ResetFails, ResetCause.lead, ResetCause.report, List.filterMap_cons,
          List.countP_cons]
    | brokenPipe first hb => cases hs

lemma Effort.retried {g : Failure} (h : Effort s bs st ds o) (hw : outcomes ds = [.error f, .error g]) :
    st = false ∧ f.isBrokenPipe = true ∧ Renews ds ∧ o = some (.error g) := by
  cases h with
  | writing | written | unwritten hf => simp [outcomes, List.filterMap_cons] at hw
  | closing cause | opening cause | unopened cause f | handing cause n | unheard cause n f | rewriting cause n =>
    cases cause <;> simp [outcomes, ResetCause.lead, List.filterMap_cons] at hw
  | rewritten cause n r =>
    cases cause with
    | peerClosed => simp [outcomes, ResetCause.lead, List.filterMap_cons] at hw
    | brokenPipe first hb =>
      simp only [outcomes, ResetCause.lead, List.cons_append, List.nil_append, List.filterMap_cons, Deed.outcome?,
        List.filterMap_nil, List.cons.injEq, Except.error.injEq, and_true] at hw
      obtain ⟨rfl, rfl⟩ := hw
      exact ⟨rfl, hb, ⟨n, by simp⟩, rfl⟩

end Effort

def Phase.resets : Phase → Bool
  | .resetClosing _ _ | .resetOpening _ _ | .handing _ _ _ => true
  | _ => false

def resetting (p : Provider) (c : CallId) : Bool := ((p.phaseOf c).map Phase.resets).getD false

lemma HandsOver.renewed (h : HandsOver m c d cause n (some (.ok n)) q) :
    q.correlator = m.correlator.reopen ∧
      ∃ li, q.listening.bind q.listeners.get? = some li ∧ li.replacement = some n := by
  cases h with
  | renews _ _ hk _ hl hr => exact ⟨hk, _, hl, hr⟩

lemma offer_ok {t : SocketId} (h : p.offer n = some (.ok t)) : t = n ∧ ∃ conn, p.slot = some conn := by
  rw [offer] at h
  split at h
  · cases h
  · rename_i l hl
    split at h
    · cases h
    · split at h
      · cases h
      · cases h
        exact ⟨rfl, (Option.map_eq_some_iff.mp hl).imp fun _ => And.left⟩

lemma told_ne_handed (ph : Phase) (t : SocketId) (e : Event) (r : Except Failure SocketId) :
    ph.told t e ≠ some (.handed r) := by
  intro h
  cases ph <;> cases e <;> try cases h
  rename_i out _ _ a
  cases ha : out.step a <;> simp [Phase.told, ha] at h

lemma asked_ne_handed (q : Provider) (c : CallId) (ph : Phase) (r : Except Failure SocketId) :
    q.asked c ph ≠ some (.handed r) := by
  intro h
  rw [asked] at h
  split at h
  · rename_i ph' conn _ _
    split at h
    · cases h
    · cases ph' <;> cases h
  · cases h

lemma renewed (h : .handed (.ok n) ∈ p.deed c e) :
    (p.step e).correlator = p.correlator.reopen ∧
      ∃ li, (p.step e).listening.bind (p.step e).listeners.get? = some li ∧ li.replacement = some n := by
  by_cases hs : p.subject e = some c
  · cases hp : p.phaseOf c with
    | none => simp [deed_gone hp] at h
    | some ph =>
      have ho : (ph.inHand p.nextSocket e).bind p.offer = some (.ok n) := by
        rw [deed_of_phase hs hp] at h
        simp only [List.mem_append, List.mem_map, Option.mem_toList] at h
        rcases h with (h | ⟨r, hr, he⟩) | h
        · exact absurd h (told_ne_handed _ _ _ _)
        · cases he
          exact hr
        · exact absurd h (asked_ne_handed _ _ _ _)
      obtain ⟨t, ht, hof⟩ := Option.bind_eq_some_iff.mp ho
      obtain ⟨rfl, conn, hsl⟩ := offer_ok hof
      cases ph with
      | handing d cause s =>
        cases e with
        | turn b =>
          cases hs
          cases ht
          obtain ⟨op, hc⟩ := call_of_phase hp
          have hq : p.step (.turn c) = p.hand c d cause n := by simp only [Provider.step, turn, hc]
          rw [hq]
          exact (hof ▸ hand_offer hp hsl).renewed
        | _ => cases ht
      | resetOpening d cause =>
        cases e with
        | opened b r =>
          cases hs
          cases r with
          | error f => cases ht
          | ok u =>
            cases u
            cases ht
            obtain ⟨m, hm, hms, -, hk, hmo, hq⟩ := opened_hand hp hsl
            obtain ⟨hr, hl⟩ := ((hmo.trans hof) ▸ hand_offer hm hms).renewed
            rw [Provider.step, hq]
            exact ⟨hr.trans (congrArg _ hk), hl⟩
        | _ => cases ht
      | _ => cases ht
  · simp [deed_other hs] at h

lemma resetting_of_phase (h : p.phaseOf c = some ph) : p.resetting c = ph.resets := by simp [resetting, h]

lemma AtRest.not_resetting (h : AtRest p c) : p.resetting c = false := by
  cases hp : p.phaseOf c with
  | none => simp [resetting, hp]
  | some ph =>
    have hr := h.rests ph hp
    rw [resetting_of_phase hp]
    cases ph <;> first | rfl | cases hr

lemma Account.kept {rs : List (Except Failure Response)} (h : Account q c d s l st ds rs) (hk : c < q.nextCall)
    (hs : q.subject e = some c) (hr : q.resetting c) (hr' : (q.step e).resetting c) :
    (q.step e).correlator = q.correlator := by
  have idle : ∀ {ph}, (q.step e).phaseOf c = some ph → ph.resets = false → False := fun hp hn => by
    rw [resetting_of_phase hp, hn] at hr'
    cases hr'
  cases h with
  | underway h =>
    cases h.step hk hs with
    | goes _ hk => exact hk
    | renews _ hp => exact (idle hp rfl).elim
    | @fails f m ph _ hp _ _ hq =>
      obtain ⟨z, hz⟩ := phaseOf_failSend hp d f
      exact (idle (hq ▸ hz) rfl).elim
    | succeeds _ hq =>
      obtain ⟨ph, hp, hn⟩ := hq
      refine (idle hp ?_).elim
      cases ph <;> first | rfl | cases hn
    | leaves _ hq => simp [resetting, hq] at hr'
  | failed _ hq => simp [hq.atRest.not_resetting] at hr
  | passed _ _ hq => simp [hq.not_resetting] at hr

lemma Account.effort {rs : List (Except Failure Response)} (h : Account q c d s l st ds rs) :
    ∃ o, Effort s (Utf8.ofText d.request.encode) st ds o ∧ ∀ f, o = some (.error f) → rs = [.error f] := by
  cases h with
  | underway h => exact ⟨none, h.effort, nofun⟩
  | failed h _ hr =>
    refine ⟨_, h, fun f he => ?_⟩
    cases he
    exact hr
  | passed h hne => exact ⟨_, h, fun f he => absurd he (hne f)⟩

/-- However sockets and the listener behave, a call that gets to an occupied connection with a request tries at most
one reset and writes at most twice, the same octets each time, and no write ends that was not begun. Unless the node had closed its end, it writes first,
and writes again only for a broken pipe and after a reset; else it resets first. What fails is reported as it is,
but a reset for a broken pipe that fails is reported as that broken pipe. A reset leaves claims, responses and
queues alone, and all it does once it has succeeded is to forget that the node had closed its end. -/
theorem one_reset {endpoint : Endpoint} {config : Config} (hp : Reachable endpoint config p) (hc : p.Reaches c d)
    (hs : p.slot = some conn) (hf : p.isFinished conn.listener = false) (es : List Event) :
    let run := .turn c :: es
    let ds := p.deeds c run
    let rs := p.settlements c run
    Sparing (Utf8.ofText d.request.encode) ds ∧
    (p.correlator.peerClosed = false → RetriesOnce ds rs) ∧
    (p.correlator.peerClosed = true → ResetsFirst ds rs) ∧
    ∀ us e, us ++ [e] <+: run →
      let q := p.steps us
      (∀ n, .handed (.ok n) ∈ q.deed c e → (q.step e).correlator = { q.correlator with peerClosed := false } ∧
        ∃ li, (q.step e).listening.bind (q.step e).listeners.get? = some li ∧ li.replacement = some n) ∧
      (q.subject e = some c → q.resetting c → (q.step e).resetting c → (q.step e).correlator = q.correlator) := by
  obtain ⟨before, rfl⟩ := hp.run
  have ho := (orderly_new endpoint config).steps before
  intro run ds rs
  obtain ⟨o, he, hr⟩ := (hc.account ho hs hf es).1.effort
  refine ⟨he.sparing, fun hst => he.retriesOnce hst hr, fun hst => he.resetsFirst hst hr, fun us e hu => ?_⟩
  refine ⟨fun n hn => renewed hn, fun hsub hres hres' => ?_⟩
  cases us with
  | nil =>
    -- a call that comes to the connection is not yet about a reset
    obtain ⟨m, ph, -, -, -, -, -, -, hph, hcome⟩ := hc.turn
    rw [steps, List.foldl_nil, resetting_of_phase hph] at hres
    obtain rfl | ⟨d', rfl⟩ := hcome <;> cases hres
  | cons u us =>
    obtain ⟨rfl, -⟩ := List.cons_prefix_cons.mp hu
    obtain ⟨ha, hk⟩ := hc.account ho hs hf us
    exact ha.kept hk hsub hres hres'

def firstRequest : Request := { method := "a", params := [], id := .number 1 }

def aboutToSend : Provider :=
  (new here {}).steps [.call .connect, .turn 0, .opened 0 (.ok ()), .listen 0, .listen 0, .call (.send firstRequest)]

def replacedOnce : List Event :=
  [.sink 1 (.failure (.io ⟨.brokenPipe, none⟩)), .closed 1, .opened 1 (.ok ()), .listen 0, .sink 1 (.accept 100),
    .sink 1 .flushed]

lemma aboutToSend_reachable : Reachable here {} aboutToSend := Reachable.steps .new _

lemma aboutToSend_reaches : aboutToSend.Reaches 1 ⟨firstRequest, 0⟩ :=
  have hc : aboutToSend.calls.get? 1 = some { op := .send firstRequest } := rfl
  .begins hc rfl (k := (aboutToSend.correlator.register firstRequest.id).2) rfl rfl

theorem one_reset_replacedOnce :
    let ds := aboutToSend.deeds 1 (.turn 1 :: replacedOnce)
    aboutToSend.Reaches 1 ⟨firstRequest, 0⟩ ∧ aboutToSend.slot = some ⟨0, 0⟩ ∧ aboutToSend.isFinished 0 = false ∧
      aboutToSend.correlator.peerClosed = false ∧ Sparing (Utf8.ofText firstRequest.encode) ds ∧
      RetriesOnce ds (aboutToSend.settlements 1 (.turn 1 :: replacedOnce)) ∧ (payloads ds).length = 2 ∧
      outcomes ds = [.error (.io ⟨.brokenPipe, none⟩), .ok ()] := by
  intro ds
  have hs : aboutToSend.slot = some ⟨0, 0⟩ := rfl
  have hf : aboutToSend.isFinished 0 = false := by decide +kernel
  have hc : aboutToSend.correlator.peerClosed = false := rfl
  obtain ⟨spare, retry, -⟩ := one_reset aboutToSend_reachable aboutToSend_reaches hs hf replacedOnce
  exact ⟨aboutToSend_reaches, hs, hf, hc, spare, retry hc, by decide +kernel, by decide +kernel⟩

/-- When both writes fail, the failure of the second one is reported, whatever the first one was: it is that of the
first one only if both are the same. -/
theorem failed_retry_reported {endpoint : Endpoint} {config : Config} (hp : Reachable endpoint config p)
    (hc : p.Reaches c d) (hs : p.slot = some conn) (hf : p.isFinished conn.listener = false) (es : List Event)
    {g : Failure} (hw : outcomes (p.deeds c (.turn c :: es)) = [.error f, .error g]) :
    let run := .turn c :: es
    p.correlator.peerClosed = false ∧ f.isBrokenPipe = true ∧ Renews (p.deeds c run) ∧
      p.settlements c run = [.error g] ∧ (p.settlements c run = [.error f] ↔ g = f) := by
  obtain ⟨before, rfl⟩ := hp.run
  have ho := (orderly_new endpoint config).steps before
  intro run
  obtain ⟨o, he, hr⟩ := (hc.account ho hs hf es).1.effort
  obtain ⟨hst, hb, hn, hg⟩ := he.retried hw
  refine ⟨hst, hb, hn, hr g hg, ?_⟩
  rw [hr g hg]
  simp

def replacedInVain : List Event :=
  [.sink 1 (.failure (.io ⟨.brokenPipe, none⟩)), .closed 1, .opened 1 (.ok ()),
    .sink 1 (.failure (.io ⟨.connectionReset, none⟩))]

theorem failed_retry_replacedInVain :
    let run := .turn 1 :: replacedInVain
    aboutToSend.Reaches 1 ⟨firstRequest, 0⟩ ∧ aboutToSend.slot = some ⟨0, 0⟩ ∧ aboutToSend.isFinished 0 = false ∧
      outcomes (aboutToSend.deeds 1 run) = [.error (.io ⟨.brokenPipe, none⟩), .error (.io ⟨.connectionReset, none⟩)] ∧
      Renews (aboutToSend.deeds 1 run) ∧
      aboutToSend.settlements 1 run = [.error (.io ⟨.connectionReset, none⟩)] := by
  intro run
  have hs : aboutToSend.slot = some ⟨0, 0⟩ := rfl
  have hf : aboutToSend.isFinished 0 = false := by decide +kernel
  have hw : outcomes (aboutToSend.deeds 1 run) =
      [.error (.io ⟨.brokenPipe, none⟩), .error (.io ⟨.connectionReset, none⟩)] := by decide +kernel
  obtain ⟨-, -, hn, hr, -⟩ :=
    failed_retry_reported aboutToSend_reachable aboutToSend_reaches hs hf replacedInVain hw
  exact ⟨aboutToSend_reaches, hs, hf, hw, hn, hr⟩

/-- The broken pipe that made a reset necessary is lost when the second write fails in another way. -/
theorem broken_pipe_lost :
    ¬∀ (p : Provider) (c : CallId) (d : Dispatch) (conn : Connection) (es : List Event) (f g : Failure),
      Reachable here {} p → p.Reaches c d → p.slot = some conn → p.isFinished conn.listener = false →
      outcomes (p.deeds c (.turn c :: es)) = [.error f, .error g] →
      p.settlements c (.turn c :: es) = [.error f] := by
  intro h
  have := h aboutToSend 1 ⟨firstRequest, 0⟩ ⟨0, 0⟩ replacedInVain (.io ⟨.brokenPipe, none⟩)
    (.io ⟨.connectionReset, none⟩) aboutToSend_reachable aboutToSend_reaches rfl (by decide +kernel)
    (by decide +kernel)
  exact absurd this (by decide +kernel)

end SocketRpc.Provider
