import SocketRpc.Proofs.Provider.Sources

namespace SocketRpc.Provider

variable {F : Failure → Prop} {a : Option CallId} {p q m : Provider} {c : CallId} {d : Dispatch}
  {N M ns : List Note} {x : Request} {y : Note} {ph : Phase} {i n : Nat} {op : Operation}

/-- What is behind a note at a place: a response was claimed for its request, and for a call told that
none came in time none came in while it had a claim, unless a socket has said so. -/
def Sound (F : Failure → Prop) (N : List Note) (i : Nat) : Note → Prop
  | .settled c q (.ok r) => r.id = q.id ∧ ∃ m t, LastClaim N c i m q t
  | .settled c q (.error (.timeout id elapsed)) => ¬ F (.timeout id elapsed) →
    id = q.id ∧ ∀ m s t, Claimed N m c s t → m < i → s = q ∧ Quieted N q.id t m
  | _ => True

lemma Sound.append (h : Sound F N i y) (hi : i < N.length) : Sound F (N ++ M) i y := by
  simp only [Sound] at h ⊢
  split
  · obtain ⟨hid, m, t, hl⟩ := h
    exact ⟨hid, m, t, (lastClaim_append (Nat.le_of_lt hi)).mpr hl⟩
  · intro hF
    obtain ⟨hid, hq⟩ := h hF
    refine ⟨hid, fun m s t hm hlt => ?_⟩
    obtain ⟨hs, hq⟩ := hq m s t ((claimed_append_of_lt (Nat.lt_trans hlt hi)).mp hm) hlt
    exact ⟨hs, hq.append⟩
  · trivial

def AllSound (F : Failure → Prop) (n : Nat) (p : Provider) : Prop :=
  ∀ i y, n ≤ i → p.notes[i]? = some y → Sound F p.notes i y

lemma AllSound.extend (h : AllSound F n p) (hn : q.notes = p.notes ++ ns)
    (hs : ∀ y ∈ ns, ∀ i, n ≤ i → q.notes[i]? = some y → Sound F q.notes i y) : AllSound F n q := by
  intro i y hle hi
  have hi' := hi
  rw [hn] at hi
  rcases place_of_append hi with hi | ⟨-, hy⟩
  · rw [hn]
    exact (h i y hle hi).append (place_lt hi)
  · exact hs y hy i hle hi'

lemma Note.Plain.sound (h : y.Plain F) : Sound F N i y := by
  simp only [Sound]
  split
  · exact h.elim
  · rename_i c q id elapsed
    have hf : F (.timeout id elapsed) ∨ isTimeout (.timeout id elapsed) = false := h
    intro hF
    rcases hf with hf | hf
    · exact absurd hf hF
    · cases hf
  · trivial

lemma sound_settled (h : Ledger p) {res : Except Failure Response}
    (hn : q.notes = p.notes ++ [.settled c d.request res]) (hp : p.dispatch? c = some d)
    (ho : Outcome p d res) : Sound F q.notes p.notes.length (.settled c d.request res) := by
  obtain ⟨m, hm, hst, hb⟩ := h.course c d hp
  have hu : Unclaimed p q [.settled c d.request res] := ⟨hn, by simp⟩
  cases ho with
  | answered hs =>
    obtain ⟨n, b, e, hc, hid⟩ := h.mailed _ _ hs
    obtain ⟨-, -, rfl⟩ := h.claimed_unique hc hm
    refine ⟨hid _ rfl, m, d.ticket, hu.claimed_iff.mpr hm, place_lt hm, fun n s u hn hlt => ?_⟩
    by_cases he : n = m
    · exact Nat.le_of_eq he
    · exact Nat.le_of_lt (hb n s u (hu.claimed_iff.mp hn) he).1
  | expired elapsed hw hr =>
    refine fun _ => ⟨rfl, fun n s u hc hlt => ?_⟩
    have hc := hu.claimed_iff.mp hc
    by_cases he : n = m
    · subst he
      have := Option.some.inj (hc.symm.trans hm)
      simp only [Note.claimed.injEq] at this
      obtain ⟨-, rfl, rfl⟩ := this
      cases hst with
      | waiting _ hk _ =>
        rw [hw] at hk
        cases hk
      | answered ha => exact absurd ha (hr _)
      | closed _ hq => exact ⟨rfl, hn ▸ hq.append⟩
    · obtain ⟨-, rfl, hq, -⟩ := hb n s u hc he
      exact ⟨rfl, hn ▸ hq.append⟩

lemma AllSound.plain (h : AllSound F n p) (hn : q.notes = p.notes ++ ns) (hp : ∀ y ∈ ns, y.Plain F) :
    AllSound F n q := h.extend hn fun y hy _ _ _ => (hp y hy).sound

lemma AllSound.entry (h : AllSound F n p) (hl : Ledger p) (he : Entry F a p q) :
    AllSound F n q := by
  cases he with
  | keep hk =>
    obtain ⟨ns, f, hn⟩ := hk.frame
    exact h.plain f.notes hn
  | claim _ f | reclaim _ f | pop _ f =>
    refine h.extend f.notes fun y hy i _ _ => ?_
    cases List.mem_singleton.mp hy
    trivial
  | withdraw _ f hn | part _ f hn => exact h.plain f.notes hn
  | settle _ f hp ho hc hd =>
    refine h.extend f.notes fun y hy i hle hi => ?_
    cases List.mem_singleton.mp hy
    by_cases hl' : i < p.notes.length
    · rw [f.notes, List.getElem?_append_left hl'] at hi
      rw [f.notes]
      exact (h i _ hle hi).append hl'
    · have hlt := place_lt hi
      rw [f.notes, List.length_append, List.length_singleton] at hlt
      have he : i = p.notes.length := by omega
      rw [he]
      exact sound_settled hl f.notes hp ho
  | deposit _ f hv hr hk hc hn =>
    refine h.extend f.notes fun y hy i _ _ => ?_
    rcases List.mem_cons.mp hy with rfl | hy
    · trivial
    · exact (hn y hy).sound

lemma AllSound.sweep (h : AllSound F n p) (hs : Sweep p q) : AllSound F n q := by
  obtain ⟨ns, f, hn, -⟩ := hs.frame
  exact h.plain f.notes (hn F)

lemma AllSound.cleared (h : AllSound F n p) : AllSound F n (p.note .cleared) := by
  refine h.extend rfl fun y hy i _ _ => ?_
  cases List.mem_singleton.mp hy
  trivial

lemma allSound_calm (hl : Ledger p) (hm : Calm F p a q) : AllSound F p.notes.length q := by
  have h : Ledger p ∧ AllSound F p.notes.length p :=
    ⟨hl, fun i y hle hi => absurd (place_lt hi) (Nat.not_lt.mpr hle)⟩
  have hs := calm_entries hm
  clear hm
  suffices hq : Ledger q ∧ AllSound F p.notes.length q from hq.2
  induction hs with
  | refl => exact h
  | tail _ he ih => exact ⟨ih.1.entry he, ih.2.entry ih.1 he⟩

theorem allSound_steps (endpoint : Endpoint) (config : Config) (es : List Event) :
    AllSound (fun f => ∃ e ∈ es, e.failure? = some f) 0 ((new endpoint config).steps es) :=
  (ledger_steps (fun _ _ _ hl h he => h.entry hl he) (fun _ _ _ h hs => h.sweep hs)
    (fun _ _ h _ => h.cleared) (fun i y _ hi => by simp [new] at hi) fun e he f hf => ⟨e, he, hf⟩).2

def Draws (p : Provider) (c : CallId) (r : Request) (n : Nat) : Prop :=
  ∃ op, p.calls.get? c = some { op } ∧ p.draw op = some (r, n)

def Requests (p : Provider) (c : CallId) (x : Request) : Prop :=
  (∃ n, p.Draws c x n) ∨ ∃ d, p.dispatch? c = some d ∧ d.request = x

inductive Advances (p : Provider) (c : CallId) (q : Provider) : Prop where
  | begins (hq : q.phaseOf c = some .start)
  | carries {x : Request} {d : Dispatch} (hp : p.Requests c x) (hq : q.dispatch? c = some d) (hd : d.request = x)
  | ends {m : Provider} {x : Request} {r : Except Failure Response} (hp : p.Requests c x)
      (hm : m.calls = p.calls) (hq : q = m.settle c x r)
  | leaves (hq : q.phaseOf c = none)
  | aside {ph : Phase} (hp : p.phaseOf c = some ph) (hd : ph.dispatch? = none) (hr : ∀ r, ph ≠ .done r)
      (hx : ∀ x n, ¬ p.Draws c x n)

lemma not_draws (hp : p.phaseOf c = some ph) (hs : ph ≠ .start) (n : Nat) : ¬ p.Draws c x n := by
  rintro ⟨op, hc, -⟩
  exact hs (Option.some.inj (hp.symm.trans (phaseOf_of_call hc)))

lemma draw_of_errand {op : Operation} {e : Errand} (h : op.errand? = some e) : p.draw op = none := by
  cases op <;> first | rfl | cases h

lemma draw_isSome (p q : Provider) (op : Operation) : (q.draw op).isSome = (p.draw op).isSome := by
  cases op <;> rfl

theorem calm_advances (hm : Calm F p (some c) q) : Advances p c q := by
  have aside : ∀ {ph}, p.phaseOf c = some ph → ph ≠ .start → ph.dispatch? = none →
      (∀ r, ph ≠ .done r) → Advances p c q := fun hp hs hd hr => .aside hp hd hr fun _ _ => not_draws hp hs _
  have carries : ∀ {ph ph' d d'}, p.phaseOf c = some ph → ph.dispatch? = some d →
      q.phaseOf c = some ph' → ph'.dispatch? = some d' → d'.request = d.request →
      Advances p c q := fun hp hd hq hd' he =>
    .carries (Or.inr ⟨_, dispatch?_of_phase hp hd, rfl⟩) (dispatch?_of_phase hq hd') he
  have ends : ∀ {m : Provider} {d r}, p.dispatch? c = some d → m.calls = p.calls →
      q = m.settleDispatch c d r → Advances p c q := fun {m d r} hd hc he =>
    .ends (m := { m with correlator := m.correlator.discard d.ticket }) (Or.inr ⟨d, hd, rfl⟩) hc he
  cases hm with
  | call op => exact .begins (by simp [newCall, phaseOf])
  | seek h he =>
    refine .aside (phaseOf_of_call h) rfl (by simp) ?_
    rintro x n ⟨op, hc, hd⟩
    cases h.symm.trans hc
    rw [draw_of_errand he] at hd
    cases hd
  | refuse h hd hr =>
    rename_i op x n f k
    exact .ends (m := { p with nextId := n, correlator := k }) (Or.inl ⟨n, op, h, hd⟩) rfl rfl
  | claim h hd hr =>
    have hp : p.phaseOf c = some .start := phaseOf_of_call h
    exact .carries (Or.inl ⟨_, _, h, hd⟩) (dispatch?_of_phase (phaseOf_setPhase_self hp) rfl) rfl
  | collect h => exact .leaves (by simp [phaseOf])
  | drop h => exact .leaves (phaseOf_drop h)
  | read h =>
    rcases h with ⟨h, -⟩ | h
    · refine .aside (phaseOf_of_call h) rfl (by simp) ?_
      rintro x n ⟨op, hc, hd⟩
      cases h.symm.trans hc
      cases hd
    · exact aside h (by simp) rfl (by simp)
  | leave h he r =>
    rename_i e
    refine aside h.1 (by simp) ?_ (by simp)
    cases e with
    | send d => exact absurd rfl (he d)
    | _ => rfl
  | yield h | attempt h | replace h | disconnect h => exact aside h.1 (by simp) rfl (by simp)
  | letGo h | connect h | pause h | exhaust h | retry h => exact aside h (by simp) rfl (by simp)
  | giveUp h =>
    rename_i d f
    exact ends (m := p.release.withdrawing d.request.id (·.forget d.request.id)) (givesUp_dispatch h)
      (calls_release p) rfl
  | reset h | write h => exact carries h.1 rfl (phaseOf_setPhase_self h.1) rfl rfl
  | resetClosed h | resetOpened h | hand h | progress o h | breakPipe h | reclaim h =>
    exact carries h rfl (phaseOf_setPhase_self h) rfl rfl
  | written h => exact carries h rfl (phaseOf_setPhase_self ((phaseOf_release p c).trans h)) rfl rfl
  | reclaimRefused h =>
    rename_i k _ _
    exact ends (m := { p with correlator := k }) (dispatch?_of_phase h rfl) rfl rfl
  | receive h =>
    rename_i k _
    exact ends (m := { p with correlator := k }) (dispatch?_of_phase h rfl) rfl rfl
  | closedOut h => exact ends (dispatch?_of_phase h rfl) rfl rfl
  | timeOut h =>
    rename_i d started _ _
    exact ends (m := p.withdrawing d.request.id (·.abandon d.request.id)) (dispatch?_of_phase h rfl) rfl rfl

def Operation.Makes (op : Operation) (x : Request) : Prop := ∃ (p : Provider) (n : Nat), p.draw op = some (x, n)

inductive Pursues (N : List Note) (c : CallId) (op : Operation) : Phase → Prop where
  | start : Pursues N c op .start
  | inHand {ph : Phase} {d : Dispatch} (h : ph.dispatch? = some d) (hx : op.Makes d.request) : Pursues N c op ph
  | ended {m : Provider} {x : Request} {r : Except Failure Response} {z : Except Failure Reply}
      (h : .settled c x r ∈ N) (hx : op.Makes x) (hm : (m.calls.get? c).map Call.op = some op)
      (hz : (m.answer c r).phaseOf c = some (.done z)) : Pursues N c op (.done z)

def Pursued (p : Provider) : Prop :=
  ∀ c op ph x, p.calls.get? c = some { op, phase := ph } → op.Makes x → Pursues p.notes c op ph

lemma Pursues.append (h : Pursues N c op ph) : Pursues (N ++ M) c op ph := by
  cases h with
  | start => exact .start
  | inHand h hx => exact .inHand h hx
  | ended h hx hm hz => exact .ended (List.mem_append_left _ h) hx hm hz

lemma Frame.call_was (f : Frame a p q ns) (hl : Ledger p) {op : Operation}
    (hq : (q.calls.get? c).map Call.op = some op) (hp : p.phaseOf c = some ph) :
    p.calls.get? c = some { op, phase := ph } := by
  obtain ⟨op', hc⟩ := call_of_phase hp
  have hk : c < p.nextCall := hl.known c (Option.isSome_of_mem hc)
  have ho := (f.op c).resolve_left (Nat.not_le.mpr hk) op hq
  rw [hc] at ho
  cases ho
  exact hc

lemma Frame.call_of_start (f : Frame a p q ns) (hl : Ledger p) (hk : c < p.nextCall) {op : Operation}
    (hq : q.calls.get? c = some { op }) : p.calls.get? c = some { op } := by
  have hp := (f.fresh c (Or.inr (phaseOf_of_call hq))).resolve_left (Nat.not_le.mpr hk)
  exact f.call_was hl (by rw [hq]; rfl) hp

lemma Pursued.calm (h : Pursued p) (hl : Ledger p) (hm : Calm F p a q) : Pursued q := by
  obtain ⟨ns, f⟩ := entries_frame (calm_entries hm)
  intro c op ph x hq hx
  by_cases ha : a ≠ some c
  · rw [f.others c ha] at hq
    rw [f.notes]
    exact (h c op ph x hq hx).append
  obtain rfl := not_not.mp ha
  have hph : q.phaseOf c = some ph := phaseOf_of_call hq
  have was : ∀ {ph'}, p.phaseOf c = some ph' → p.calls.get? c = some { op, phase := ph' } := fun hp =>
    f.call_was hl (by rw [hq]; rfl) hp
  have made : ∀ {y}, p.Requests c y → op.Makes y := by
    rintro y (⟨n, op', hc, hd⟩ | ⟨d, hd, rfl⟩)
    · cases hc.symm.trans (was (phaseOf_of_call hc))
      exact ⟨p, n, hd⟩
    · obtain ⟨ph', hp, hd⟩ := Option.bind_eq_some_iff.mp hd
      cases h c op ph' x (was hp) hx with
      | start | ended => cases hd
      | inHand h hy => cases hd.symm.trans h; exact hy
  cases calm_advances hm with
  | begins hs => cases hph.symm.trans hs; exact .start
  | carries hp hd hy =>
    rw [dispatch?, hph] at hd
    exact .inHand hd (hy ▸ made hp)
  | @ends m y r hp hc he =>
    subst he
    obtain ⟨g, -⟩ := frame_settle m c y r
    obtain ⟨z, hz⟩ := calls_settle m c y r
    rw [hz, Table.get?_modify, if_pos rfl] at hq
    obtain ⟨call, hcall, he⟩ := Option.map_eq_some_iff.mp hq
    cases he
    refine .ended (m := m.note (.settled c y r)) (x := y) (r := r) ?_ (made hp) ?_ hph
    · rw [g.notes]
      exact List.mem_append_right _ (List.mem_singleton_self _)
    · exact congrArg (Option.map Call.op) hcall
  | leaves hn => cases hph.symm.trans hn
  | aside hp hd hr hdraw =>
    cases h c op _ x (was hp) hx with
    | start =>
      obtain ⟨o, n, ho⟩ := hx
      obtain ⟨⟨y, n⟩, hy⟩ := Option.isSome_iff_exists.mp ((draw_isSome o p op).trans (Option.isSome_of_mem ho))
      exact absurd ⟨op, was hp, hy⟩ (hdraw y n)
    | inHand h => cases hd.symm.trans h
    | ended => exact absurd rfl (hr _)

lemma Pursued.upheaval (h : Pursued p) (hl : Ledger p) (hu : Upheaval p q) : Pursued q := by
  obtain ⟨a, ns, hj, f⟩ := upheaval_frame hu
  intro c op ph x hq hx
  by_cases ha : a ≠ some c
  · rw [f.others c ha] at hq
    rw [f.notes]
    exact (h c op ph x hq hx).append
  -- a call that waits for a listener has no request
  · obtain ⟨l, next, hp⟩ := hj c (not_not.mp ha)
    cases h c op _ x (f.call_was hl (by rw [hq]; rfl) hp) hx with
    | inHand h => cases h

lemma pursued_steps (endpoint : Endpoint) (config : Config) (es : List Event) :
    Pursued ((new endpoint config).steps es) := by
  have h : Ledger ((new endpoint config).steps es) ∧ Pursued ((new endpoint config).steps es) :=
    invariant_of_moves (F := fun _ => True) (I := fun p => Ledger p ∧ Pursued p)
      (fun p a q ⟨hl, h⟩ hm => ⟨hl.calm hm, h.calm hl hm⟩)
      (fun p q ⟨hl, h⟩ hu => ⟨hl.upheaval hu, h.upheaval hl hu⟩)
      ⟨ledger_new endpoint config, fun c op ph x hc => by cases hc⟩ fun _ _ _ _ => trivial
  exact h.2

inductive Sends (N : List Note) (c : CallId) (x : Request) : Phase → Prop where
  | start : Sends N c x .start
  | inHand {ph : Phase} {d : Dispatch} (h : ph.dispatch? = some d) (hd : d.request = x) : Sends N c x ph
  | ended {i : Nat} {res : Except Failure Response} (h : N[i]? = some (.settled c x res)) :
      Sends N c x (.done (res.map .response))

def Told (p : Provider) : Prop :=
  ∀ c x ph, p.calls.get? c = some { op := .send x, phase := ph } → Sends p.notes c x ph

lemma settle_send (hc : p.calls.get? c = some { op := .send x, phase := ph }) (y : Request)
    (r : Except Failure Response) :
    (p.settle c y r).phaseOf c = some (.done (r.map .response)) ∧
      (p.settle c y r).notes = p.notes ++ [.settled c y r] := by
  have ha : p.settle c y r = (p.note (.settled c y r)).finish c (r.map .response) := by
    have hc' : (p.note (.settled c y r)).calls.get? c = some { op := .send x, phase := ph } := hc
    simp [settle, answer, hc']
  have hp : (p.note (.settled c y r)).phaseOf c = some ph := by simp [phaseOf, note, hc]
  rw [ha]
  exact ⟨phaseOf_setPhase_self hp, rfl⟩

lemma told_steps (endpoint : Endpoint) (config : Config) (es : List Event) :
    Told ((new endpoint config).steps es) := fun c x ph hc => by
  have same : ∀ {y}, (Operation.send x).Makes y → y = x := by
    rintro y ⟨o, n, h⟩
    cases h
    rfl
  cases pursued_steps endpoint config es c _ ph x hc ⟨new endpoint config, _, rfl⟩ with
  | start => exact .start
  | inHand h hd => exact .inHand h (same hd)
  | ended h hy hm hz =>
    obtain rfl := same hy
    obtain ⟨i, hi⟩ := List.mem_iff_getElem?.mp h
    rw [answer, hm] at hz
    cases eq_of_setPhase hz
    exact .ended hi

def Open (N : List Note) (t : Ticket) (m j : Nat) : Prop :=
  m < j ∧ ∀ n, m < n → n < j → N[n]? ≠ some (.answered t)

lemma Quieted.silent_while_open {N : List Note} {id : RequestId} {t : Ticket} {m j : Nat}
    (h : Quieted N id t m) (ho : Open N t m j) (hj : N[j]? = some y) {r : Response} (hb : y.Brings r) :
    r.id ≠ id := by
  obtain ⟨n, hm, hn, hs⟩ := h
  rcases Nat.lt_trichotomy j n with hlt | rfl | hlt
  · exact hs j y r ho.1 hlt hj hb
  · cases hn.symm.trans hj
    obtain ⟨l, v, o, he, -⟩ := hb
    cases he
  · exact absurd hn (ho.2 n hm hlt)

/-- In every run, the responses handed out come from as many messages of the listener; a call gets the
response to its own request, come in after the last clearance before it was claimed; and a call is
told that none came in time only if none did while it had an open claim. Sockets do not say so. -/
theorem responses_correlated (endpoint : Endpoint) (config : Config) (es : List Event) :
    let p := (new endpoint config).steps es
    (∃ source : Nat → Nat,
      (∀ i r, HandsOut p.notes i r → source i < i ∧ ∃ y, p.notes[source i]? = some y ∧ y.Brings r) ∧
      (∀ i j r s, HandsOut p.notes i r → HandsOut p.notes j s → source i = source j → i = j) ∧
      ∀ i c q r, p.notes[i]? = some (.settled c q (.ok r)) → r.id = q.id ∧
        ∃ m t, LastClaim p.notes c i m q t ∧
          ∀ j, p.notes[j]? = some .cleared → j < m → j < source i) ∧
    (∀ i c q id elapsed, p.notes[i]? = some (.settled c q (.error (.timeout id elapsed))) →
      (∀ e ∈ es, e.failure? ≠ some (.timeout id elapsed)) → id = q.id ∧
        ∀ m s t, Claimed p.notes m c s t → m < i → s = q ∧
          ∀ j y r, Open p.notes t m j → p.notes[j]? = some y → y.Brings r → r.id ≠ id) ∧
    ∀ c q r, p.calls.get? c = some { op := .send q, phase := .done r } →
      ∃ (i : Nat) (res : Except Failure Response), p.notes[i]? = some (.settled c q res) ∧
        r = res.map .response := by
  intro p
  have sound := allSound_steps endpoint config es
  refine ⟨?_, fun i c q id elapsed hi hf => ?_, fun c q r hc => ?_⟩
  · obtain ⟨source, h⟩ := traced_steps endpoint config es
    refine ⟨fun i => source (.taken i), fun i r hi => ⟨h.earlier i r hi, h.brings (.taken i) r hi⟩,
      fun i j r s hi hj he => ?_, fun i c q r hi => ?_⟩
    · cases h.own (.taken i) (.taken j) r s hi hj he
      rfl
    · obtain ⟨hid, m, t, hl⟩ := sound i _ (Nat.zero_le i) hi
      refine ⟨hid, m, t, hl, fun j hj hlt => ?_⟩
      exact h.recent (.taken i) r j ⟨_, hi, Or.inl ⟨c, q, rfl⟩⟩ hj ⟨c, q, r, m, t, hi, hl, hlt⟩
  · obtain ⟨rfl, hq⟩ := sound i _ (Nat.zero_le i) hi fun ⟨e, he, h⟩ => hf e he h
    refine ⟨rfl, fun m s t hm hlt => ?_⟩
    obtain ⟨hs, hq⟩ := hq m s t hm hlt
    exact ⟨hs, fun j y r ho hj hb => hq.silent_while_open ho hj hb⟩
  · obtain hs := told_steps endpoint config es c q (.done r) hc
    cases hs with
    | inHand h _ => cases h
    | ended h => exact ⟨_, _, h, rfl⟩

end SocketRpc.Provider
