import SocketRpc.Proofs.Provider.Correlation
import SocketRpc.Proofs.Provider.Locking
import Mathlib.Data.List.Infix

/-!
Requests on a connection that stays up: once one is written, its call gets the response or waits for it
in vain, if only its claim was still open by then or is made anew.
-/

namespace SocketRpc.Provider

variable {F : Failure → Prop} {a : Option CallId} {p q m : Provider} {c : CallId} {d : Dispatch}
  {x : Request} {ph : Phase} {N M : List Note} {conn : Connection} {start : Nat}
  {P Q : Except Failure Reply → Prop}

def Phase.rests : Phase → Bool
  | .awaiting _ _ | .done _ => true
  | _ => false

inductive Ends (p : Provider) (c : CallId) (d : Dispatch) (start : Nat) : Provider → Prop where
  | received {r : Response} {k : Correlator} (h : p.correlator.receive d.ticket = (.filled r, k)) :
      Ends p c d start ({ p with correlator := k }.settleDispatch c d (.ok r))
  | expired (h : (p.correlator.receive d.ticket).1 = .empty)
      (ht : start + p.config.requestTimeoutMs ≤ p.now) :
      Ends p c d start ((p.withdrawing d.request.id (·.abandon d.request.id)).settleDispatch c d
        (.error (.timeout d.request.id (.ofMillis (p.now - start)))))

lemma Calm.of_rests (hm : Calm F p (some c) q) (hk : c < p.nextCall)
    (hp : ∀ ph, p.phaseOf c = some ph → ph.rests) :
    q.calls = p.calls.erase c ∨ ∃ d start, p.phaseOf c = some (.awaiting d start) ∧
      (Ends p c d start q ∨ (p.correlator.receive d.ticket).1 = .closed) := by
  have new : ∀ {op}, p.calls.get? c ≠ some { op, phase := .start } := fun hs => by
    cases hp .start (phaseOf_of_call hs)
  cases hm with
  | call op => exact absurd hk (Nat.lt_irrefl _)
  | seek h _ | refuse h _ _ | claim h _ _ => exact absurd h new
  | collect h => exact Or.inl rfl
  | drop h => exact Or.inl (calls_drop h)
  | read h =>
    rcases h with ⟨h, -⟩ | h
    · exact absurd h new
    · cases hp _ h
  | leave h _ _ | yield h | attempt h _ | replace h _ _ | disconnect h _ | reset h _ _ _
  | write h _ _ _ => cases hp _ h.1
  | giveUp h =>
    cases h with
    | unconnected h _ | ended h _ _ => cases hp _ h.1
    | unopened h _ | unheard h | unwritten h _ => cases hp _ h
  | letGo h | connect h | pause h _ | exhaust h _ _ | retry h _ | resetClosed h | resetOpened h
  | hand h _ _ _ | progress _ h | breakPipe h _ | written h => cases hp _ h
  | reclaim h hm _ | reclaimRefused h hm _ | closedOut h hm => exact Or.inr ⟨_, _, h, Or.inr hm⟩
  | receive h hm => exact Or.inr ⟨_, _, h, Or.inl (.received hm)⟩
  | timeOut h hm ht => exact Or.inr ⟨_, _, h, Or.inl (.expired hm ht)⟩

lemma Ends.calm (h : Ends p c d start q) (hp : p.phaseOf c = some (.awaiting d start)) :
    Calm F p (some c) q := by
  cases h with
  | received h => exact .receive hp h
  | expired h ht => exact .timeOut hp h ht

structure Over (p : Provider) (c : CallId) (P : Except Failure Reply → Prop) : Prop where
  known : c < p.nextCall
  done : ∀ ph, p.phaseOf c = some ph → ∃ r, ph = .done r ∧ P r

lemma Over.mono (h : Over p c P) (hPQ : ∀ r, P r → Q r) : Over p c Q where
  known := h.known
  done ph hph := by
    obtain ⟨r, hr, hP⟩ := h.done ph hph
    exact ⟨r, hr, hPQ r hP⟩

lemma Over.other (h : Over p c P) {ns : List Note} (f : Frame a p q ns) (ha : a ≠ some c) :
    Over q c P where
  known := Nat.lt_of_lt_of_le h.known f.nextCall
  done ph hph := h.done ph (f.phaseOf ha ▸ hph)

lemma over_erased (hk : c < q.nextCall) (hc : q.calls = p.calls.erase c) : Over q c P :=
  ⟨hk, fun ph hph => by simp [phaseOf, hc] at hph⟩

lemma Over.calm (h : Over p c P) (hm : Calm F p a q) : Over q c P := by
  obtain ⟨ns, f⟩ := entries_frame (calm_entries hm)
  by_cases ha : a ≠ some c
  · exact h.other f ha
  obtain rfl := not_not.mp ha
  have rests : ∀ ph, p.phaseOf c = some ph → ph.rests := fun ph hph => by
    obtain ⟨r, rfl, -⟩ := h.done ph hph
    rfl
  rcases hm.of_rests h.known rests with he | ⟨d, start, hp, -⟩
  · exact over_erased (Nat.lt_of_lt_of_le h.known f.nextCall) he
  · obtain ⟨r, hr, -⟩ := h.done _ hp
    cases hr

lemma Over.upheaval (h : Over p c P) (hu : Upheaval p q) : Over q c P := by
  obtain ⟨a, ns, hj, f⟩ := upheaval_frame hu
  refine h.other f fun ha => ?_
  obtain ⟨l, next, hp⟩ := hj c ha
  obtain ⟨r, hr, -⟩ := h.done _ hp
  cases hr

lemma Over.steps (h : Over p c P) (es : List Event) : Over (p.steps es) c P :=
  invariant_of_moves (F := fun _ => True) (I := (Over · c P))
    (fun _ _ _ h hm => h.calm hm) (fun _ _ h hu => h.upheaval hu) h fun _ _ _ _ => trivial

lemma receive_fst (k : Correlator) (t : Ticket) :
    (k.receive t).1 = (k.mail.get? t).getD .closed := by
  rw [Correlator.receive]
  split <;> simp [*]

def Alone (N : List Note) (c : CallId) (id : RequestId) : Prop :=
  ∀ b r t, .claimed b r t ∈ N → r.id = id → b = c

def Note.own (c : CallId) (id : RequestId) : Note → Bool
  | .claimed b r _ => r.id ≠ id || b = c
  | _ => true

lemma alone_iff {id : RequestId} : Alone N c id ↔ ∀ y ∈ N, y.own c id = true := by
  refine ⟨fun h y hy => ?_, fun h b r t hm hid => ?_⟩
  · cases y with
    | claimed b r t => simpa [Note.own, Decidable.or_iff_not_imp_left] using h b r t hy
    | _ => rfl
  · simpa [Note.own, hid] using h _ hm

instance (N : List Note) (c : CallId) (id : RequestId) : Decidable (Alone N c id) :=
  decidable_of_iff _ alone_iff.symm

lemma Alone.claimed (h : Alone N c d.request.id) {i : Nat} {b : CallId} {r : Request} {t : Ticket}
    (hc : Claimed N i b r t) (hr : r.id = d.request.id) : b = c :=
  h b r t (List.mem_of_getElem? hc) hr

lemma Ledger.keyed_apart (h : Ledger p) {b : CallId} {e : Dispatch} (hd : p.dispatch? c = some d)
    (he : p.dispatch? b = some e) (hne : b ≠ c) (ha : Alone p.notes c d.request.id) :
    p.correlator.waiting.get? e.request.id.key ≠ some d.ticket := by
  intro hw
  obtain ⟨⟨i, b', r, hr, hk⟩, -⟩ := h.waits _ _ hw
  obtain ⟨j, hj, -⟩ := h.course c d hd
  obtain ⟨n, hn, -⟩ := h.course b e he
  obtain ⟨-, -, rfl⟩ := h.claimed_unique hr hj
  exact hne (ha.claimed hn (RequestId.key_injective hk).symm)

lemma Entry.keeps_open (he : Entry F a p q) (hl : Ledger p) (hac : a ≠ some c)
    (hd : p.dispatch? c = some d) (ha : Alone p.notes c d.request.id)
    (ho : (p.correlator.receive d.ticket).1 ≠ .closed) :
    (q.correlator.receive d.ticket).1 ≠ .closed := by
  have same : q.correlator.mail.get? d.ticket = p.correlator.mail.get? d.ticket →
      (q.correlator.receive d.ticket).1 ≠ .closed := fun hm => by
    rwa [receive_fst, hm, ← receive_fst]
  have mail : ∀ {k : Correlator}, q.correlator.claims = k.claims → q.correlator.mail = k.mail := fun h =>
    (Correlator.fields_of_claims h).2.2.2.1
  -- the mailbox of another call is thrown away
  have other : ∀ {b e} {k : Correlator}, a = some b → p.dispatch? b = some e →
      q.correlator.claims = (k.discard e.ticket).claims →
      q.correlator.mail.get? d.ticket = k.mail.get? d.ticket := fun hb hb' hc => by
    rw [mail hc, Correlator.discard, Table.get?_erase, if_neg]
    exact (hl.ticket_ne hd hb' fun hbc => hac (hb.trans (congrArg some hbc))).symm
  have old : ∀ {r t k}, p.correlator.Registers k r t →
      k.mail.get? d.ticket = p.correlator.mail.get? d.ticket :=
    fun hr => hr.mail _ (hr.ticket ▸ Nat.ne_of_lt (hl.ticket_lt hd))
  cases he with
  | keep hk => exact same (by rw [mail hk.claims])
  | claim hb f hp hr hc _ =>
    exact same ((congrArg (Table.get? · _) (mail hc)).trans (old (Correlator.register_ok hr)))
  | reclaim hb f hp hm hr hc _ => exact same ((other hb hp hc).trans (old (Correlator.register_ok hr)))
  | withdraw hb f hn hp hc _ _ =>
    refine same (hc.kept _ fun k hk => ?_)
    rw [List.mem_singleton.mp hk]
    exact hl.keyed_apart hd hp (fun hbc => hac (hb.trans (congrArg some hbc))) ha
  | part hb f hn hp hc _ => exact same (other hb hp hc)
  | settle hb f hp _ hc _ => exact same (other hb hp hc)
  | pop _ f hr hc => exact same (by rw [mail hc])
  | deposit _ f hv hr hk hc hn =>
    rename_i y o k ns _
    have hr := (hl.receives hk).of_claims hc
    by_cases hw : p.correlator.waiting.get? y.id.key = some d.ticket
    · rw [receive_fst, hr.filled _ hw]
      rw [receive_fst] at ho
      cases hm : p.correlator.mail.get? d.ticket with
      | none => simp [hm] at ho
      | some b => simp
    · exact same (hr.kept _ hw)

inductive Answered (N : List Note) (c : CallId) (x : Request) : Except Failure Reply → Prop where
  | response {r : Response} (h : r.id = x.id) : Answered N c x (.ok (.response r))
  | inVain (elapsed : Duration) {i : Nat}
      (h : N[i]? = some (.settled c x (.error (.timeout x.id elapsed))))
      (hq : ∀ j s t, Claimed N j c s t → j < i → Quieted N x.id t j) :
      Answered N c x (.error (.timeout x.id elapsed))

lemma claimed_before {i j : Nat} {y : Note} {s : Request} {t : Ticket} (hi : N[i]? = some y)
    (hj : Claimed (N ++ M) j c s t) (hlt : j < i) : Claimed N j c s t :=
  (claimed_append_of_lt (Nat.lt_trans hlt (place_lt hi))).mp hj

lemma Answered.append {r : Except Failure Reply} (h : Answered N c x r) :
    Answered (N ++ M) c x r := by
  cases h with
  | response h => exact .response h
  | inVain elapsed h hq =>
    exact .inVain elapsed (place_append h) fun j s t hj hlt =>
      (hq j s t (claimed_before h hj hlt) hlt).append

lemma Ends.answered (h : Ends p c d start q) (hl : Ledger p)
    (hc : p.calls.get? c = some { op := .send d.request, phase := .awaiting d start }) :
    ∃ r, q.phaseOf c = some (.done r) ∧ Answered q.notes c d.request r := by
  have hp : p.phaseOf c = some (.awaiting d start) := phaseOf_of_call hc
  have sound := allSound_calm hl (h.calm (F := fun _ => False) hp)
  have settled : ∀ (m : Provider) y ns, m.calls = p.calls → m.notes = p.notes ++ ns →
      q = m.settle c d.request y → q.phaseOf c = some (.done (y.map .response)) ∧
        ∃ i, q.notes[i]? = some (.settled c d.request y) ∧
          Sound (fun _ => False) q.notes i (.settled c d.request y) :=
    fun m y ns hcalls hm hq => by
      obtain ⟨hdone, hn⟩ := settle_send (hcalls ▸ hc) d.request y
      rw [← hq] at hdone hn
      have hi : q.notes[m.notes.length]? = some (.settled c d.request y) := by
        rw [hn, List.getElem?_concat_length]
      refine ⟨hdone, _, hi, sound _ _ ?_ hi⟩
      rw [hm, List.length_append]
      exact Nat.le_add_right _ _
  cases h with
  | received h =>
    rename_i r k
    obtain ⟨hdone, i, hi, hs⟩ :=
      settled { p with correlator := k.discard d.ticket } (.ok r) [] rfl (List.append_nil _).symm rfl
    exact ⟨_, hdone, .response hs.1⟩
  | expired h ht =>
    obtain ⟨hdone, i, hi, hs⟩ := settled
      { p.withdrawing d.request.id (·.abandon d.request.id) with
        correlator := (p.correlator.abandon d.request.id).discard d.ticket }
      (.error (.timeout d.request.id (.ofMillis (p.now - start)))) _ rfl rfl rfl
    exact ⟨_, hdone, .inVain _ hi fun j s t hj hlt => ((hs id).2 j s t hj hlt).2⟩

inductive Served (p : Provider) (c : CallId) (x : Request) (start : Nat) : Prop where
  | waits {d : Dispatch} (hc : p.calls.get? c = some { op := .send x, phase := .awaiting d start })
      (hd : d.request = x) (ho : (p.correlator.receive d.ticket).1 ≠ .closed) : Served p c x start
  | ended (h : Over p c (Answered p.notes c x)) : Served p c x start

lemma Served.over_of (h : Over q c (Answered p.notes c x)) {ns : List Note} (hn : q.notes = p.notes ++ ns) :
    Served q c x start :=
  .ended (h.mono fun _ hr => hn ▸ hr.append)

lemma Served.entry (h : Served p c x start) (hl : Ledger p) (ha : Alone p.notes c x.id) (hac : a ≠ some c)
    (he : Entry F a p q) : Served q c x start := by
  obtain ⟨ns, f⟩ := he.frame
  cases h with
  | waits hc hd ho =>
    subst hd
    refine .waits ((f.others c hac).trans hc) rfl ?_
    exact he.keeps_open hl hac (dispatch?_of_phase (phaseOf_of_call hc) rfl) ha ho
  | ended h => exact .over_of (h.other f hac) f.notes

lemma Alone.of_append (h : Alone (N ++ M) c x.id) : Alone N c x.id := fun b r t hm =>
  h b r t (List.mem_append_left M hm)

lemma Served.entries (h : Served p c x start) (hl : Ledger p) (ha : Alone q.notes c x.id) (hac : a ≠ some c)
    (hs : Entries F a p q) : Served q c x start := by
  induction hs using Relation.ReflTransGen.head_induction_on with
  | refl => exact h
  | head he hs ih =>
    obtain ⟨ns, f⟩ := entries_frame (.head he hs)
    exact ih (h.entry hl (f.notes ▸ ha).of_append hac he) (hl.entry he)

lemma Served.calm (h : Served p c x start) (hl : Ledger p) (ha : Alone q.notes c x.id) (hm : Calm F p a q) :
    Served q c x start := by
  by_cases hac : a ≠ some c
  · exact h.entries hl ha hac (calm_entries hm)
  obtain rfl := not_not.mp hac
  obtain ⟨ns, f⟩ := entries_frame (calm_entries hm)
  cases h with
  | ended h => exact .over_of (h.calm hm) f.notes
  | waits hc hd ho =>
    subst hd
    rename_i d
    have hk : c < q.nextCall := Nat.lt_of_lt_of_le (hl.known c (by rw [hc]; rfl)) f.nextCall
    have hp : p.phaseOf c = some (.awaiting d start) := phaseOf_of_call hc
    have rests : ∀ ph, p.phaseOf c = some ph → ph.rests := fun ph hph => by
      cases hp.symm.trans hph
      rfl
    rcases hm.of_rests (hl.known c (by rw [hc]; rfl)) rests with he | ⟨e, start', hp', he | he⟩
    · exact .ended (over_erased hk he)
    · cases hp.symm.trans hp'
      obtain ⟨r, hdone, hr⟩ := he.answered hl hc
      refine .ended ⟨hk, fun ph hph => ⟨r, Option.some.inj (hph.symm.trans hdone), hr⟩⟩
    · cases hp.symm.trans hp'
      exact absurd he ho

lemma Served.calms (h : Served p c x start) (hl : Ledger p) (ha : Alone q.notes c x.id) (hm : Calms F a p q) :
    Served q c x start := by
  induction hm using Relation.ReflTransGen.head_induction_on with
  | refl => exact h
  | head hm hs ih =>
    obtain ⟨ns, f⟩ := entries_frame (calms_entries hs)
    exact ih (h.calm hl (f.notes ▸ ha).of_append hm) (hl.calm hm)

structure Up (p : Provider) (conn : Connection) : Prop where
  slot : p.slot = some conn
  heard : p.isFinished conn.listener = false
  entire : p.correlator.peerClosed = false

def Phase.isAwaiting : Phase → Bool
  | .awaiting _ _ => true
  | _ => false

def awaits (p : Provider) (c : CallId) : Bool := ((p.phaseOf c).map Phase.isAwaiting).getD false

lemma awaits_of_phase (h : p.phaseOf c = some (.awaiting d start)) : p.awaits c := by
  simp [awaits, h, Phase.isAwaiting]

instance (p : Provider) (conn : Connection) : Decidable (p.Up conn) :=
  decidable_of_iff (p.slot = some conn ∧ p.isFinished conn.listener = false ∧
    p.correlator.peerClosed = false)
    ⟨fun h => ⟨h.1, h.2.1, h.2.2⟩, fun h => ⟨h.slot, h.heard, h.entire⟩⟩

lemma isFinished_endListener (p : Provider) (l : ListenerId) (r : ListenerEnd) :
    (p.endListener l r).isFinished l = true := by
  have h : (p.endListener l r).listeners =
      p.listeners.modify l fun li => { li with phase := .finished r } := rfl
  rw [isFinished, h, Table.get?_modify, if_pos rfl]
  cases p.listeners.get? l <;> rfl

lemma Served.upheaval (h : Served p c x start) (hg : Guarded p) (hs : p.slot = some conn) (hu : Upheaval p q)
    (hq : q.awaits c → q.Up conn) : Served q c x start := by
  obtain ⟨a, ns, -, f⟩ := upheaval_frame hu
  cases h with
  | ended h => exact .over_of (h.upheaval hu) f.notes
  | waits hc hd ho =>
    exfalso
    have goes : q.calls = p.calls → q.Up conn := fun hcalls =>
      hq (awaits_of_phase (by rw [phaseOf, hcalls, hc]; rfl))
    have listening : p.listening = some conn.listener := by rw [listening, hs]; rfl
    cases hu with
    | tear hp hf =>
      rw [hg.empty _ _ hp rfl] at listening
      cases listening
    | orphan hr => cases (goes rfl).entire
    | fail hr hp e =>
      rename_i l
      obtain ⟨li, hl, hli⟩ := hr
      have own : p.listening = some l := by
        apply (hg.heard l li hl hli.live).resolve_right
        rintro ⟨b, other, next, hb, -⟩
        rw [hg.empty b _ hb rfl] at listening
        cases listening
      cases listening.symm.trans own
      have heard := (goes (by simp only [fault, hp]; rfl)).heard
      simp only [fault, hp, isFinished_endListener] at heard
      cases heard

lemma notes_steps (p : Provider) (es : List Event) : ∃ ns, (p.steps es).notes = p.notes ++ ns := by
  refine invariant_of_moves (F := fun _ => True) (I := fun q => ∃ ns, q.notes = p.notes ++ ns)
    (fun q a r h hm => ?_) (fun q r h hu => ?_) ⟨[], (List.append_nil _).symm⟩ fun _ _ _ _ => trivial
  · obtain ⟨ns, hn⟩ := h
    obtain ⟨ms, f⟩ := entries_frame (calm_entries hm)
    exact ⟨ns ++ ms, by rw [f.notes, hn, List.append_assoc]⟩
  · obtain ⟨ns, hn⟩ := h
    obtain ⟨a, ms, -, f⟩ := upheaval_frame hu
    exact ⟨ns ++ ms, by rw [f.notes, hn, List.append_assoc]⟩

lemma Served.step (h : Served p c x start) (hl : Ledger p) (hg : Guarded p) {e : Event}
    (ha : Alone (p.step e).notes c x.id) (hs : p.slot = some conn)
    (hq : (p.step e).awaits c → (p.step e).Up conn) : Served (p.step e) c x start := by
  obtain ⟨m, hm, he | ⟨hslot, hu, -⟩⟩ := step_moves (F := fun _ => True) p e fun _ _ => trivial
  · exact h.calms hl ha (he ▸ hm)
  · obtain ⟨b, ns, -, f⟩ := upheaval_frame hu
    have guarded : Ledger m ∧ Guarded m :=
      chain_preserves (I := fun p => Ledger p ∧ Guarded p)
        (fun p q ⟨hl, hg⟩ hm => ⟨hl.calm hm, hg.calm hl.known hm⟩) ⟨hl, hg⟩ hm
    exact (h.calms hl (f.notes ▸ ha).of_append hm).upheaval guarded.2 (hslot.trans hs) hu hq

structure StaysUp (p : Provider) (c : CallId) (conn : Connection) (es : List Event) : Prop where
  now : p.Up conn
  on : ∀ ds, ds <+: es → (p.steps ds).awaits c → (p.steps ds).Up conn

instance (p : Provider) (c : CallId) (conn : Connection) (es : List Event) :
    Decidable (StaysUp p c conn es) :=
  decidable_of_iff (p.Up conn ∧ ∀ ds ∈ es.inits, (p.steps ds).awaits c → (p.steps ds).Up conn)
    ⟨fun h => ⟨h.1, fun ds hds => h.2 ds ((List.mem_inits ds es).mpr hds)⟩,
      fun h => ⟨h.now, fun ds hds => h.on ds ((List.mem_inits ds es).mp hds)⟩⟩

lemma Served.steps (h : Served p c x start) (hl : Ledger p) (hg : Guarded p) {es : List Event}
    (hs : ∀ ds, ds <+: es → (p.steps ds).awaits c → (p.steps ds).Up conn)
    (ha : Alone (p.steps es).notes c x.id) : Served (p.steps es) c x start := by
  induction es generalizing p with
  | nil => exact h
  | cons e es ih =>
    cases h with
    | ended h =>
      obtain ⟨ns, hn⟩ := notes_steps p (e :: es)
      exact .over_of (h.steps (e :: es)) hn
    | waits hc hd ho =>
      obtain ⟨ns, hn⟩ := notes_steps (p.step e) es
      have awaits : p.awaits c := awaits_of_phase (phaseOf_of_call hc)
      have up : p.Up conn := hs [] List.nil_prefix awaits
      have later : ∀ ds, ds <+: es → ((p.step e).steps ds).awaits c → ((p.step e).steps ds).Up conn :=
        fun ds hds => hs (e :: ds) (List.cons_prefix_cons.mpr ⟨rfl, hds⟩)
      obtain ⟨hl', hg'⟩ := guarded_run ⟨hl, hg⟩ [e]
      have next : Served (p.step e) c x start :=
        Served.step (.waits hc hd ho) hl hg (hn ▸ ha).of_append up.slot (later [] List.nil_prefix)
      exact ih next hl' hg' later ha

variable {out : Outgoing} {after : Option ResetCause} {u : SinkAnswer}

def written (p : Provider) (c : CallId) (d : Dispatch) : Provider :=
  p.release.setPhase c (.awaiting d p.now)

lemma sink_written (hp : p.phaseOf c = some (.writing d out after)) (hu : out.step u = .done (.ok ())) :
    p.sink c u = if after.isSome then (p.written c d).awaitAfterReset c d
      else (p.written c d).await c d (p.written c d).now := by
  simp only [sink, hp, hu]
  rfl

lemma call_written (hc : p.calls.get? c = some { op := .send x, phase := .writing d out after }) :
    (p.written c d).calls.get? c = some { op := .send x, phase := .awaiting d p.now } := by
  simp [written, setPhase, calls_release, hc]

lemma served_reclaimed (hl : Ledger p)
    (hc : p.calls.get? c = some { op := .send d.request, phase := .awaiting d p.now })
    (ha : Alone (p.awaitAfterReset c d).notes c d.request.id)
    (hm : (p.correlator.receive d.ticket).1 = .closed) :
    Served (p.awaitAfterReset c d) c d.request p.now := by
  have hp : p.phaseOf c = some (.awaiting d p.now) := phaseOf_of_call hc
  obtain ⟨ns, f⟩ := entries_frame (calms_entries (calms_awaitAfterReset (F := fun _ => True) hp))
  have alone : Alone p.notes c d.request.id := (f.notes ▸ ha).of_append
  obtain ⟨k', hr⟩ : ∃ k, p.correlator.receive d.ticket = (.closed, k) := ⟨_, Prod.ext hm rfl⟩
  rcases hreg : p.correlator.register d.request.id with ⟨e | t, k⟩
  · -- a claim under the key would be the call's own, and these are closed
    obtain ⟨hw, -, -⟩ := Correlator.register_error hreg
    obtain ⟨t, ht⟩ := Option.isSome_iff_exists.mp hw
    obtain ⟨⟨i, b, r, hcl, hk⟩, -⟩ := hl.waits _ t ht
    cases alone.claimed hcl (RequestId.key_injective hk)
    exact absurd ht ((hl.reclaimed (dispatch?_of_phase hp rfl) hm hcl).2.2 _)
  · simp only [awaitAfterReset, hr, hreg] at ha ⊢
    have hreg' := Correlator.register_ok hreg
    have made := Calm.reclaim (F := fun _ => True) hp hm hreg
    refine Served.calms (.waits (d := { d with ticket := t }) ?_ rfl ?_) (hl.calm made) ha
      (calms_await (F := fun _ => True) ?_)
    · simp [setPhase, note, hc]
    · have hne : d.ticket ≠ t := hreg'.ticket ▸ Nat.ne_of_lt (hl.ticket_lt (dispatch?_of_phase hp rfl))
      have hmail : (k.discard d.ticket).mail.get? t = k.mail.get? t := by
        rw [Correlator.discard, Table.get?_erase, if_neg hne]
      show ((k.discard d.ticket).receive t).1 ≠ .closed
      rw [receive_fst, hmail]
      rcases hreg'.own with ⟨-, ho⟩ | ⟨r, -, ho⟩ <;> simp [ho]
    · simp [phaseOf, setPhase, note, hc]

lemma served_written (hl : Ledger p)
    (hc : p.calls.get? c = some { op := .send d.request, phase := .writing d out after })
    (hu : out.step u = .done (.ok ())) (ha : Alone (p.sink c u).notes c d.request.id)
    (ho : after.isSome ∨ (p.correlator.receive d.ticket).1 ≠ .closed) :
    Served (p.sink c u) c d.request p.now := by
  have hp : p.phaseOf c = some (.writing d out after) := phaseOf_of_call hc
  have hnow : (p.written c d).now = p.now := now_release p
  have hk : (p.written c d).correlator = p.correlator := correlator_release p
  have hl' : Ledger (p.written c d) := hl.calm (.written (F := fun _ => True) hp)
  have hw := call_written hc
  rw [← hnow] at hw ⊢
  have hph : (p.written c d).phaseOf c = some (.awaiting d (p.written c d).now) := phaseOf_of_call hw
  rw [← hk] at ho
  rw [sink_written hp hu] at ha ⊢
  by_cases hm : ((p.written c d).correlator.receive d.ticket).1 = .closed
  · rw [if_pos (ho.resolve_right (not_not.mpr hm))] at ha ⊢
    exact served_reclaimed hl' hw ha hm
  · have waits : Served (p.written c d) c d.request (p.written c d).now := .waits hw rfl hm
    split
    · rw [if_pos ‹_›] at ha
      exact waits.calms hl' ha (calms_awaitAfterReset (F := fun _ => True) hph)
    · rw [if_neg ‹_›] at ha
      exact waits.calms hl' ha (calms_await (F := fun _ => True) hph)

lemma over_written (hl : Ledger p)
    (hc : p.calls.get? c = some { op := .send d.request, phase := .writing d out none })
    (hu : out.step u = .done (.ok ())) (hm : (p.correlator.receive d.ticket).1 = .closed) :
    Over (p.sink c u) c (· = .error p.correlator.closedFailure) := by
  have hp : p.phaseOf c = some (.writing d out none) := phaseOf_of_call hc
  have hk : (p.written c d).correlator = p.correlator := correlator_release p
  obtain ⟨k', hr⟩ : ∃ k, p.correlator.receive d.ticket = (.closed, k) := ⟨_, Prod.ext hm rfl⟩
  obtain ⟨ns, f⟩ := entries_frame (calms_entries (calms_sink (F := fun _ => True) p c u fun _ _ => trivial))
  refine ⟨Nat.lt_of_lt_of_le (hl.known c (by rw [hc]; rfl)) f.nextCall, fun ph hph => ?_⟩
  rw [sink_written hp hu, if_neg (by simp), await, hk, hr] at hph
  obtain ⟨hdone, -⟩ := settle_send (p := { p.written c d with correlator := p.correlator.discard d.ticket })
    (call_written hc) d.request (.error p.correlator.closedFailure)
  exact ⟨_, Option.some.inj (hph.symm.trans (hk ▸ hdone)), rfl⟩

lemma not_answered_closed {k : Correlator} : ¬ Answered N c x (.error k.closedFailure) := by
  intro h
  have ht := isTimeout_closedFailure k
  generalize he : k.closedFailure = e at h ht
  cases h
  cases ht

lemma turn_ends (hc : p.calls.get? c = some { op := .send x, phase := .awaiting d start })
    (ht : start + p.config.requestTimeoutMs ≤ p.now) : ∃ res, (p.turn c).result? c = some res := by
  have settled : ∀ (k : Correlator) ns r, ∃ res,
      (({ p with correlator := k, notes := ns }).settleDispatch c d r).result? c = some res := fun k ns r => by
    obtain ⟨hdone, -⟩ :=
      settle_send (p := { p with correlator := k.discard d.ticket, notes := ns }) hc d.request r
    exact ⟨_, by rw [result?, settleDispatch, hdone]⟩
  simp only [turn, hc, await]
  split
  · exact settled _ p.notes _
  · exact settled _ p.notes _
  · rw [if_pos ht]
    exact settled _ _ _

lemma steps_snoc (p : Provider) (es : List Event) (e : Event) : p.steps (es ++ [e]) = (p.steps es).step e :=
  List.foldl_append

lemma Reachable.run {endpoint : Endpoint} {config : Config} (h : Reachable endpoint config p) :
    ∃ es, p = (Provider.new endpoint config).steps es := by
  induction h with
  | new => exact ⟨[], rfl⟩
  | step e _ ih =>
    obtain ⟨es, rfl⟩ := ih
    exact ⟨es ++ [e], (steps_snoc _ es e).symm⟩

lemma phaseOf_of_result {res : Except Failure Reply} (h : p.result? c = some res) :
    p.phaseOf c = some (.done res) := by
  rw [result?] at h
  split at h
  · cases h
    assumption
  · cases h

lemma Over.result {res : Except Failure Reply} (h : Over p c P) (hres : p.result? c = some res) :
    P res := by
  obtain ⟨r, hr, hP⟩ := h.done _ (phaseOf_of_result hres)
  cases hr
  exact hP

lemma Over.not_awaits (h : Over p c P) : ¬ p.awaits c := by
  rw [awaits]
  cases hp : p.phaseOf c with
  | none => simp
  | some ph =>
    obtain ⟨r, rfl, -⟩ := h.done ph hp
    simp [Phase.isAwaiting]

/-- A call that has written its request on a connection that stays up from then on, with an identifier
that no other call uses, gets its response or is told that none came in time if and only if its claim was
still open when the request was written, or the write followed a reset; otherwise it is told of the
connection that was lost before. As long as it waits, its next turn ends it once the time is over. -/
theorem written_answered_iff {endpoint : Endpoint} {config : Config} {es : List Event}
    (hr : Reachable endpoint config p)
    (hc : p.calls.get? c = some { op := .send x, phase := .writing d out after })
    (hu : out.step u = .done (.ok ())) (hs : StaysUp (p.step (.sink c u)) c conn es)
    (ha : Alone ((p.step (.sink c u)).steps es).notes c x.id) :
    let q := (p.step (.sink c u)).steps es
    (∀ res, q.result? c = some res →
      (Answered q.notes c x res ↔ after.isSome ∨ (p.correlator.receive d.ticket).1 ≠ .closed) ∧
      (¬ Answered q.notes c x res → res = .error p.correlator.closedFailure)) ∧
    (q.awaits c → p.now + q.config.requestTimeoutMs ≤ q.now → ∃ res, (q.turn c).result? c = some res) := by
  intro q
  have guarded : Ledger p ∧ Guarded p := by
    obtain ⟨es₀, rfl⟩ := hr.run
    exact guarded_steps endpoint config es₀
  have hd : d.request = x := by
    obtain ⟨es₀, rfl⟩ := hr.run
    cases told_steps endpoint config es₀ c x _ hc with
    | inHand h hd => exact Option.some.inj h ▸ hd
  subst hd
  by_cases ho : after.isSome ∨ (p.correlator.receive d.ticket).1 ≠ .closed
  · obtain ⟨ns, hn⟩ := notes_steps (p.step (.sink c u)) es
    obtain ⟨hl, hg⟩ := guarded_run guarded [.sink c u]
    have served : Served q c d.request p.now :=
      (served_written guarded.1 hc hu (hn ▸ ha).of_append ho).steps hl hg hs.on ha
    cases served with
    | waits hc' hd' ho' =>
      refine ⟨fun res hres => ?_, fun _ ht => turn_ends hc' ht⟩
      have hp := phaseOf_of_result hres
      rw [phaseOf, hc'] at hp
      cases hp
    | ended h =>
      refine ⟨fun res hres => ?_, fun hw => absurd hw h.not_awaits⟩
      exact ⟨iff_of_true (h.result hres) ho, fun hn => absurd (h.result hres) hn⟩
  · obtain ⟨hafter, hm⟩ := not_or.mp ho
    obtain rfl : after = none := by simpa using hafter
    have told := (over_written guarded.1 hc hu (not_not.mp hm)).steps es
    refine ⟨fun res hres => ?_, fun hw => absurd hw told.not_awaits⟩
    have he : res = _ := told.result hres
    refine ⟨iff_of_false (fun h => ?_) ho, fun _ => he⟩
    rw [he] at h
    exact not_answered_closed h

def overlapping : List Event :=
  [.call .connect, .turn 0, .opened 0 (.ok ()), .listen 0, .listen 0,
    .call (.send { method := "a", params := [], id := .number 1 }), .turn 1,
    .call (.send { method := "b", params := [], id := .number 2 }), .turn 2,
    .sink 1 (.failure (.io ⟨.brokenPipe, none⟩)), .closed 1, .arrive 0 (.ok none), .opened 1 (.ok ()),
    .listen 0, .listen 0, .sink 1 (.accept 1000)]

def here : Endpoint := ⟨"IpcProvider", "node.ipc"⟩

theorem answered_after_reset :
    let x : Request := { method := "a", params := [], id := .number 1 }
    let p := (new here {}).steps overlapping
    let q := (p.step (.sink 1 .flushed)).steps
      [.arrive 0 (.ok (some (Utf8.ofText "\x7b\"id\":1\x7d"))), .turn 1]
    q.result? 1 = some (.ok (.response { id := .number 1 })) ∧
      (∀ res, q.result? 1 = some res →
        (Answered q.notes 1 x res ↔
          (some (ResetCause.brokenPipe (.io ⟨.brokenPipe, none⟩) rfl)).isSome ∨
            (p.correlator.receive 0).1 ≠ .closed) ∧
        (¬ Answered q.notes 1 x res → res = .error p.correlator.closedFailure)) ∧
      (q.awaits 1 → p.now + q.config.requestTimeoutMs ≤ q.now →
        ∃ res, (q.turn 1).result? 1 = some res) := by
  intro x p q
  have hc : p.calls.get? 1 = some
      { op := .send x,
        phase := .writing ⟨x, 0⟩ ⟨[]⟩ (some (.brokenPipe (.io ⟨.brokenPipe, none⟩) rfl)) } := rfl
  have hs : StaysUp (p.step (.sink 1 .flushed)) 1 ⟨1, 0⟩
      [.arrive 0 (.ok (some (Utf8.ofText "\x7b\"id\":1\x7d"))), .turn 1] := by
    decide +kernel
  exact ⟨rfl, written_answered_iff (Reachable.steps .new overlapping) hc rfl hs (by decide +kernel)⟩

def overlapped : List Event := overlapping ++ [.sink 1 .flushed, .turn 2, .sink 2 (.accept 1000)]

/-- The call of the second request is told that the connection is closed, though that to which it has
written is up, and the response that comes in on it is parked. -/
theorem written_then_closed :
    let x : Request := { method := "b", params := [], id := .number 2 }
    let p := (new here {}).steps overlapped
    let es := [.arrive 0 (.ok (some (Utf8.ofText "\x7b\"id\":2\x7d")))]
    let q := (p.step (.sink 2 .flushed)).steps es
    p.calls.get? 2 = some { op := .send x, phase := .writing ⟨x, 1⟩ ⟨[]⟩ none } ∧
      StaysUp (p.step (.sink 2 .flushed)) 2 ⟨1, 0⟩ es ∧ Alone q.notes 2 x.id ∧ q.Up ⟨1, 0⟩ ∧
      q.result? 2 = some (.error .connectionClosed) ∧
      q.correlator.parked.get? x.id.key = some { id := .number 2 } :=
  ⟨rfl, by decide +kernel, by decide +kernel, by decide +kernel, rfl, by decide +kernel⟩

end SocketRpc.Provider
