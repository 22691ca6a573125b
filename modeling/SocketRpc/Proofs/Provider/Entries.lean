import SocketRpc.Proofs.Correlator
import SocketRpc.Proofs.Provider.Moves

namespace SocketRpc.Provider

open Relation (ReflTransGen)

def dispatch? (p : Provider) (c : CallId) : Option Dispatch := (p.phaseOf c).bind Phase.dispatch?

def Fresh (p : Provider) (c : CallId) : Prop := p.nextCall ≤ c ∨ p.phaseOf c = some .start

def Note.Brings (n : Note) (r : Response) : Prop :=
  ∃ l v o, n = .deposited l v (.ok o) ∧ isPush v = false ∧ Response.ofValue v = .ok r

def Note.Plain (F : Failure → Prop) : Note → Prop
  | .claimed _ _ _ | .settled _ _ (.ok _) | .popped _ (some _) | .cleared => False
  | .settled _ _ (.error f) => F f ∨ isTimeout f = false
  | .deposited _ v (.ok _) => isPush v = true
  | _ => True

structure Frame (a : Option CallId) (p q : Provider) (ns : List Note) : Prop where
  notes : q.notes = p.notes ++ ns
  others : ∀ c, a ≠ some c → q.calls.get? c = p.calls.get? c
  fresh : ∀ c, q.Fresh c → p.Fresh c
  nextCall : p.nextCall ≤ q.nextCall
  known : ∀ c, (q.calls.get? c).isSome → (p.calls.get? c).isSome ∨ c < q.nextCall
  op : ∀ c, p.nextCall ≤ c ∨ ∀ o ∈ (q.calls.get? c).map Call.op, o ∈ (p.calls.get? c).map Call.op

structure Keeps (F : Failure → Prop) (a : Option CallId) (p q : Provider) : Prop where
  frame : ∃ ns, Frame a p q ns ∧ ∀ n ∈ ns, n.Plain F
  claims : q.correlator.claims = p.correlator.claims
  dispatch : ∀ c d, q.dispatch? c = some d → p.dispatch? c = some d

inductive Outcome (p : Provider) (d : Dispatch) : Except Failure Response → Prop where
  | answered {r : Response} (h : p.correlator.mail.get? d.ticket = some (.filled r)) : Outcome p d (.ok r)
  | expired (elapsed : Duration) (hw : p.correlator.waiting.get? d.request.id.key = none)
      (hm : ∀ r, p.correlator.mail.get? d.ticket ≠ some (.filled r)) :
      Outcome p d (.error (.timeout d.request.id elapsed))

inductive Entry (F : Failure → Prop) (a : Option CallId) (p q : Provider) : Prop where
  | keep (h : Keeps F a p q)
  | claim {c : CallId} {r : Request} {t : Ticket} {k : Correlator} (ha : a = some c)
      (f : Frame a p q [.claimed c r t]) (hp : p.Fresh c) (hr : p.correlator.register r.id = (.ok t, k))
      (hc : q.correlator.claims = k.claims) (hd : q.dispatch? c = some { request := r, ticket := t })
  | reclaim {c : CallId} {d : Dispatch} {t : Ticket} {k : Correlator} (ha : a = some c)
      (f : Frame a p q [.claimed c d.request t]) (hp : p.dispatch? c = some d)
      (hm : (p.correlator.receive d.ticket).1 = .closed)
      (hr : p.correlator.register d.request.id = (.ok t, k))
      (hc : q.correlator.claims = (k.discard d.ticket).claims)
      (hd : q.dispatch? c = some { d with ticket := t })
  | withdraw {c : CallId} {d : Dispatch} {ns : List Note} (ha : a = some c) (f : Frame a p q ns)
      (hn : ∀ n ∈ ns, n.Plain F) (hp : p.dispatch? c = some d)
      (hc : p.correlator.Closes q.correlator [d.request.id.key])
      (hs : ∀ t, p.correlator.waiting.get? d.request.id.key = some t → .answered t ∈ ns)
      (hd : ∀ c, q.dispatch? c = p.dispatch? c)
  | part {c : CallId} {d : Dispatch} {ns : List Note} (ha : a = some c) (f : Frame a p q ns)
      (hn : ∀ n ∈ ns, n.Plain F) (hp : p.dispatch? c = some d)
      (hc : q.correlator.claims = (p.correlator.discard d.ticket).claims) (hd : q.dispatch? c = none)
  | settle {c : CallId} {d : Dispatch} {r : Except Failure Response} (ha : a = some c)
      (f : Frame a p q [.settled c d.request r]) (hp : p.dispatch? c = some d) (ho : Outcome p d r)
      (hc : q.correlator.claims = (p.correlator.discard d.ticket).claims) (hd : q.dispatch? c = none)
  | pop {k : CacheKey} {r : Response} (ha : a = none) (f : Frame a p q [.popped k (some r)])
      (hr : p.correlator.parked.get? k = some r)
      (hc : q.correlator.claims = { p.correlator with parked := p.correlator.parked.erase k }.claims)
  | deposit {l : ListenerId} {v : Json.Value} {r : Response} {o : Deposit} {k : Correlator} {ns : List Note}
      (ha : a = none) (f : Frame a p q (.deposited l v (.ok o) :: ns)) (hv : isPush v = false)
      (hr : Response.ofValue v = .ok r) (hk : p.correlator.Placed r o k)
      (hc : q.correlator.claims = k.claims)
      (hn : ∀ n ∈ ns, n.Plain F)

variable {F : Failure → Prop} {a : Option CallId} {p q m : Provider} {c : CallId} {d : Dispatch}
  {ns ms : List Note} {ph : Phase}

lemma phaseOf_of_calls (h : q.calls = p.calls) (c : CallId) : q.phaseOf c = p.phaseOf c := by
  rw [phaseOf, phaseOf, h]

lemma phaseOf_of_call {call : Call} (h : p.calls.get? c = some call) : p.phaseOf c = some call.phase := by
  rw [phaseOf, h]
  rfl

lemma call_of_phase (h : p.phaseOf c = some ph) :
    ∃ op, p.calls.get? c = some { op, phase := ph } := by
  obtain ⟨⟨op, _⟩, hc, rfl⟩ := Option.map_eq_some_iff.mp h
  exact ⟨op, hc⟩

lemma isSome_of_phase (h : p.phaseOf c = some ph) : (p.calls.get? c).isSome := by
  obtain ⟨op, hc⟩ := call_of_phase h
  exact Option.isSome_of_mem hc

lemma phaseOf_nextCall (hk : ∀ c, (p.calls.get? c).isSome → c < p.nextCall) : p.phaseOf p.nextCall = none := by
  cases hp : p.phaseOf p.nextCall with
  | none => rfl
  | some ph => exact absurd (hk _ (isSome_of_phase hp)) (Nat.lt_irrefl _)

lemma dispatch?_setPhase (p : Provider) (c b : CallId) (ph : Phase) :
    (p.setPhase c ph).dispatch? b =
      if c = b then (p.phaseOf b).bind fun _ => ph.dispatch? else p.dispatch? b := by
  rw [dispatch?, phaseOf_setPhase]
  split
  · rw [Option.bind_map]
    rfl
  · rfl

lemma Frame.refl (a : Option CallId) (p : Provider) : Frame a p p [] :=
  ⟨(List.append_nil _).symm, fun _ _ => rfl, fun _ h => h, Nat.le_refl _, fun _ h => Or.inl h,
    fun _ => Or.inr fun _ h => h⟩

lemma Frame.trans (f : Frame a p m ns) (g : Frame a m q ms) : Frame a p q (ns ++ ms) where
  notes := by rw [g.notes, f.notes, List.append_assoc]
  others c h := (g.others c h).trans (f.others c h)
  fresh c h := f.fresh c (g.fresh c h)
  nextCall := Nat.le_trans f.nextCall g.nextCall
  known c h := by
    rcases g.known c h with h | h
    · exact (f.known c h).imp_right fun h => Nat.lt_of_lt_of_le h g.nextCall
    · exact Or.inr h
  op c := by
    rcases g.op c with h | h
    · exact Or.inl (Nat.le_trans f.nextCall h)
    · exact (f.op c).imp_right fun hf o ho => hf o (h o ho)

lemma frame_of_calls (hc : q.calls = p.calls) (hn : q.nextCall = p.nextCall) (hs : q.notes = p.notes ++ ns) :
    Frame a p q ns where
  notes := hs
  others c _ := by rw [hc]
  fresh c h := by simpa only [Fresh, phaseOf, hc, hn] using h
  nextCall := Nat.le_of_eq hn.symm
  known c h := Or.inl (by rwa [hc] at h)
  op c := Or.inr fun o h => by rwa [hc] at h

lemma frame_setPhase (hs : ph ≠ .start) : Frame (some c) p (p.setPhase c ph) [] where
  notes := (List.append_nil _).symm
  others b hb := by
    have : c ≠ b := fun h => hb (congrArg some h)
    simp [setPhase, this]
  fresh b hb := by
    rcases hb with hb | hb
    · exact Or.inl hb
    · rw [phaseOf_setPhase] at hb
      split at hb
      · obtain ⟨_, _, hph⟩ := Option.map_eq_some_iff.mp hb
        exact absurd hph hs
      · exact Or.inr hb
  nextCall := Nat.le_refl _
  known b hb := by
    apply Or.inl
    simp only [setPhase, Table.get?_modify] at hb
    split at hb
    · simpa using hb
    · exact hb
  op b := by
    refine Or.inr fun o ho => ?_
    simp only [setPhase, Table.get?_modify] at ho
    split at ho
    · rwa [Option.map_map] at ho
    · exact ho

lemma frame_erase (p : Provider) (c : CallId) :
    Frame (some c) p { p with calls := p.calls.erase c } [] where
  notes := (List.append_nil _).symm
  others b hb := by
    have : c ≠ b := fun h => hb (congrArg some h)
    simp [this]
  fresh b hb := by
    refine hb.imp_right fun hb => ?_
    by_cases h : c = b
    · simp [phaseOf, h] at hb
    · simpa [phaseOf, h] using hb
  nextCall := Nat.le_refl _
  known b hb := by
    apply Or.inl
    by_cases h : c = b
    · simp [h] at hb
    · simpa [h] using hb
  op b := by
    refine Or.inr fun o ho => ?_
    by_cases h : c = b
    · simp [h] at ho
    · simpa [h] using ho

lemma Keeps.refl (F : Failure → Prop) (a : Option CallId) (p : Provider) : Keeps F a p p :=
  ⟨⟨[], Frame.refl a p, by simp⟩, rfl, fun _ _ h => h⟩

lemma Keeps.trans (h : Keeps F a p m) (g : Keeps F a m q) : Keeps F a p q where
  frame := by
    obtain ⟨ns, hf, hn⟩ := h.frame
    obtain ⟨ms, gf, gn⟩ := g.frame
    refine ⟨ns ++ ms, hf.trans gf, fun n hm => ?_⟩
    rcases List.mem_append.mp hm with hm | hm
    · exact hn n hm
    · exact gn n hm
  claims := g.claims.trans h.claims
  dispatch c d hd := h.dispatch c d (g.dispatch c d hd)

lemma keeps_notes (hc : q.calls = p.calls) (hn : q.nextCall = p.nextCall)
    (hk : q.correlator.claims = p.correlator.claims)
    (hs : q.notes = p.notes ++ ns) (hp : ∀ n ∈ ns, n.Plain F) : Keeps F a p q :=
  ⟨⟨ns, frame_of_calls hc hn hs, hp⟩, hk, fun c d h => by simpa only [dispatch?, phaseOf, hc] using h⟩

lemma keeps_same (hc : q.calls = p.calls) (hn : q.nextCall = p.nextCall)
    (hk : q.correlator.claims = p.correlator.claims) (hs : q.notes = p.notes) : Keeps F a p q :=
  keeps_notes hc hn hk (hs.trans (List.append_nil _).symm) (by simp)

lemma keeps_release : Keeps F a p p.release := by
  rw [release]
  split
  · exact keeps_same rfl rfl rfl rfl
  · exact keeps_notes rfl rfl rfl rfl (by simp [Note.Plain])

lemma keeps_setPhase (hs : ph ≠ .start) (hd : ∀ d, ph.dispatch? = some d → p.dispatch? c = some d) :
    Keeps F (some c) p (p.setPhase c ph) where
  frame := ⟨[], frame_setPhase hs, by simp⟩
  claims := rfl
  dispatch b d h := by
    rw [dispatch?_setPhase] at h
    split at h
    · rename_i hb
      obtain ⟨_, -, hph⟩ := Option.bind_eq_some_iff.mp h
      exact hb ▸ hd d hph
    · exact h

lemma keeps_empty (hs : ph ≠ .start) (hd : ph.dispatch? = none) :
    Keeps F (some c) p (p.setPhase c ph) :=
  keeps_setPhase hs fun d h => by simp [hd] at h

lemma keeps_erase : Keeps F (some c) p { p with calls := p.calls.erase c } where
  frame := ⟨[], frame_erase p c, by simp⟩
  claims := rfl
  dispatch b d h := by
    by_cases hb : c = b
    · simp [dispatch?, phaseOf, hb] at h
    · simpa [dispatch?, phaseOf, hb] using h

lemma keeps_finish (r : Except Failure Reply) : Keeps F (some c) p (p.finish c r) :=
    keeps_empty (by simp) rfl

lemma keeps_releaseAndFinish (r : Except Failure Reply) :
    Keeps F (some c) p (p.releaseAndFinish c r) :=
  keeps_release.trans (keeps_finish r)

lemma keeps_publish (s : ConnectionState) : Keeps F a p (p.publish s) :=
  keeps_notes rfl rfl rfl rfl (by simp [Note.Plain])

lemma answer_eq (p : Provider) (c : CallId) (r : Except Failure Response) :
    ∃ k x, k.claims = p.correlator.claims ∧ k.peerClosed = p.correlator.peerClosed ∧
      p.answer c r = finish { p with correlator := k } c x := by
  rw [answer]
  split
  · exact ⟨_, _, rfl, rfl, rfl⟩
  · split <;> exact ⟨_, _, rfl, rfl, rfl⟩
  · split
    · refine ⟨_, _, ?_, ?_, rfl⟩ <;> unfold Correlator.openSubscription <;> split <;> rfl
    · exact ⟨_, _, rfl, rfl, rfl⟩
  · split <;> refine ⟨_, _, ?_, ?_, rfl⟩ <;> rfl
  · exact ⟨_, _, rfl, rfl, rfl⟩

lemma settle_eq (p : Provider) (c : CallId) (y : Request) (r : Except Failure Response) :
    ∃ k x, k.claims = p.correlator.claims ∧ k.peerClosed = p.correlator.peerClosed ∧
      p.settle c y r = finish { p.note (.settled c y r) with correlator := k } c x :=
  answer_eq (p.note (.settled c y r)) c r

lemma calls_settle (p : Provider) (c : CallId) (y : Request) (r : Except Failure Response) :
    ∃ z, (p.settle c y r).calls = p.calls.modify c fun call => { call with phase := .done z } := by
  obtain ⟨k, z, -, -, he⟩ := settle_eq p c y r
  rw [he]
  exact ⟨z, rfl⟩

lemma frame_answer (p : Provider) (c : CallId) (r : Except Failure Response) :
    Frame (some c) p (p.answer c r) [] ∧ (p.answer c r).correlator.claims = p.correlator.claims ∧
      (p.answer c r).dispatch? c = none := by
  obtain ⟨k, x, hk, -, he⟩ := answer_eq p c r
  have f : Frame (some c) p { p with correlator := k } [] :=
    frame_of_calls rfl rfl (List.append_nil _).symm
  rw [he]
  refine ⟨f.trans (frame_setPhase (by simp)), hk, ?_⟩
  rw [finish, dispatch?_setPhase, if_pos rfl]
  simp [Phase.dispatch?]

lemma frame_settle (p : Provider) (c : CallId) (x : Request) (r : Except Failure Response) :
    Frame (some c) p (p.settle c x r) [.settled c x r] ∧
      (p.settle c x r).correlator.claims = p.correlator.claims ∧ (p.settle c x r).dispatch? c = none := by
  obtain ⟨hf, hc, hd⟩ := frame_answer (p.note (.settled c x r)) c r
  have hn : Frame (some c) p (p.note (.settled c x r)) [.settled c x r] := frame_of_calls rfl rfl rfl
  exact ⟨hn.trans hf, hc, hd⟩

lemma frame_settleDispatch (p : Provider) (c : CallId) (d : Dispatch) (r : Except Failure Response) :
    Frame (some c) p (p.settleDispatch c d r) [.settled c d.request r] ∧
      (p.settleDispatch c d r).correlator.claims = (p.correlator.discard d.ticket).claims ∧
      (p.settleDispatch c d r).dispatch? c = none := by
  obtain ⟨hf, hc, hd⟩ := frame_settle { p with correlator := p.correlator.discard d.ticket } c d.request r
  have hn : Frame (some c) p { p with correlator := p.correlator.discard d.ticket } [] :=
    frame_of_calls rfl rfl (List.append_nil _).symm
  exact ⟨hn.trans hf, hc, hd⟩

abbrev Entries (F : Failure → Prop) (a : Option CallId) : Provider → Provider → Prop :=
  ReflTransGen (Entry F a)

lemma dispatch?_of_phase {d : Dispatch} (h : p.phaseOf c = some ph) (hd : ph.dispatch? = some d) :
    p.dispatch? c = some d := by
  rw [dispatch?, h]
  exact hd

lemma keeps_on {d : Dispatch} {ph' : Phase} (h : p.phaseOf c = some ph) (hd : ph.dispatch? = some d)
    (hd' : ph'.dispatch? = some d) : Keeps F (some c) p (p.setPhase c ph') := by
  refine keeps_setPhase ?_ fun x hx => ?_
  · rintro rfl
    cases hd'
  · rw [dispatch?_of_phase h hd, ← hd', hx]

lemma entry_settleError {d : Dispatch} {f : Failure} (h : p.dispatch? c = some d)
    (hf : F f ∨ isTimeout f = false) :
    Entry F (some c) p (p.settleDispatch c d (.error f)) := by
  obtain ⟨hs, hc, hd⟩ := frame_settleDispatch p c d (.error f)
  exact .part rfl hs (by simpa [Note.Plain] using hf) h hc hd

lemma givesUp_dispatch {d : Dispatch} {f : Failure} (h : GivesUp F p c d f) :
    p.dispatch? c = some d := by
  cases h with
  | unconnected h _ | ended h _ _ => exact dispatch?_of_phase h.1 rfl
  | unopened h _ | unheard h | unwritten h _ => exact dispatch?_of_phase h rfl

lemma isTimeout_closedFailure (k : Correlator) : isTimeout k.closedFailure = false := by
  rw [Correlator.closedFailure]
  split <;> rfl

lemma isTimeout_report {cause : ResetCause} {f : Failure} (hf : isTimeout f = false) :
    isTimeout (cause.report f) = false := by
  cases cause with
  | peerClosed => exact hf
  | brokenPipe first hb => cases first <;> first | rfl | cases hb

lemma givesUp_failure {d : Dispatch} {f : Failure} (h : GivesUp F p c d f) : F f ∨
    isTimeout f = false := by
  cases h with
  | unconnected => exact Or.inr rfl
  | ended => exact Or.inr (isTimeout_closedFailure _)
  | unopened _ hf =>
    rename_i cause f _
    cases cause with
    | peerClosed => exact Or.inl hf
    | brokenPipe first hb =>
      exact Or.inr (by cases first <;> first | rfl | cases hb)
  | unheard => exact Or.inr (isTimeout_report (isTimeout_closedFailure _))
  | unwritten _ hf =>
    rcases hf with hf | rfl
    · exact Or.inl hf
    · exact Or.inr rfl

lemma entry_withdrawing {d : Dispatch} {g : Correlator → Correlator} (h : p.dispatch? c = some d)
    (hg : p.correlator.Closes (g p.correlator) [d.request.id.key]) :
    Entry F (some c) p (p.withdrawing d.request.id g) := by
  refine .withdraw rfl (frame_of_calls rfl rfl rfl) ?_ h hg ?_ fun _ => rfl
  · intro n hn
    obtain ⟨t, -, rfl⟩ := List.mem_map.mp hn
    trivial
  · intro t ht
    simp [ht]

lemma entries_failSend {d : Dispatch} {f : Failure} (h : GivesUp F p c d f) :
    Entries F (some c) p (p.failSend c d f) := by
  have hd : p.release.dispatch? c = some d := by
    rw [dispatch?, phaseOf_release]
    exact givesUp_dispatch h
  exact .head (.keep keeps_release)
    (.head (entry_withdrawing hd (p.release.correlator.forget_closes d.request.id))
      (.single (entry_settleError hd (givesUp_failure h))))

lemma keeps_unlock (p : Provider) (c : CallId) : Keeps F a p (p.unlock c) := by
  rw [unlock]
  split
  · exact keeps_release
  · exact keeps_same rfl rfl rfl rfl

lemma calls_drop (h : p.phaseOf c = some ph) : (p.drop c).calls = p.calls.erase c := by
  have hg : (p.giveBack ph).calls = p.calls := by
    simp only [giveBack]
    split <;> rfl
  simp only [drop, h, unlock]
  split
  · rw [calls_release, hg]
  · rw [← hg]

lemma phaseOf_drop (h : p.phaseOf c = some ph) : (p.drop c).phaseOf c = none := by
  rw [phaseOf, calls_drop h, Table.get?_erase, if_pos rfl]
  rfl

lemma entries_drop (h : p.phaseOf c = some ph) : Entries F (some c) p (p.drop c) := by
  simp only [drop, h]
  cases hd : ph.dispatch? with
  | some d =>
    have hg : p.giveBack ph = { p with correlator := p.correlator.discard d.ticket } := by
      simp only [giveBack, hd]
    have hf : Frame (some c) p { p with correlator := p.correlator.discard d.ticket } [] :=
      frame_of_calls rfl rfl (List.append_nil _).symm
    rw [hg]
    refine .head (.part (d := d) rfl (hf.trans (frame_erase _ c)) (by simp) (dispatch?_of_phase h hd) rfl ?_)
      (.single (.keep (keeps_unlock _ c)))
    simp [dispatch?, phaseOf]
  | none =>
    have hg : Keeps F (some c) p (p.giveBack ph) := by
      simp only [giveBack, hd]
      split
      · contradiction
      · exact keeps_notes rfl rfl rfl rfl (by simp [Note.Plain])
      · exact Keeps.refl F _ p
    exact .single (.keep (hg.trans (keeps_erase.trans (keeps_unlock _ c))))

lemma keeps_read (p : Provider) (c : CallId) (s : SubscriptionId) (epoch : Nat) :
    Keeps F (some c) p (p.readNotification c s epoch) := by
  have hk := p.correlator.claims_nextNotification s epoch
  rw [readNotification]
  split
  · rename_i k hn
    rw [hn] at hk
    have h : Keeps F (some c) p { p with correlator := k } := keeps_same rfl rfl hk rfl
    exact h.trans (keeps_finish _)
  · exact keeps_empty (by simp) rfl

lemma keeps_newCall (p : Provider) (op : Operation) :
    Keeps F (some p.nextCall) p (p.newCall op) where
  frame := by
    refine ⟨[], ⟨(List.append_nil _).symm, fun c hc => ?_, fun c hc => ?_, Nat.le_succ _, fun c hc => ?_,
      fun c => ?_⟩, by simp⟩
    · have : p.nextCall ≠ c := fun h => hc (congrArg some h)
      simp [newCall, this]
    · rcases hc with hc | hc
      · exact Or.inl (Nat.le_of_succ_le hc)
      · by_cases h : p.nextCall = c
        · exact Or.inl (Nat.le_of_eq h)
        · exact Or.inr (by simpa [newCall, phaseOf, h] using hc)
    · by_cases h : p.nextCall = c
      · exact Or.inr (h ▸ Nat.lt_succ_self _)
      · exact Or.inl (by simpa [newCall, h] using hc)
    · by_cases h : p.nextCall = c
      · exact Or.inl (Nat.le_of_eq h)
      · exact Or.inr fun o ho => by simpa [newCall, h] using ho
  claims := rfl
  dispatch c d hd := by
    by_cases h : p.nextCall = c
    · simp [newCall, dispatch?, phaseOf, h, Phase.dispatch?] at hd
    · simpa [newCall, dispatch?, phaseOf, h] using hd

lemma keeps_askLock {e : Errand} (he : (Phase.locking e).dispatch? = none) :
    Keeps F (some c) p (p.askLock c e) := by
  have h : Keeps F (some c) p { p with lock := p.lock.ask c } := keeps_same rfl rfl rfl rfl
  exact h.trans (keeps_empty (by simp) he)

lemma errand_dispatch? {op : Operation} {e : Errand} (h : op.errand? = some e) :
    (Phase.locking e).dispatch? = none := by
  cases op <;> cases h <;> rfl

lemma entries_claim {r : Request} {n : Nat} {t : Ticket} {k : Correlator} (h : p.phaseOf c = some .start)
    (hr : p.correlator.register r.id = (.ok t, k)) :
    Entry F (some c) p (({ p with nextId := n, correlator := k }.note (.claimed c r t)).askLock c
        (.send { request := r, ticket := t })) := by
  have hf : Frame (some c) p { { p with nextId := n, correlator := k }.note (.claimed c r t) with
      lock := p.lock.ask c } [.claimed c r t] := frame_of_calls rfl rfl rfl
  refine .claim rfl (hf.trans (frame_setPhase (by simp))) (Or.inr h) hr rfl ?_
  exact dispatch?_of_phase (phaseOf_setPhase_self h) rfl

lemma entries_reclaim {d : Dispatch} {started : Nat} {t : Ticket} {k : Correlator}
    (h : p.phaseOf c = some (.awaiting d started)) (hm : (p.correlator.receive d.ticket).1 = .closed)
    (hr : p.correlator.register d.request.id = (.ok t, k)) :
    Entry F (some c) p ((({ p with correlator := k.discard d.ticket }).note
      (.claimed c d.request t)).setPhase c (.awaiting { d with ticket := t } p.now)) := by
  have hf : Frame (some c) p ({ p with correlator := k.discard d.ticket }.note (.claimed c d.request t))
      [.claimed c d.request t] := frame_of_calls rfl rfl rfl
  refine .reclaim rfl (hf.trans (frame_setPhase (by simp))) (dispatch?_of_phase h rfl) hm hr rfl ?_
  exact dispatch?_of_phase (phaseOf_setPhase_self h) rfl

lemma discard_closeTicket (k : Correlator) (t : Ticket) :
    (k.closeTicket t).discard t = k.discard t := by
  simp [Correlator.closeTicket, Correlator.discard]

lemma entries_receive {d : Dispatch} {r : Response} {k : Correlator} (h : p.dispatch? c = some d)
    (hm : p.correlator.receive d.ticket = (.filled r, k)) :
    Entry F (some c) p ({ p with correlator := k }.settleDispatch c d (.ok r)) := by
  obtain ⟨hr, rfl⟩ := Correlator.receive_filled hm
  obtain ⟨hf, hc, hd⟩ :=
    frame_settleDispatch { p with correlator := p.correlator.closeTicket d.ticket } c d (.ok r)
  have hn : Frame (some c) p { p with correlator := p.correlator.closeTicket d.ticket } [] :=
    frame_of_calls rfl rfl (List.append_nil _).symm
  exact .settle rfl (hn.trans hf) h (.answered hr) (by rw [hc, discard_closeTicket]) hd

lemma entries_timeOut {d : Dispatch} {elapsed : Duration} (h : p.dispatch? c = some d)
    (hm : (p.correlator.receive d.ticket).1 = .empty) :
    Entries F (some c) p ((p.withdrawing d.request.id (·.abandon d.request.id)).settleDispatch c d
      (.error (.timeout d.request.id elapsed))) := by
  have hg := p.correlator.abandon_closes d.request.id
  obtain ⟨hf, hc, hd⟩ := frame_settleDispatch (p.withdrawing d.request.id (·.abandon d.request.id)) c d
    (.error (.timeout d.request.id elapsed))
  refine .head (entry_withdrawing h hg) (.single (.settle rfl hf h (.expired _ ?_ fun r hr => ?_) hc hd))
  · exact p.correlator.waiting_abandon d.request.id
  · have hm := Correlator.receive_empty hm
    by_cases hk : ∀ k ∈ [d.request.id.key], p.correlator.waiting.get? k ≠ some d.ticket
    · have hr' := (hg.kept d.ticket hk).symm.trans hr
      rw [hm] at hr'
      cases hr'
    · obtain ⟨k, hk⟩ := not_forall.mp hk
      obtain ⟨hk, hw⟩ := not_forall.mp hk
      have hr' := (hg.closed k hk d.ticket (not_not.mp hw)).symm.trans hr
      rw [hm] at hr'
      cases hr'

lemma entries_pop (p : Provider) (k : CacheKey) :
    Entry F none p
      ({ p with correlator := (p.correlator.pop k).2 }.note (.popped k (p.correlator.pop k).1)) := by
  rw [Correlator.pop]
  split
  · exact .pop rfl (frame_of_calls rfl rfl rfl) ‹_› rfl
  · exact .keep (keeps_notes rfl rfl rfl rfl (by simp [Note.Plain]))

lemma leave_notes (p : Provider) (l : ListenerId) (v : Json.Value) :
    ∃ ns, (p.leave l v).2 = { p with
      correlator := (p.correlator.deposit v (isPush v)).2
      notes := p.notes ++ Note.deposited l v (p.correlator.deposit v (isPush v)).1 :: ns } ∧
        ∀ n ∈ ns, n = .notified ∨ ∃ t, n = .answered t := by
  unfold leave noteDeposit
  dsimp only
  split
  · rename_i t _
    exact ⟨[.answered t], by simp [note], by simp⟩
  · exact ⟨[.notified], by simp [note], by simp⟩
  · exact ⟨[], by simp [note], by simp⟩

lemma entries_deposit (p : Provider) (l : ListenerId) (v : Json.Value) :
    Entry F none p (p.leave l v).2 := by
  obtain ⟨ns, hq, hns⟩ := p.leave_notes l v
  have hn : ∀ n ∈ ns, n.Plain F := fun n hm => by
    rcases hns n hm with rfl | ⟨t, rfl⟩ <;> trivial
  rw [hq]
  rcases p.correlator.deposit_cases v (isPush v) with ⟨r, o, hv, hr, ho, hp⟩ | ⟨hc, he⟩
  · rw [ho]
    exact .deposit rfl (frame_of_calls rfl rfl rfl) hv hr hp rfl hn
  · refine .keep (keeps_notes rfl rfl hc rfl ?_)
    intro n hm
    rcases List.mem_cons.mp hm with rfl | hm
    · rcases he with ⟨f, hf⟩ | hv
      · rw [hf]
        trivial
      · cases (p.correlator.deposit v (isPush v)).1 with
        | error f => trivial
        | ok o => exact hv
    · exact hn n hm

lemma dispatch?_of_frame (f : Frame (some c) p q ns) (h : q.dispatch? c = none) {b : CallId} {d : Dispatch}
    (hd : q.dispatch? b = some d) : p.dispatch? b = some d := by
  have hb : some c ≠ some b := by
    rintro ⟨rfl⟩
    rw [h] at hd
    cases hd
  simpa only [dispatch?, phaseOf, f.others b hb] using hd

lemma keeps_settle (p : Provider) (c : CallId) (x : Request) {f : Failure} (hf : isTimeout f = false) :
    Keeps F (some c) p (p.settle c x (.error f)) := by
  obtain ⟨hs, hc, hd⟩ := frame_settle p c x (.error f)
  exact ⟨⟨_, hs, by simp [Note.Plain, hf]⟩, hc, fun b d => dispatch?_of_frame hs hd⟩

lemma keeps_spawn (p : Provider) (s : SocketId) : Keeps F a p (p.spawn s) :=
  keeps_notes rfl rfl rfl rfl (by simp [Note.Plain])

lemma keeps_letGo (p : Provider) (l : ListenerId) : Keeps F a p (p.letGo l) :=
  keeps_notes rfl rfl rfl rfl (by simp [Note.Plain])

lemma keeps_abortListener (p : Provider) (l : ListenerId) : Keeps F a p (p.abortListener l) :=
  keeps_notes rfl rfl rfl rfl (by simp [Note.Plain])

lemma keeps_resume (p : Provider) (l : ListenerId) (s : SocketId) : Keeps F a p (p.resume l s) := by
  unfold resume
  dsimp only
  split
  · exact keeps_notes rfl rfl rfl rfl (by simp [Note.Plain])
  · refine Keeps.trans ?_ (keeps_publish _)
    exact keeps_notes rfl rfl rfl rfl (by simp [Note.Plain])

theorem calm_entries (h : Calm F p a q) : Entries F a p q := by
  have keep : Keeps F a p q → Entries F a p q := fun h => .single (.keep h)
  cases h with
  | call op => exact keep (keeps_newCall p op)
  | seek h he => exact keep (keeps_askLock (errand_dispatch? he))
  | refuse h hd hr =>
    rename_i c op r n f k
    obtain ⟨-, rfl, rfl⟩ := Correlator.register_error hr
    have hn : Keeps F (some c) p { p with nextId := n, correlator := p.correlator } :=
      keeps_same rfl rfl rfl rfl
    exact keep (hn.trans (keeps_settle _ _ _ rfl))
  | claim h hd hr => exact .single (entries_claim (by simp [phaseOf, h]) hr)
  | collect h => exact keep keeps_erase
  | drop h => exact entries_drop h
  | read h => exact keep (keeps_read p _ _ _)
  | take s => exact keep (keeps_same rfl rfl (p.correlator.claims_popSubscription s) rfl)
  | leave h he r => exact keep (keeps_releaseAndFinish r)
  | yield h => exact keep (keeps_release.trans (keeps_askLock rfl))
  | attempt h hs => exact keep ((keeps_publish _).trans (keeps_empty (by simp) rfl))
  | replace h hs hu =>
    rename_i c conn
    have hn : Keeps F (some c) p { p with slot := none } := keeps_same rfl rfl rfl rfl
    exact keep (hn.trans (keeps_empty (by simp) rfl))
  | disconnect h hs =>
    rename_i c conn
    have hn : Keeps F (some c) p { p with slot := none } := keeps_same rfl rfl rfl rfl
    exact keep (hn.trans ((keeps_publish _).trans (keeps_empty (by simp) rfl)))
  | giveUp h => exact entries_failSend h
  | reset h | write h => exact keep (keeps_on h.1 rfl rfl)
  | letGo h =>
    exact keep ((keeps_letGo p _).trans
      ((keeps_abortListener _ _).trans (keeps_empty (by simp) rfl)))
  | connect h =>
    rename_i c t
    have hn : Keeps F (some c) p p.takeSocket.2 := keeps_same rfl rfl rfl rfl
    exact keep (hn.trans ((keeps_spawn _ _).trans ((keeps_publish _).trans (keeps_releaseAndFinish _))))
  | pause | retry => exact keep (keeps_empty (by simp) rfl)
  | exhaust h hd f => exact keep ((keeps_publish _).trans (keeps_releaseAndFinish _))
  | resetClosed h | progress _ h | breakPipe h => exact keep (keeps_on h rfl rfl)
  | resetOpened h =>
    rename_i c d cause
    have hn : Keeps F (some c) p { p.takeSocket.2 with slot := p.slot.map fun (conn : Connection) =>
        { conn with writer := p.nextSocket } } := keeps_same rfl rfl rfl rfl
    exact keep (hn.trans (keeps_on h rfl rfl))
  | hand h hs hf hr =>
    rename_i c d cause s conn
    have hn : Keeps F (some c) p { (p.setListener conn.listener fun li =>
        { li with replacement := some s }).note (.swapped conn.listener) with
          correlator := p.correlator.reopen } := keeps_notes rfl rfl rfl rfl (by simp [Note.Plain])
    exact keep (hn.trans (keeps_on h rfl rfl))
  | written h => exact keep (keeps_release.trans (keeps_on (by rw [phaseOf_release, h]) rfl rfl))
  | reclaim h hm hr => exact .single (entries_reclaim h hm hr)
  | reclaimRefused h hm hr =>
    obtain ⟨-, rfl, rfl⟩ := Correlator.register_error hr
    exact .single (entry_settleError (dispatch?_of_phase h rfl) (Or.inr rfl))
  | receive h hm => exact .single (entries_receive (dispatch?_of_phase h rfl) hm)
  | closedOut h hm =>
    exact .single (entry_settleError (dispatch?_of_phase h rfl) (Or.inr (isTimeout_closedFailure _)))
  | timeOut h hm ht => exact entries_timeOut (dispatch?_of_phase h rfl) hm
  | pop k => exact .single (entries_pop p k)
  | elapse | work => exact keep (keeps_same rfl rfl rfl rfl)
  | deposit h v => exact .single (entries_deposit p _ v)
  | resume h hf ha hs => exact keep (keeps_resume p _ _)
  | retire h hf ha => exact keep (keeps_notes rfl rfl rfl rfl (by simp [Note.Plain]))

lemma calms_entries (h : Calms F a p q) : Entries F a p q := by
  induction h with
  | refl => exact .refl
  | tail _ hm ih => exact ih.trans (calm_entries hm)

lemma Entry.frame (h : Entry F a p q) : ∃ ns, Frame a p q ns := by
  cases h with
  | keep h =>
    obtain ⟨ns, f, -⟩ := h.frame
    exact ⟨ns, f⟩
  | claim _ f | reclaim _ f | withdraw _ f | part _ f | settle _ f | pop _ f | deposit _ f => exact ⟨_, f⟩

lemma entries_frame (h : Entries F a p q) : ∃ ns, Frame a p q ns := by
  induction h with
  | refl => exact ⟨[], Frame.refl a p⟩
  | tail _ he ih =>
    obtain ⟨ns, f⟩ := ih
    obtain ⟨ms, g⟩ := he.frame
    exact ⟨ns ++ ms, f.trans g⟩

structure Sweep (p q : Provider) : Prop where
  closes : p.correlator.waiting.Distinct →
    p.correlator.Closes q.correlator p.correlator.waiting.keys
  frame : ∃ ns, Frame none p q ns ∧ (∀ F, ∀ n ∈ ns, n.Plain F) ∧
    ∀ k t, p.correlator.waiting.get? k = some t → .answered t ∈ ns
  calls : q.calls = p.calls

lemma sweep_dismissing {g : Correlator → Correlator}
    (hg : p.correlator.waiting.Distinct →
      p.correlator.Closes (g p.correlator) p.correlator.waiting.keys) :
    Sweep p (p.dismissing g) where
  closes := hg
  frame := by
    refine ⟨_, frame_of_calls rfl rfl (List.append_assoc _ _ _), ?_, fun k t h => ?_⟩
    · intro F n hn
      rcases List.mem_append.mp hn with hn | hn
      · obtain ⟨t, -, rfl⟩ := List.mem_map.mp hn
        trivial
      · cases List.mem_singleton.mp hn
        trivial
    · exact List.mem_append_left _ (List.mem_map_of_mem (Table.mem_values_of_get? h))
  calls := rfl

def Joins (p : Provider) (a : Option CallId) : Prop :=
  ∀ c, a = some c → ∃ l next, p.phaseOf c = some (.joining l next)

theorem upheaval_entries (F : Failure → Prop) (h : Upheaval p q) :
    ∃ a m, p.Joins a ∧ Sweep p m ∧
      (Keeps F a m q ∨ m.correlator.parked = {} ∧ Keeps F a (m.note .cleared) q) := by
  cases h with
  | tear h hf =>
    rename_i c l next
    refine ⟨some c, _, ?_, sweep_dismissing Correlator.clear_closes, Or.inr ⟨rfl, ?_⟩⟩
    · rintro b ⟨⟩
      exact ⟨l, next, h⟩
    · cases next with
      | connect => exact (keeps_publish _).trans (keeps_empty (by simp) rfl)
      | disconnect => exact (keeps_publish _).trans (keeps_releaseAndFinish _)
  | orphan h =>
    refine ⟨none, _, by simp [Joins], sweep_dismissing fun hd => ?_,
      Or.inl ((keeps_publish _).trans (keeps_same rfl rfl rfl rfl))⟩
    exact (Correlator.dismiss_closes hd).of_claims rfl
  | fail h hs f =>
    simp only [fault, hs]
    refine ⟨none, p.dismissing fun k => k.fail f.message, by simp [Joins], sweep_dismissing fun hd => ?_,
      Or.inl ((keeps_publish .disconnected).trans ?_)⟩
    · exact (Correlator.dismiss_closes hd).of_claims rfl
    · exact keeps_notes rfl rfl rfl rfl (by simp [Note.Plain])

lemma Sweep.frame_any (h : Sweep p q) (a : Option CallId) : ∃ ns, Frame a p q ns := by
  obtain ⟨ns, f, -⟩ := h.frame
  exact ⟨ns, f.notes, fun c _ => by rw [h.calls], f.fresh, f.nextCall, f.known, f.op⟩

lemma upheaval_frame (h : Upheaval p q) : ∃ a ns, p.Joins a ∧ Frame a p q ns := by
  obtain ⟨a, m, hj, hs, hk⟩ := upheaval_entries (fun _ => True) h
  obtain ⟨ns, f⟩ := hs.frame_any a
  rcases hk with hk | ⟨-, hk⟩
  · obtain ⟨ms, g, -⟩ := hk.frame
    exact ⟨a, _, hj, f.trans g⟩
  · obtain ⟨ms, g, -⟩ := hk.frame
    have hn : Frame a m (m.note .cleared) [.cleared] := frame_of_calls rfl rfl rfl
    exact ⟨a, _, hj, f.trans (hn.trans g)⟩

theorem invariant_of_entries {I : Provider → Prop}
    (entry : ∀ a p q, I p → Entry F a p q → I q) (sweep : ∀ p q, I p → Sweep p q → I q)
    (cleared : ∀ p, I p → p.correlator.parked = {} → I (p.note .cleared)) (hp : I p)
    {es : List Event} (hf : ∀ e ∈ es, ∀ f, e.failure? = some f → F f) : I (p.steps es) := by
  refine invariant_of_moves (F := F) (fun p a q hp h => ?_) (fun p q hp h => ?_) hp hf
  · have hs := calm_entries h
    clear h
    induction hs with
    | refl => exact hp
    | tail _ hm ih => exact entry _ _ _ ih hm
  · obtain ⟨a, m, -, hs, hk | ⟨hm, hk⟩⟩ := upheaval_entries F h
    · exact entry a m q (sweep p m hp hs) (.keep hk)
    · exact entry a _ q (cleared m (sweep p m hp hs) hm) (.keep hk)

end SocketRpc.Provider
