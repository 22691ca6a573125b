import SocketRpc.Proofs.Provider.Drops

/-!
Claims without a response belong to calls whose requests are in progress: there is one for each at most, and
none is left once the call is through with its request.
-/

namespace SocketRpc.Provider

variable {F : Failure → Prop} {a : Option CallId} {p q m : Provider} {c b : CallId} {d e : Dispatch}
  {N M ns : List Note} {x y : Note} {r s : Request} {t u : Ticket} {ph ph' : Phase} {i j : Nat} {id : RequestId}
  {res : Except Failure Response}

def Phase.carries (ph : Phase) : Bool := ph.dispatch?.isSome

/-- Until a call is through with its request, no other call claims a response of its identifier. -/
def reserved (c : CallId) (id : RequestId) : List Note → Bool
  | [] => true
  | .claimed b r _ :: N => (r.id ≠ id || b = c) && reserved c id N
  | .settled b _ _ :: N => b = c || reserved c id N
  | _ :: N => reserved c id N

/-- Requests in progress at the same time have different identifiers. -/
def exclusive : List Note → Bool
  | [] => true
  | .claimed c r _ :: N => reserved c r.id N && exclusive N
  | _ :: N => exclusive N

lemma reserved_claimed : reserved c id (.claimed b r t :: N) ↔ (r.id = id → b = c) ∧ reserved c id N := by
  simp [reserved, Decidable.imp_iff_not_or]

lemma reserved_settled : reserved c id (.settled b r res :: N) ↔ b = c ∨ reserved c id N := by
  simp [reserved]

lemma exclusive_claimed : exclusive (.claimed c r t :: N) ↔ reserved c r.id N ∧ exclusive N := by
  simp [exclusive]

lemma reserved_of_append (h : reserved c id (N ++ M)) : reserved c id N := by
  induction N with
  | nil => rfl
  | cons x N ih =>
    cases x with
    | claimed => exact reserved_claimed.mpr ((reserved_claimed.mp h).imp_right ih)
    | settled => exact reserved_settled.mpr ((reserved_settled.mp h).imp_right ih)
    | _ => exact ih h

lemma exclusive_of_append (h : exclusive (N ++ M)) : exclusive N := by
  induction N with
  | nil => rfl
  | cons x N ih =>
    cases x with
    | claimed => exact exclusive_claimed.mpr ((exclusive_claimed.mp h).imp reserved_of_append ih)
    | _ => exact ih h

lemma caller_of_reserved (h : reserved c id N) (hs : ∀ y z, .settled c y z ∉ N) (hb : Claimed N i b r t)
    (hid : r.id = id) : b = c := by
  induction N generalizing i with
  | nil => cases hb
  | cons x N ih =>
    have rest : ∀ y z, Note.settled c y z ∉ N := fun y z hm => hs y z (List.mem_cons_of_mem _ hm)
    cases i with
    | zero =>
      obtain rfl : x = .claimed b r t := Option.some.inj hb
      exact (reserved_claimed.mp h).1 hid
    | succ i =>
      cases x with
      | claimed => exact ih (reserved_claimed.mp h).2 rest hb
      | settled =>
        rcases reserved_settled.mp h with rfl | h
        · exact absurd List.mem_cons_self (hs _ _)
        · exact ih h rest hb
      | _ => exact ih h rest hb

lemma caller_of_exclusive (h : exclusive N) (hb : Claimed N i b r t) (hc : Claimed N j c s u) (hid : r.id = s.id)
    (hnb : ∀ y z, .settled b y z ∉ N) (hnc : ∀ y z, .settled c y z ∉ N) : b = c := by
  induction N generalizing i j with
  | nil => cases hb
  | cons x N ih =>
    have rest : ∀ {b}, (∀ y z, Note.settled b y z ∉ x :: N) → ∀ y z, Note.settled b y z ∉ N :=
      fun hs y z hm => hs y z (List.mem_cons_of_mem _ hm)
    cases i with
    | zero =>
      obtain rfl : x = .claimed b r t := Option.some.inj hb
      cases j with
      | zero => cases hc; rfl
      | succ j => exact (caller_of_reserved (exclusive_claimed.mp h).1 (rest hnb) hc hid.symm).symm
    | succ i =>
      cases j with
      | zero =>
        obtain rfl : x = .claimed c s u := Option.some.inj hc
        exact caller_of_reserved (exclusive_claimed.mp h).1 (rest hnc) hb hid
      | succ j =>
        have tail : exclusive N := by
          cases x with
          | claimed => exact (exclusive_claimed.mp h).2
          | _ => exact h
        exact ih tail hb hc (rest hnb) (rest hnc)

def Note.tacit : Note → Bool
  | .claimed _ _ _ | .settled _ _ _ => false
  | _ => true

structure Stays (p q : Provider) : Prop where
  notes : ∃ ns, q.notes = p.notes ++ ns ∧ ∀ x ∈ ns, x.tacit
  waiting : ∀ k t, q.correlator.waiting.get? k = some t → p.correlator.waiting.get? k = some t
  dispatch : ∀ c, q.dispatch? c = p.dispatch? c
  nextId : q.nextId = p.nextId

lemma Stays.trans (h : Stays p m) (g : Stays m q) : Stays p q where
  notes := by
    obtain ⟨ns, hn, hs⟩ := h.notes
    obtain ⟨ms, gn, gs⟩ := g.notes
    refine ⟨ns ++ ms, by rw [gn, hn, List.append_assoc], fun x hx => ?_⟩
    exact (List.mem_append.mp hx).elim (hs x) (gs x)
  waiting _ _ hk := h.waiting _ _ (g.waiting _ _ hk)
  dispatch c := (g.dispatch c).trans (h.dispatch c)
  nextId := g.nextId.trans h.nextId

lemma stays_notes (hc : q.calls = p.calls) (hw : q.correlator.waiting = p.correlator.waiting)
    (hn : q.notes = p.notes ++ ns) (hs : ∀ x ∈ ns, x.tacit) (hi : q.nextId = p.nextId) : Stays p q :=
  ⟨⟨ns, hn, hs⟩, fun _ _ hk => hw ▸ hk, dispatch?_of_calls hc, hi⟩

lemma stays_same (hc : q.calls = p.calls) (hw : q.correlator.waiting = p.correlator.waiting)
    (hn : q.notes = p.notes) (hi : q.nextId = p.nextId) : Stays p q :=
  stays_notes hc hw (hn.trans (List.append_nil _).symm) nofun hi

lemma stays_note (hx : x.tacit) : Stays p (p.note x) := stays_notes rfl rfl rfl (by simpa using hx) rfl

lemma stays_release : Stays p p.release := by
  rw [release]
  split
  · exact stays_same rfl rfl rfl rfl
  · exact stays_notes rfl rfl rfl (by simp [Note.tacit]) rfl

lemma stays_publish (s : ConnectionState) : Stays p (p.publish s) :=
  stays_notes rfl rfl rfl (by simp [Note.tacit]) rfl

lemma stays_setPhase (hp : p.phaseOf c = some ph) (hd : ph'.dispatch? = ph.dispatch?) :
    Stays p (p.setPhase c ph') where
  notes := ⟨[], (List.append_nil _).symm, nofun⟩
  waiting _ _ hk := hk
  dispatch b := by
    rw [dispatch?_setPhase]
    split
    · rename_i hb
      subst hb
      rw [dispatch?, hp]
      exact hd
    · rfl
  nextId := rfl

lemma stays_moved (hc : m.calls = p.calls) (hw : m.correlator.waiting = p.correlator.waiting)
    (hn : m.notes = p.notes ++ ns) (hs : ∀ x ∈ ns, x.tacit) (hi : m.nextId = p.nextId)
    (hp : p.phaseOf c = some ph) (hd : ph'.dispatch? = ph.dispatch?) : Stays p (m.setPhase c ph') :=
  (stays_notes hc hw hn hs hi).trans (stays_setPhase ((phaseOf_of_calls hc c).trans hp) hd)

lemma stays_erase (hp : p.phaseOf c = some ph) (hd : ph.dispatch? = none) :
    Stays p { p with calls := p.calls.erase c } where
  notes := ⟨[], (List.append_nil _).symm, nofun⟩
  waiting _ _ hk := hk
  dispatch b := by
    by_cases hb : c = b
    · subst hb
      rw [dispatch?, dispatch?, hp]
      simp [phaseOf, hd]
    · simp [dispatch?, phaseOf, hb]
  nextId := rfl

lemma stays_unlock (p : Provider) (c : CallId) : Stays p (p.unlock c) := by
  rw [unlock]
  split
  · exact stays_release
  · exact stays_same rfl rfl rfl rfl

lemma stays_releaseAndFinish (hp : p.phaseOf c = some ph) (hd : ph.dispatch? = none) (z : Except Failure Reply) :
    Stays p (p.releaseAndFinish c z) :=
  stays_release.trans (stays_setPhase ((phaseOf_release p c).trans hp) hd.symm)

lemma stays_askLock (hp : p.phaseOf c = some ph) {z : Errand} (hd : (Phase.locking z).dispatch? = ph.dispatch?) :
    Stays p (p.askLock c z) := by
  have h : Stays p { p with lock := p.lock.ask c } := stays_same rfl rfl rfl rfl
  exact h.trans (stays_setPhase hp hd)

lemma stays_drop (hp : p.phaseOf c = some ph) (hd : ph.dispatch? = none) : Stays p (p.drop c) := by
  have hg : Stays p (p.giveBack ph) := by
    simp only [giveBack, hd]
    split
    · contradiction
    · exact stays_notes rfl rfl rfl (by simp [Note.tacit]) rfl
    · exact stays_same rfl rfl rfl rfl
  have hc : (p.giveBack ph).phaseOf c = some ph := by
    rw [← hp]
    refine phaseOf_of_calls ?_ c
    simp only [giveBack]
    split <;> rfl
  simp only [drop, hp]
  exact hg.trans ((stays_erase hc hd).trans (stays_unlock _ c))

lemma notes_drop (hp : p.phaseOf c = some ph) : ∃ ns, (p.drop c).notes = p.notes ++ ns ∧ ∀ x ∈ ns, x.tacit := by
  have hg : ∃ ns, (p.giveBack ph).notes = p.notes ++ ns ∧ ∀ x ∈ ns, x.tacit := by
    simp only [giveBack]
    split
    · exact ⟨[], (List.append_nil _).symm, by simp⟩
    · exact ⟨_, rfl, by simp [Note.tacit]⟩
    · exact ⟨[], (List.append_nil _).symm, by simp⟩
  obtain ⟨ns, hn, hs⟩ := hg
  obtain ⟨ms, gn, gs⟩ := (stays_unlock { p.giveBack ph with calls := (p.giveBack ph).calls.erase c } c).notes
  simp only [drop, hp]
  refine ⟨ns ++ ms, by rw [gn]; exact (congrArg (· ++ ms) hn).trans (List.append_assoc _ _ _), fun x hx => ?_⟩
  exact (List.mem_append.mp hx).elim (hs x) (gs x)

lemma stays_read (hp : p.phaseOf c = some ph) (hd : ph.dispatch? = none) (i : SubscriptionId) (epoch : Nat) :
    Stays p (p.readNotification c i epoch) := by
  have hk := (Correlator.fields_of_claims (p.correlator.claims_nextNotification i epoch)).1
  rw [readNotification]
  split
  · rename_i k hn
    rw [hn] at hk
    have h : Stays p { p with correlator := k } := stays_same rfl hk rfl rfl
    exact h.trans (stays_setPhase hp hd.symm)
  · exact stays_setPhase hp hd.symm

lemma stays_deposit (hl : Ledger p) (l : ListenerId) (v : Json.Value) : Stays p (p.leave l v).2 := by
  obtain ⟨ns, hq, hn⟩ := p.leave_notes l v
  rw [hq]
  refine ⟨⟨_, rfl, fun x hx => ?_⟩, fun k t hk => ?_, fun _ => rfl, rfl⟩
  · rcases List.mem_cons.mp hx with rfl | hx
    · rfl
    · rcases hn x hx with rfl | ⟨t, rfl⟩ <;> rfl
  · rcases p.correlator.deposit_cases v (isPush v) with ⟨r, o, -, -, -, hp⟩ | ⟨hc, -⟩
    · exact (((hl.receives hp).waiting k t).mp hk).1
    · exact (Correlator.fields_of_claims hc).1 ▸ hk

lemma stays_resume (p : Provider) (l : ListenerId) (s : SocketId) : Stays p (p.resume l s) := by
  unfold resume
  dsimp only
  split
  · exact stays_notes rfl rfl rfl (by simp [Note.tacit]) rfl
  · refine Stays.trans ?_ (stays_publish _)
    exact stays_notes rfl rfl rfl (by simp [Note.tacit]) rfl

inductive Resolves (F : Failure → Prop) (p : Provider) (c : CallId) (d : Dispatch) :
    Except Failure Response → Prop where
  | answered (r : Response) : Resolves F p c d (.ok r)
  | givenUp {f : Failure} (h : p.GivesUp F c d f) : Resolves F p c d (.error f)
  | refused {f : Failure} (hm : (p.correlator.receive d.ticket).1 = .closed)
      (hr : (p.correlator.register d.request.id).1 = .error f) : Resolves F p c d (.error f)
  | closed : Resolves F p c d (.error p.correlator.closedFailure)
  | late (elapsed : Duration) : Resolves F p c d (.error (.timeout d.request.id elapsed))

inductive Handles (F : Failure → Prop) (p : Provider) : Option CallId → Provider → Prop where
  | stay {a : Option CallId} {q : Provider} (h : Stays p q) : Handles F p a q
  | refuse {c : CallId} {q : Provider} {r : Request} {f : Failure} (hp : p.phaseOf c = some .start)
      (hn : q.notes = p.notes ++ [.settled c r (.error f)])
      (hw : q.correlator.waiting = p.correlator.waiting) (hq : ∃ z, q.phaseOf c = some (.done z))
      (hx : p.Draws c r q.nextId) (hr : (p.correlator.register r.id).1 = .error f) : Handles F p (some c) q
  | claim {c : CallId} {q : Provider} {r : Request} {t : Ticket} (hp : p.phaseOf c = some .start)
      (hr : p.correlator.Registers q.correlator r.id t) (hn : q.notes = p.notes ++ [.claimed c r t])
      (hd : q.dispatch? c = some ⟨r, t⟩) (hx : p.Draws c r q.nextId) : Handles F p (some c) q
  | reclaim {c : CallId} {q : Provider} {d : Dispatch} {t : Ticket} {k : Correlator}
      (hp : p.dispatch? c = some d) (hm : (p.correlator.receive d.ticket).1 = .closed)
      (hr : p.correlator.Registers k d.request.id t) (hw : q.correlator.waiting = k.waiting)
      (hn : q.notes = p.notes ++ [.claimed c d.request t])
      (hd : q.dispatch? c = some ⟨d.request, t⟩) (hi : q.nextId = p.nextId) : Handles F p (some c) q
  | settle {c : CallId} {q : Provider} {d : Dispatch} {ns : List Note} {res : Except Failure Response}
      (hp : p.dispatch? c = some d) (hn : q.notes = p.notes ++ ns ++ [.settled c d.request res])
      (hs : ∀ x ∈ ns, x.tacit)
      (hw : ∀ k t, q.correlator.waiting.get? k = some t → p.correlator.waiting.get? k = some t)
      (hk : (p.correlator.receive d.ticket).1 = .empty →
        q.correlator.waiting.get? d.request.id.key = none) (hd : q.dispatch? c = none)
      (ho : p.Resolves F c d res) (hi : q.nextId = p.nextId) : Handles F p (some c) q
  | desert {c : CallId} {q : Provider} {ph : Phase} (hp : p.phaseOf c = some ph) (hd : ph.carries)
      (hn : ∃ ns, q.notes = p.notes ++ ns ∧ ∀ x ∈ ns, x.tacit) (hq : q.phaseOf c = none)
      (hi : q.nextId = p.nextId) : Handles F p (some c) q

lemma nextId_settle (p : Provider) (c : CallId) (x : Request) (z : Except Failure Response) :
    (p.settle c x z).nextId = p.nextId := by
  obtain ⟨k, y, -, -, he⟩ := settle_eq p c x z
  rw [he]
  rfl

lemma nextId_drop (p : Provider) (c : CallId) : (p.drop c).nextId = p.nextId := by
  rw [drop]
  split
  · rfl
  · rename_i ph _
    have hg : (p.giveBack ph).nextId = p.nextId := by
      simp only [giveBack]
      split <;> rfl
    exact (stays_unlock _ c).nextId.trans hg

lemma handles_settle (ns : List Note) (hp : p.dispatch? c = some d) (ho : p.Resolves F c d res)
    (hn : m.notes = p.notes ++ ns) (hs : ∀ x ∈ ns, x.tacit)
    (hw : ∀ k t, m.correlator.waiting.get? k = some t → p.correlator.waiting.get? k = some t)
    (hk : (p.correlator.receive d.ticket).1 = .empty → m.correlator.waiting.get? d.request.id.key = none)
    (hi : m.nextId = p.nextId) : Handles F p (some c) (m.settleDispatch c d res) := by
  obtain ⟨hf, hc, hd⟩ := frame_settleDispatch m c d res
  have hwaiting : (m.settleDispatch c d res).correlator.waiting = m.correlator.waiting :=
    (Correlator.fields_of_claims hc).1
  have hnotes : (m.settleDispatch c d res).notes = p.notes ++ ns ++ [.settled c d.request res] := by
    rw [hf.notes, hn]
  refine .settle hp hnotes hs ?_ ?_ hd ho ((nextId_settle _ c d.request res).trans hi)
  · rwa [hwaiting]
  · rwa [hwaiting]

lemma handles_settleNow (hp : p.phaseOf c = some ph) (hd : ph.dispatch? = some d) (ho : p.Resolves F c d res)
    {k : Correlator} (hw : k.waiting = p.correlator.waiting) (hm : (p.correlator.receive d.ticket).1 ≠ .empty) :
    Handles F p (some c) (settleDispatch { p with correlator := k } c d res) :=
  handles_settle [] (dispatch?_of_phase hp hd) ho (List.append_nil _).symm nofun (fun _ _ h => hw ▸ h)
    (fun h => absurd h hm) rfl

lemma handles_withdrawn (hp : p.dispatch? c = some d) (ho : p.Resolves F c d res) (hm : Stays p m)
    {g : Correlator → Correlator} (hg : m.correlator.Closes (g m.correlator) [d.request.id.key]) :
    Handles F p (some c) ((m.withdrawing d.request.id g).settleDispatch c d res) := by
  obtain ⟨ns, hn, hs⟩ := hm.notes
  refine handles_settle (ns ++ (m.correlator.waiting.get? d.request.id.key).toList.map Note.answered)
    hp ho ?_ (fun x hx => ?_) (fun k t hk => ?_) (fun _ => ?_) hm.nextId
  · simp [withdrawing, hn]
  · rcases List.mem_append.mp hx with hx | hx
    · exact hs x hx
    · obtain ⟨t, -, rfl⟩ := List.mem_map.mp hx
      rfl
  · replace hk := (hg.waiting k).symm.trans hk
    split at hk
    · cases hk
    · exact hm.waiting k t hk
  · exact (hg.waiting _).trans (if_pos (List.mem_singleton_self _))

lemma handles_refused {op : Operation} {r : Request} {n : Nat} {f : Failure} {k : Correlator}
    (h : p.calls.get? c = some { op }) (hd : p.draw op = some (r, n))
    (hr : p.correlator.register r.id = (.error f, k)) :
    Handles F p (some c) ({ p with nextId := n, correlator := k }.settle c r (.error f)) := by
  have hf := congrArg Prod.fst hr
  obtain ⟨-, -, rfl⟩ := Correlator.register_error hr
  have hi := nextId_settle { p with nextId := n } c r (.error f)
  obtain ⟨hn, hc, -⟩ := frame_settle { p with nextId := n } c r (.error f)
  obtain ⟨z, hz⟩ := calls_settle { p with nextId := n } c r (.error f)
  refine .refuse (phaseOf_of_call h) hn.notes (Correlator.fields_of_claims hc).1 ⟨z, ?_⟩ ⟨op, h, hi ▸ hd⟩ hf
  simp [phaseOf, hz, h]

theorem calm_handles (hl : Ledger p) (hm : Calm F p a q) : Handles F p a q := by
  cases hm with
  | call op =>
    refine .stay ⟨⟨[], (List.append_nil _).symm, nofun⟩, fun _ _ hk => hk, fun b => ?_, rfl⟩
    by_cases hb : p.nextCall = b
    · subst hb
      rw [dispatch?, dispatch?, phaseOf_nextCall hl.known, phaseOf_of_call (get?_newCall p op)]
      rfl
    · simp [newCall, dispatch?, phaseOf, hb]
  | seek h he => exact .stay (stays_askLock (phaseOf_of_call h) (errand_dispatch? he))
  | refuse h hd hr => exact handles_refused h hd hr
  | claim h hd hr =>
    have hp := phaseOf_of_call h
    refine .claim hp (Correlator.register_ok hr) rfl ?_ ⟨_, h, hd⟩
    exact dispatch?_of_phase (phaseOf_setPhase_self hp) rfl
  | collect h => exact .stay (stays_erase h rfl)
  | drop h =>
    rename_i c ph
    cases hd : ph.dispatch? with
    | none => exact .stay (stays_drop h hd)
    | some d => exact .desert h (by rw [Phase.carries, hd]; rfl) (notes_drop h) (phaseOf_drop h) (nextId_drop p c)
  | read h =>
    rcases h with ⟨h, -⟩ | h
    · exact .stay (stays_read (phaseOf_of_call h) rfl _ _)
    · exact .stay (stays_read h rfl _ _)
  | take s =>
    have hc := p.correlator.claims_popSubscription s
    exact .stay (stays_same rfl (Correlator.fields_of_claims hc).1 rfl rfl)
  | leave h he r =>
    rename_i c e
    refine .stay (stays_releaseAndFinish h.1 ?_ r)
    cases e with
    | send d => exact absurd rfl (he d)
    | _ => rfl
  | yield h => exact .stay (stays_release.trans (stays_askLock ((phaseOf_release p _).trans h.1) rfl))
  | attempt h | disconnect h => exact .stay (stays_moved rfl rfl rfl (by simp [Note.tacit]) rfl h.1 rfl)
  | replace h => exact .stay (stays_moved rfl rfl (List.append_nil _).symm nofun rfl h.1 rfl)
  | giveUp h =>
    exact handles_withdrawn (givesUp_dispatch h) (.givenUp h) stays_release (Correlator.forget_closes _ _)
  | reset h | write h => exact .stay (stays_setPhase h.1 rfl)
  | letGo h => exact .stay (stays_moved rfl rfl (List.append_assoc _ _ _) (by simp [Note.tacit]) rfl h rfl)
  | connect h =>
    rename_i c t
    have hn : Stays p ((p.takeSocket.2.spawn p.takeSocket.1).publish .connected) :=
      stays_notes rfl rfl (List.append_assoc _ _ _) (by simp [Note.tacit]) rfl
    exact .stay (hn.trans (stays_releaseAndFinish (by exact h) rfl _))
  | pause h | retry h | resetClosed h | progress _ h | breakPipe h => exact .stay (stays_setPhase h rfl)
  | exhaust h hd f => exact .stay ((stays_publish _).trans (stays_releaseAndFinish (by exact h) rfl _))
  | resetOpened h => exact .stay (stays_moved rfl rfl (List.append_nil _).symm nofun rfl h rfl)
  | hand h => exact .stay (stays_moved rfl rfl rfl (by simp [Note.tacit]) rfl h rfl)
  | written h => exact .stay (stays_release.trans (stays_setPhase ((phaseOf_release p _).trans h) rfl))
  | reclaim h hm hr =>
    refine .reclaim (dispatch?_of_phase h rfl) hm (Correlator.register_ok hr) rfl rfl ?_ rfl
    exact dispatch?_of_phase (phaseOf_setPhase_self h) rfl
  | reclaimRefused h hm hr =>
    have hf := congrArg Prod.fst hr
    obtain ⟨-, -, rfl⟩ := Correlator.register_error hr
    exact handles_settleNow h rfl (.refused hm hf) rfl (by simp [hm])
  | receive h hm =>
    obtain ⟨-, rfl⟩ := Correlator.receive_filled hm
    exact handles_settleNow h rfl (.answered _) rfl (by simp [hm])
  | closedOut h hm => exact handles_settleNow h rfl .closed rfl (by simp [hm])
  | timeOut h hm ht =>
    exact handles_withdrawn (dispatch?_of_phase h rfl) (.late _) (stays_same rfl rfl rfl rfl)
      (Correlator.abandon_closes _ _)
  | pop k =>
    refine .stay (stays_notes rfl ?_ rfl (by simp [Note.tacit]) rfl)
    show (p.correlator.pop k).2.waiting = p.correlator.waiting
    rw [Correlator.pop]
    split <;> rfl
  | elapse | work => exact .stay (stays_same rfl rfl rfl rfl)
  | deposit _ v => exact .stay (stays_deposit hl _ v)
  | resume => exact .stay (stays_resume p _ _)
  | retire => exact .stay (stays_notes rfl rfl rfl (by simp [Note.tacit]) rfl)

lemma stays_dismissing {g : Correlator → Correlator} (hg : (g p.correlator).waiting = {}) :
    Stays p (p.dismissing g) where
  notes := by
    refine ⟨_, List.append_assoc _ _ _, fun x hx => ?_⟩
    rcases List.mem_append.mp hx with hx | hx
    · obtain ⟨t, -, rfl⟩ := List.mem_map.mp hx
      rfl
    · rw [List.mem_singleton.mp hx]
      rfl
  waiting k t hk := by
    rw [show (p.dismissing g).correlator.waiting = {} from hg] at hk
    cases hk
  dispatch _ := rfl
  nextId := rfl

lemma upheaval_stays (hu : Upheaval p q) : Stays p q ∧ q.correlator.waiting = {} := by
  cases hu with
  | tear hp hf =>
    rename_i c l next
    have h : Stays p ((p.dismissing Correlator.clear).note .cleared) :=
      (stays_dismissing rfl).trans (stays_note rfl)
    cases next with
    | connect => exact ⟨h.trans ((stays_publish _).trans (stays_setPhase (by exact hp) (by rfl))), rfl⟩
    | disconnect =>
      refine ⟨h.trans ((stays_publish _).trans (stays_releaseAndFinish (by exact hp) rfl _)), ?_⟩
      exact congrArg Correlator.waiting (correlator_release _)
  | orphan =>
    have h : Stays p (p.dismissing Correlator.closeByPeer) := stays_dismissing rfl
    exact ⟨h.trans ((stays_publish _).trans (stays_same rfl rfl rfl rfl)), rfl⟩
  | fail hr hs f =>
    simp only [fault, hs]
    have h : Stays p (p.dismissing fun k => k.fail f.message) := stays_dismissing rfl
    refine ⟨h.trans ((stays_publish .disconnected).trans ?_), rfl⟩
    exact stays_notes rfl rfl rfl (by simp [Note.tacit]) rfl

def Held (p : Provider) : Prop :=
  ∀ k t, p.correlator.waiting.get? k = some t → ∃ c d, p.dispatch? c = some d ∧ d.ticket = t

lemma Ledger.keyed_of_waiting (h : Ledger p) (hd : p.dispatch? c = some d) {k : CacheKey}
    (hk : p.correlator.waiting.get? k = some d.ticket) : d.request.id.key = k := by
  obtain ⟨⟨m, b, r, hm, hr⟩, -⟩ := h.waits k _ hk
  obtain ⟨n, hn, -⟩ := h.course c d hd
  rw [← hr, (h.claimed_unique hm hn).2.2]

lemma Ledger.empty_of_waiting (h : Ledger p) (hd : p.dispatch? c = some d) {k : CacheKey}
    (hk : p.correlator.waiting.get? k = some d.ticket) : (p.correlator.receive d.ticket).1 = .empty := by
  obtain ⟨m, -, hst, -⟩ := h.course c d hd
  cases hst with
  | waiting hm => rw [receive_fst, hm]; rfl
  | answered hm => exact absurd hk (h.not_waiting hm (by simp) k)
  | closed hm => exact absurd hk (h.not_waiting hm (by simp) k)

lemma Ledger.withdrawn (h : Ledger p) (hp : p.dispatch? c = some d)
    (hw : ∀ k t, q.correlator.waiting.get? k = some t → p.correlator.waiting.get? k = some t)
    (hk : (p.correlator.receive d.ticket).1 = .empty → q.correlator.waiting.get? d.request.id.key = none)
    (k : CacheKey) : q.correlator.waiting.get? k ≠ some d.ticket := fun hkt => by
  have hnone := hk (h.empty_of_waiting hp (hw k _ hkt))
  rw [h.keyed_of_waiting hp (hw k _ hkt), hkt] at hnone
  cases hnone

lemma Frame.dispatch? (f : Frame (some c) p q ns) (hb : b ≠ c) : q.dispatch? b = p.dispatch? b := by
  rw [Provider.dispatch?, Provider.dispatch?, f.phaseOf fun he => hb (Option.some.inj he).symm]

lemma Held.stay (h : Held p) (hs : Stays p q) : Held q := fun k t hk => by
  obtain ⟨c, d, hd, ht⟩ := h k t (hs.waiting k t hk)
  exact ⟨c, d, (hs.dispatch c).trans hd, ht⟩

lemma Held.own (h : Held p) (f : Frame (some c) p q ns)
    (hw : ∀ k t, q.correlator.waiting.get? k = some t →
      p.correlator.waiting.get? k = some t ∧ (∀ d, p.dispatch? c = some d → d.ticket ≠ t) ∨
        ∃ d, q.dispatch? c = some d ∧ d.ticket = t) : Held q := fun k t hk => by
  rcases hw k t hk with ⟨hk, hne⟩ | ⟨d, hd, ht⟩
  · obtain ⟨b, d, hd, ht⟩ := h k t hk
    have hb : b ≠ c := fun hb => hne d (hb ▸ hd) ht
    exact ⟨b, d, (f.dispatch? hb).trans hd, ht⟩
  · exact ⟨c, d, hd, ht⟩

theorem Held.calm (h : Held p) (hl : Ledger p) (hm : Calm F p a q) : Held q ∨ Severs Phase.carries a p q := by
  obtain ⟨ns, f⟩ := entries_frame (calm_entries hm)
  have starts : ∀ {c t}, p.phaseOf c = some .start → ∀ d, p.dispatch? c = some d → d.ticket ≠ t := fun hp d hd => by
    rw [dispatch?, hp] at hd
    cases hd
  cases calm_handles hl hm with
  | stay hs => exact Or.inl (h.stay hs)
  | refuse hp hn hw => exact Or.inl (h.own f fun k t hk => Or.inl ⟨hw ▸ hk, starts hp⟩)
  | claim hp hr hn hd =>
    refine Or.inl (h.own f fun k t hk => ?_)
    exact ((hr.waiting k t).mp hk).imp (fun hk => ⟨hk, starts hp⟩) fun ht => ⟨_, hd, ht.2.1.symm⟩
  | reclaim hp hc hr hw hn hd =>
    refine Or.inl (h.own f fun k t hk => ?_)
    refine ((hr.waiting k t).mp (hw ▸ hk)).imp (fun hk => ⟨hk, fun e he ht => ?_⟩) fun ht => ⟨_, hd, ht.2.1.symm⟩
    cases hp.symm.trans he
    cases hc.symm.trans (hl.empty_of_waiting hp (ht ▸ hk))
  | settle hp hn hs hw hk hd =>
    refine Or.inl (h.own f fun k t hkt => Or.inl ⟨hw k t hkt, fun e he ht => ?_⟩)
    cases hp.symm.trans he
    exact hl.withdrawn hp hw hk k (ht ▸ hkt)
  | desert hp hd hn hq => exact Or.inr ⟨_, _, rfl, hp, hd, hq⟩

structure Tended (p : Provider) : Prop where
  held : Held p
  unsettled : ∀ c, p.Fresh c ∨ (p.dispatch? c).isSome → ∀ r z, .settled c r z ∉ p.notes
  later : ∀ {i j n c b r s z t u}, Claimed p.notes i c r t → p.notes[j]? = some (.settled c r z) →
    p.correlator.waiting.get? r.id.key = some u → Claimed p.notes n b s u → j < n

lemma tended_new (endpoint : Endpoint) (config : Config) : Tended (new endpoint config) where
  held k t h := by cases h
  unsettled c _ r z h := by cases h
  later h := by cases h

lemma Tended.apart (h : Tended p) (hl : Ledger p) (hx : exclusive p.notes) (hb : p.dispatch? b = some e)
    (hc : p.dispatch? c = some d) (hid : e.request.id = d.request.id) : b = c := by
  obtain ⟨i, hi, -⟩ := hl.course b e hb
  obtain ⟨j, hj, -⟩ := hl.course c d hc
  exact caller_of_exclusive hx hi hj hid (h.unsettled b (Or.inr (Option.isSome_of_mem hb)))
    (h.unsettled c (Or.inr (Option.isSome_of_mem hc)))

lemma Stays.place (h : Stays p q) (hx : x.tacit = false) (hi : q.notes[i]? = some x) : p.notes[i]? = some x := by
  obtain ⟨ns, hn, hs⟩ := h.notes
  rw [hn] at hi
  refine (place_of_append hi).resolve_right fun ⟨_, hm⟩ => ?_
  exact absurd (hs x hm) (Bool.eq_false_iff.mp hx)

lemma Tended.stay (h : Tended p) (hs : Stays p q) (hf : ∀ c, q.Fresh c → p.Fresh c) : Tended q where
  held := h.held.stay hs
  unsettled c hc r z hm := by
    rw [hs.dispatch c] at hc
    obtain ⟨i, hi⟩ := List.mem_iff_getElem?.mp hm
    exact h.unsettled c (hc.imp_left (hf c)) r z (List.mem_of_getElem? (hs.place rfl hi))
  later hi hj hk hn := h.later (hs.place rfl hi) (hs.place rfl hj) (hs.waiting _ _ hk) (hs.place rfl hn)

lemma Tended.register (h : Tended p) (hl : Ledger p) (f : Frame (some c) p q [.claimed c r t]) {k : Correlator}
    (hr : p.correlator.Registers k r.id t) (hw : q.correlator.waiting = k.waiting)
    (hc : p.Fresh c ∨ (p.dispatch? c).isSome) (hq : Held q) : Tended q := by
  have hclaims := @claimed_of_claim p q c r t f.notes
  have hsettled : ∀ {j : Nat} {b y z}, q.notes[j]? = some (.settled b y z) →
      p.notes[j]? = some (.settled b y z) := fun hj => by
    rw [f.notes] at hj
    exact (place_of_append hj).resolve_right fun ⟨_, hm⟩ => by simp at hm
  have hunsettled : ∀ y z, Note.settled c y z ∉ p.notes := h.unsettled c hc
  refine ⟨hq, fun b hb y z hm => ?_, fun {i j n b b' y s z v u} hi hj hu hn => ?_⟩
  · obtain ⟨i, hi⟩ := List.mem_iff_getElem?.mp hm
    have hm := List.mem_of_getElem? (hsettled hi)
    by_cases hbc : b = c
    · exact hunsettled y z (hbc ▸ hm)
    · exact h.unsettled b (hb.imp (f.fresh b) fun hs => f.dispatch? hbc ▸ hs) y z hm
  · have hj := hsettled hj
    rcases hclaims.mp hn with hn | ⟨rfl, -⟩
    · rcases hclaims.mp hi with hi | ⟨-, rfl, -⟩
      · rcases (hr.waiting _ u).mp (hw ▸ hu) with hu | ⟨-, rfl, -⟩
        · exact h.later hi hj hu hn
        · exact absurd (hl.issued _ _ _ _ hn) (hr.ticket ▸ Nat.lt_irrefl _)
      · exact absurd (List.mem_of_getElem? hj) (hunsettled _ _)
    · exact place_lt hj

lemma Tended.ends (h : Tended p) {ms : List Note} (f : Frame (some c) p q ms)
    (hn : q.notes = p.notes ++ ns ++ [.settled c r res]) (hs : ∀ x ∈ ns, x.tacit)
    (hw : ∀ k t, q.correlator.waiting.get? k = some t → p.correlator.waiting.get? k = some t)
    (hd : q.dispatch? c = none) (hf : ¬ q.Fresh c)
    (hkey : ∀ i t, Claimed p.notes i c r t → q.correlator.waiting.get? r.id.key = none) (hq : Held q) :
    Tended q := by
  have hplace : ∀ {i : Nat} {x}, q.notes[i]? = some x → x.tacit = false →
      p.notes[i]? = some x ∨ x = .settled c r res := fun {i x} hi hx => by
    rw [hn, List.append_assoc] at hi
    refine (place_of_append hi).imp_right fun ⟨_, hm⟩ => ?_
    rcases List.mem_append.mp hm with hm | hm
    · exact absurd (hs x hm) (Bool.eq_false_iff.mp hx)
    · exact List.mem_singleton.mp hm
  have hclaimed : ∀ {i b y t}, Claimed q.notes i b y t → Claimed p.notes i b y t := fun hi =>
    (hplace hi rfl).resolve_right (by simp)
  refine ⟨hq, fun b hb y z hm => ?_, fun {i j n b b' y s z t u} hi hj hu hn => ?_⟩
  · have hbc : b ≠ c := by
      rintro rfl
      rcases hb with hb | hb
      · exact hf hb
      · rw [hd] at hb
        cases hb
    obtain ⟨i, hi⟩ := List.mem_iff_getElem?.mp hm
    rcases hplace hi rfl with hi | he
    · exact h.unsettled b (hb.imp (f.fresh b) fun hs => f.dispatch? hbc ▸ hs) y z (List.mem_of_getElem? hi)
    · cases he
      exact hbc rfl
  · rcases hplace hj rfl with hj | he
    · exact h.later (hclaimed hi) hj (hw _ _ hu) (hclaimed hn)
    · cases he
      cases (hkey _ _ (hclaimed hi)).symm.trans hu

lemma Tended.refuse (h : Tended p) (hl : Ledger p) (f : Frame (some c) p q [.settled c r res])
    (hp : p.phaseOf c = some .start) (hw : q.correlator.waiting = p.correlator.waiting)
    {z : Except Failure Reply} (hz : q.phaseOf c = some (.done z)) (hq : Held q) : Tended q := by
  have hn : q.notes = p.notes ++ [] ++ [.settled c r res] := by rw [List.append_nil, f.notes]
  refine h.ends f hn nofun (fun _ _ hk => hw ▸ hk) ?_ ?_ ?_ hq
  · rw [dispatch?, hz]
    rfl
  · rintro (hc | hc)
    · have hk := hl.known c (isSome_of_phase hp)
      exact absurd (Nat.lt_of_lt_of_le hk f.nextCall) (Nat.not_lt.mpr hc)
    · cases hz.symm.trans hc
  · exact fun i t hi => absurd hi (hl.fresh c (Or.inr hp) i r t)

lemma Tended.settle (h : Tended p) (hl : Ledger p) (hx : exclusive p.notes) {ms : List Note}
    (f : Frame (some c) p q ms) (hp : p.dispatch? c = some d)
    (hn : q.notes = p.notes ++ ns ++ [.settled c d.request res]) (hs : ∀ x ∈ ns, x.tacit)
    (hw : ∀ k t, q.correlator.waiting.get? k = some t → p.correlator.waiting.get? k = some t)
    (hk : (p.correlator.receive d.ticket).1 = .empty → q.correlator.waiting.get? d.request.id.key = none)
    (hd : q.dispatch? c = none) (hq : Held q) : Tended q := by
  refine h.ends f hn hs hw hd (fun hf => not_fresh hl.known hp (f.fresh c hf)) (fun i t _ => ?_) hq
  -- another claim of the identifier would be that of another call
  refine Option.eq_none_iff_forall_ne_some.mpr fun u hu => ?_
  obtain ⟨b, e, he, rfl⟩ := h.held _ u (hw _ u hu)
  have hid := RequestId.key_injective (hl.keyed_of_waiting he (hw _ _ hu))
  obtain rfl := h.apart hl hx he hp hid
  cases hp.symm.trans he
  exact hl.withdrawn hp hw hk _ hu

theorem Tended.calm (h : exclusive p.notes → Tended p) (hl : Ledger p) (hm : Calm F p a q) :
    (exclusive q.notes → Tended q) ∨ Severs Phase.carries a p q := by
  obtain ⟨ns, f⟩ := entries_frame (calm_entries hm)
  by_cases hx : exclusive q.notes
  swap
  · exact Or.inl fun h => absurd h hx
  have hx' : exclusive p.notes := exclusive_of_append (f.notes ▸ hx)
  have h := h hx'
  have held := h.held.calm hl hm
  -- the notes that are told apart here are those of the frame
  have framed : ∀ {ms}, q.notes = p.notes ++ ms → Frame a p q ms := fun hn =>
    ⟨hn, f.others, f.fresh, f.nextCall, f.known, f.op⟩
  cases calm_handles hl hm with
  | stay hs => exact Or.inl fun _ => h.stay hs f.fresh
  | refuse hp hn hw hz =>
    obtain ⟨z, hz⟩ := hz
    exact held.imp_left fun hq _ => h.refuse hl (framed hn) hp hw hz hq
  | claim hp hr hn => exact held.imp_left fun hq _ => h.register hl (framed hn) hr rfl (Or.inl (Or.inr hp)) hq
  | reclaim hp hc hr hw hn =>
    exact held.imp_left fun hq _ => h.register hl (framed hn) hr hw (Or.inr (by rw [hp]; rfl)) hq
  | settle hp hn hs hw hk hd => exact held.imp_left fun hq _ => h.settle hl hx' f hp hn hs hw hk hd hq
  | desert hp hd hn hq => exact Or.inr ⟨_, _, rfl, hp, hd, hq⟩

lemma Tended.upheaval (h : exclusive p.notes → Tended p) (hu : Upheaval p q) :
    exclusive q.notes → Tended q := by
  obtain ⟨b, ns, -, f⟩ := upheaval_frame hu
  exact fun hx => (h (exclusive_of_append (f.notes ▸ hx))).stay (upheaval_stays hu).1 f.fresh

lemma tended_run {endpoint : Endpoint} {config : Config} {es : List Event}
    (hc : (new endpoint config).Spares Phase.carries es)
    (hx : exclusive ((new endpoint config).steps es).notes) : Tended ((new endpoint config).steps es) := by
  refine invariant_of_spared (I := fun p => exclusive p.notes → Tended p) ?_ ?_ (fun _ => rfl)
    (orderly_new endpoint config) (fun _ => tended_new endpoint config) hc hx
  · exact fun _ _ _ ho h hm => Tended.calm h ho.ledger hm
  · exact fun _ _ _ h hu => Tended.upheaval h hu

/-- In every run in which calls are not dropped before they are through with their requests, and requests in
progress at the same time have different identifiers, every claim that waits for a response is that of the one
call with a request of its identifier in progress. Once a call is through with a request, in whatever way,
nothing waits under its identifier but a claim made since, and where no request is in progress nothing waits
at all. -/
theorem waiting_in_progress {endpoint : Endpoint} {config : Config} {es : List Event}
    (hc : (new endpoint config).Spares Phase.carries es)
    (hx : exclusive ((new endpoint config).steps es).notes) :
    let p := (new endpoint config).steps es
    (∀ k t, p.correlator.waiting.get? k = some t →
      ∃ c d, p.dispatch? c = some d ∧ d.request.id.key = k ∧ d.ticket = t ∧
        ∀ b e, p.dispatch? b = some e → e.request.id.key = k → b = c) ∧
    (∀ i j c r t res, Claimed p.notes i c r t → p.notes[j]? = some (.settled c r res) →
      ∀ u, p.correlator.waiting.get? r.id.key = some u → ∃ n b s, j < n ∧ Claimed p.notes n b s u) ∧
    ((∀ c, p.dispatch? c = none) → p.correlator.inFlight = 0) := by
  intro p
  have hl : Ledger p := ((orderly_new endpoint config).steps es).ledger
  have h : Tended p := tended_run hc hx
  refine ⟨fun k t hk => ?_, fun i j c r t res hi hj u hu => ?_, fun hn => ?_⟩
  · obtain ⟨c, d, hd, rfl⟩ := h.held k t hk
    have hkey := hl.keyed_of_waiting hd hk
    refine ⟨c, d, hd, hkey, rfl, fun b e he heq => h.apart hl hx he hd ?_⟩
    exact RequestId.key_injective (heq.trans hkey.symm)
  · obtain ⟨⟨n, b, s, hn, -⟩, -⟩ := hl.waits _ u hu
    exact ⟨n, b, s, h.later hi hj hu hn, hn⟩
  · have hw : p.correlator.waiting = {} := by
      refine Table.eq_empty fun k => Option.eq_none_iff_forall_ne_some.mpr fun t hk => ?_
      obtain ⟨c, d, hd, -⟩ := h.held k t hk
      cases (hn c).symm.trans hd
    rw [Correlator.inFlight, hw]
    rfl

def reused : List Event :=
  [.call .connect, .turn 0, .opened 0 (.ok ()), .listen 0, .listen 0,
    .call (.send { method := "a", params := [], id := .number 1 }), .turn 1,
    .call (.send { method := "b", params := [], id := .number 2 }), .turn 2,
    .sink 1 (.failure (.io ⟨.connectionReset, none⟩)), .turn 2,
    .call (.send { method := "c", params := [], id := .number 1 }), .turn 3]

theorem reused_in_progress :
    let x : Request := { method := "a", params := [], id := .number 1 }
    let p := (new here {}).steps reused
    (new here {}).Spares Phase.carries reused ∧ exclusive p.notes ∧
      (∃ c d, p.dispatch? c = some d ∧ d.request.id.key = x.id.key ∧ d.ticket = 2 ∧
        ∀ b e, p.dispatch? b = some e → e.request.id.key = x.id.key → b = c) ∧
      ∃ i j n b s, Claimed p.notes i 1 x 0 ∧
        p.notes[j]? = some (.settled 1 x (.error (.io ⟨.connectionReset, none⟩))) ∧
        j < n ∧ Claimed p.notes n b s 2 := by
  intro x p
  have hc : (new here {}).Spares Phase.carries reused := by decide +kernel
  have hx : exclusive p.notes := by decide +kernel
  have hk : p.correlator.waiting.get? x.id.key = some 2 := by decide +kernel
  have hi : Claimed p.notes 3 1 x 0 := rfl
  have hj : p.notes[7]? = some (.settled 1 x (.error (.io ⟨.connectionReset, none⟩))) := rfl
  obtain ⟨hwaits, hended, -⟩ := waiting_in_progress hc hx
  obtain ⟨n, b, s, hn⟩ := hended 3 7 1 x 0 _ hi hj 2 hk
  exact ⟨hc, hx, hwaits _ _ hk, 3, 7, n, b, s, hi, hj, hn⟩

end SocketRpc.Provider
