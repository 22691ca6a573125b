import SocketRpc.Proofs.Provider.Withdrawals

/-!
Whose claims a call withdraws that fails. Claims are withdrawn by identifier, so a call whose request is not
written may find that of another call under its own.
-/

namespace SocketRpc.Provider

variable {F : Failure → Prop} {p q m : Provider} {b c : CallId} {d : Dispatch} {ph : Phase} {e : Event}
  {f : Failure} {id : RequestId} {k : CacheKey} {t : Ticket} {i started : Nat} {x : Request}
  {out : Outgoing} {after : Option ResetCause} {a : SinkAnswer} {op : Operation}

structure Unasked (p : Provider) (c : CallId) : Prop where
  known : c < p.nextCall
  dispatch : p.dispatch? c = none
  draws : ∀ x n, ¬ p.Draws c x n

lemma Unasked.calm (h : Unasked p c) (hl : Ledger p) (hm : Calm F p (some c) q) :
    Unasked q c ∧ Unsettled p c q := by
  obtain ⟨ns, g⟩ := entries_frame (calm_entries hm)
  cases calm_handles hl hm with
  | stay hs =>
    refine ⟨⟨Nat.lt_of_lt_of_le h.known g.nextCall, (hs.dispatch c).trans h.dispatch, ?_⟩,
      unsettled_tacit hs.notes c⟩
    rintro x n ⟨op, hc, hd⟩
    have hs : (p.draw op).isSome := (draw_isSome q p op).trans (by rw [hd]; rfl)
    obtain ⟨⟨y, n'⟩, hy⟩ := Option.isSome_iff_exists.mp hs
    exact h.draws y n' ⟨op, g.call_of_start hl h.known hc, hy⟩
  | refuse _ _ _ _ hx | claim _ _ _ _ hx => exact absurd hx (h.draws _ _)
  | reclaim hp | settle hp => cases h.dispatch.symm.trans hp
  | desert hp hd =>
    obtain ⟨d, hd⟩ := Option.isSome_iff_exists.mp hd
    cases h.dispatch.symm.trans (dispatch?_of_phase hp hd)

lemma Unasked.step (h : Unasked p c) (hl : Ledger p) (hs : p.subject e = some c) : Unsettled p c (p.step e) := by
  obtain ⟨m, hm, he⟩ := step_moves (F := fun _ => True) p e fun _ _ => trivial
  rw [hs] at hm
  have hu : Ledger m ∧ Unasked m c ∧ Unsettled p c m :=
    chain_preserves (I := fun q => Ledger q ∧ Unasked q c ∧ Unsettled p c q)
      (fun _ _ ⟨hl, h, hu⟩ hm => ⟨hl.calm hm, (h.calm hl hm).1, hu.trans (h.calm hl hm).2⟩)
      ⟨hl, h, unsettled_same rfl⟩ hm
  rcases he with he | ⟨-, hup, -⟩
  · exact he ▸ hu.2.2
  · exact hu.2.2.trans (unsettled_tacit (upheaval_stays hup).1.notes c)

def Leaves (p q : Provider) : Prop :=
  ∀ k t, p.correlator.waiting.get? k = some t → q.correlator.waiting.get? k = some t

def Strikes (p q : Provider) (id : RequestId) : Prop :=
  ∀ k, q.correlator.waiting.get? k = if k = id.key then none else p.correlator.waiting.get? k

lemma leaves_claims {k : Correlator} (h : q.correlator.claims = k.claims)
    (hw : k.waiting = p.correlator.waiting) : Leaves p q := fun _ _ hk => by
  rwa [(Correlator.fields_of_claims h).1, hw]

lemma Strikes.leaves (h : Strikes m q id) (hm : Leaves p m) (hf : p.correlator.waiting.get? id.key = none) :
    Leaves p q := fun k t hk => by
  rw [h k, if_neg, hm k t hk]
  rintro rfl
  cases hf.symm.trans hk

inductive Checks (p : Provider) (d : Dispatch) (q : Provider) : Prop where
  | waits (hq : q = p)
  | leaves (hw : ∀ k, p.correlator.waiting.get? k ≠ some d.ticket) (h : Leaves p q)
  | strikes (hw : p.correlator.waiting.get? d.request.id.key = some d.ticket) (h : Strikes p q d.request.id)

lemma strikes_abandon (r : Except Failure Response) :
    Strikes p ((p.withdrawing d.request.id (·.abandon d.request.id)).settleDispatch c d r) d.request.id := by
  intro k
  obtain ⟨-, hc, -⟩ := frame_settleDispatch (p.withdrawing d.request.id (·.abandon d.request.id)) c d r
  rw [(Correlator.fields_of_claims hc).1]
  refine ((Correlator.abandon_closes p.correlator d.request.id).waiting k).trans ?_
  simp only [List.mem_singleton]

lemma strikes_failSend (p : Provider) (c : CallId) (d : Dispatch) (f : Failure) :
    Strikes p (p.failSend c d f) d.request.id := fun k => by
  rcases (failSend_remains p c d f).waiting with h | ⟨h, -⟩
  · rw [h, Correlator.waiting_forget]
  · cases h

lemma Ledger.waiting_of_empty (hl : Ledger p) (hd : p.dispatch? c = some d)
    (hm : p.correlator.mail.get? d.ticket = some .empty) :
    p.correlator.waiting.get? d.request.id.key = some d.ticket := by
  obtain ⟨i, -, hst, -⟩ := hl.course c d hd
  cases hst with
  | waiting _ hw _ => exact hw
  | answered he | closed he => cases hm.symm.trans he

lemma Ledger.not_waiting_of_closed (hl : Ledger p) (hd : p.dispatch? c = some d)
    (hm : (p.correlator.receive d.ticket).1 = .closed) (k : CacheKey) :
    p.correlator.waiting.get? k ≠ some d.ticket := by
  obtain ⟨i, hi, -⟩ := hl.course c d hd
  exact (hl.reclaimed hd hm hi).2.2 k

lemma await_checks (hl : Ledger p) (hd : p.dispatch? c = some d) : Checks p d (p.await c d started) := by
  rw [await]
  split
  · rename_i r k hm
    obtain ⟨hfilled, rfl⟩ := Correlator.receive_filled hm
    let o := { p with correlator := p.correlator.closeTicket d.ticket }
    obtain ⟨-, hc, -⟩ := frame_settleDispatch o c d (.ok r)
    exact .leaves (hl.not_waiting hfilled (by simp)) (leaves_claims hc rfl)
  · rename_i k hm
    obtain ⟨-, hc, -⟩ := frame_settleDispatch p c d (.error p.correlator.closedFailure)
    exact .leaves (hl.not_waiting_of_closed hd (by rw [hm])) (leaves_claims hc rfl)
  · rename_i k hm
    split
    · exact .strikes (hl.waiting_of_empty hd (Correlator.receive_empty (by rw [hm]))) (strikes_abandon _)
    · exact .waits rfl

lemma awaitAfterReset_checks (hl : Ledger p) (hp : p.phaseOf c = some (.awaiting d p.now)) :
    Checks p d (p.awaitAfterReset c d) := by
  have hd : p.dispatch? c = some d := dispatch?_of_phase hp rfl
  rw [awaitAfterReset]
  split
  · rename_i m hm
    have hclosed : (p.correlator.receive d.ticket).1 = .closed := by rw [hm]
    refine .leaves (hl.not_waiting_of_closed hd hclosed) ?_
    split
    · rename_i t k hr
      -- nothing waited under the identifier, so what becomes of the new claim is no matter of others
      have hreg := Correlator.register_ok hr
      let o := { p with correlator := k.discard d.ticket }.note (.claimed c d.request t)
      let w := o.setPhase c (.awaiting { d with ticket := t } p.now)
      have hw : w.phaseOf c = some (.awaiting { d with ticket := t } p.now) := phaseOf_setPhase_self (p := o) hp
      have hlw : Ledger w := hl.calm (.reclaim (F := fun _ => True) hp hclosed hr)
      have hleaves : Leaves p w := fun k t hk => (hreg.waiting k t).mpr (Or.inl hk)
      have hchecks : Checks w { d with ticket := t } (w.await c { d with ticket := t } p.now) :=
        await_checks hlw (dispatch?_of_phase hw rfl)
      cases hchecks with
      | waits hq => exact hq ▸ hleaves
      | leaves _ h => exact fun k t hk => h k t (hleaves k t hk)
      | strikes _ h => exact h.leaves hleaves hreg.free
    · rename_i f k hr
      obtain ⟨-, -, rfl⟩ := Correlator.register_error hr
      obtain ⟨-, hc, -⟩ := frame_settleDispatch p c d (.error f)
      exact leaves_claims hc rfl
  · exact await_checks hl hd

lemma wrote_of_deed {r : Except Failure Unit} (h : .wrote r ∈ p.deed c e) :
    ∃ d out after a, p.phaseOf c = some (.writing d out after) ∧ e = .sink c a ∧ out.step a = .done r := by
  by_cases hs : p.subject e = some c
  · cases hp : p.phaseOf c with
    | none =>
      rw [deed_gone hp] at h
      cases h
    | some ph =>
      rw [deed_of_phase hs hp] at h
      rcases List.mem_append.mp h with h | h
      · rcases List.mem_append.mp h with h | h
        · have ht : ph.told p.nextSocket e = some (.wrote r) := by simpa using h
          rw [Phase.told.eq_def] at ht
          split at ht
          · cases hs
            split at ht
            · cases ht
              exact ⟨_, _, _, _, rfl, rfl, ‹_›⟩
            · cases ht
          · cases ht
          · cases ht
        · simp at h
      · rw [Option.mem_toList, asked] at h
        split at h
        · rename_i ph' conn _ _
          split at h
          · cases h
          · cases ph' <;> cases h
        · cases h
  · rw [deed_other hs] at h
    cases h

def Unwritten (p : Provider) (c : CallId) (e : Event) (d : Dispatch) : Prop :=
  (p.phaseOf c).bind Phase.unwritten? = some d ∧ .wrote (.ok ()) ∉ p.deed c e

lemma dispatch?_of_unwritten (hd : (p.phaseOf c).bind Phase.unwritten? = some d) : p.dispatch? c = some d := by
  obtain ⟨ph, hp, hd⟩ := Option.bind_eq_some_iff.mp hd
  refine dispatch?_of_phase hp ?_
  cases ph with
  | locking errand => cases errand <;> cases hd; rfl
  | _ => cases hd <;> rfl

lemma unwritten_or_awaiting (hd : ph.dispatch? = some d) : ph.unwritten? = some d ∨ ∃ s, ph = .awaiting d s := by
  cases ph with
  | locking errand => cases errand <;> cases hd; exact Or.inl rfl
  | awaiting => cases hd; exact Or.inr ⟨_, rfl⟩
  | _ => cases hd <;> exact Or.inl rfl

inductive Fails (p : Provider) (c : CallId) (e : Event) : Prop where
  | idle (h : Leaves p (p.step e)) (hu : ∀ d, ¬ Unwritten p c e d)
      (hc : ∀ {k t i x}, p.correlator.waiting.get? k = some t → ¬ Claimed p.notes i c x t)
  | own {d : Dispatch} (hd : p.dispatch? c = some d) (hu : ∀ d, ¬ Unwritten p c e d)
      (hw : p.correlator.waiting.get? d.request.id.key = some d.ticket) (h : Strikes p (p.step e) d.request.id)
  | vain {d : Dispatch} (hu : Unwritten p c e d) (h : Strikes p (p.step e) d.request.id)

lemma Ledger.own_waiting (hl : Ledger p) (hd : p.dispatch? c = some d) (hk : p.correlator.waiting.get? k = some t)
    (hi : Claimed p.notes i c x t) : t = d.ticket := by
  obtain ⟨n, hn, -, hb⟩ := hl.course c d hd
  by_cases hin : i = n
  · subst hin
    cases hi.symm.trans hn
    rfl
  · exact absurd hk ((hb i x t hi hin).2.2.2 k)

lemma Checks.fails (h : Checks m d (p.step e)) (hl : Ledger p) (hd : p.dispatch? c = some d)
    (hk : m.correlator = p.correlator) (hu : ∀ d, ¬ Unwritten p c e d) (hs : ¬ Unsettled p c (p.step e))
    (hm : Unsettled p c m) : Fails p c e := by
  cases h with
  | waits hq => exact absurd (hq ▸ hm) hs
  | leaves hw h =>
    rw [Leaves, hk] at h
    rw [hk] at hw
    refine .idle h hu fun hk hi => ?_
    rw [hl.own_waiting hd hk hi] at hk
    exact hw _ hk
  | strikes hw h =>
    rw [Strikes, hk] at h
    exact .own hd hu (hk ▸ hw) h

lemma Starts.leaves (h : Starts p c q) : Leaves p q := by
  cases h with
  | refused _ hk => exact leaves_claims hk rfl
  | @claims m d k hr hm _ h =>
    have hreg := Correlator.register_ok hr
    have hleaves : Leaves p m := fun k t hk => by
      rw [hm]
      exact (hreg.waiting k t).mpr (Or.inl hk)
    cases h with
    | goes _ _ hk => exact fun k t hj => leaves_claims hk rfl k t (hleaves k t hj)
    | @fails n ph f hp hk _ hq =>
      have hs : Strikes n q d.request.id := hq ▸ strikes_failSend n c d f
      exact hs.leaves (fun k t hj => leaves_claims hk rfl k t (hleaves k t hj)) hreg.free

lemma phaseOf_written (hp : p.phaseOf c = some (.writing d out after)) :
    (p.written c d).phaseOf c = some (.awaiting d (p.written c d).now) := by
  have hw : (p.written c d).phaseOf c = some (.awaiting d p.now) :=
    phaseOf_setPhase_self ((phaseOf_release p c).trans hp)
  exact hw.trans (congrArg (fun n => some (Phase.awaiting d n)) (now_release p).symm)

lemma turn_awaiting (hp : p.phaseOf c = some (.awaiting d started)) : p.turn c = p.await c d started := by
  obtain ⟨op, hc⟩ := call_of_phase hp
  simp only [turn, hc]

lemma fails_written (hl : Ledger p) (hp : p.phaseOf c = some (.writing d out after))
    (ha : out.step a = .done (.ok ())) (hn : ∀ d, ¬ Unwritten p c (.sink c a) d)
    (hu : ¬ Unsettled p c (p.sink c a)) : Fails p c (.sink c a) := by
  have hw := phaseOf_written hp
  have hl' : Ledger (p.written c d) := hl.calm (.written (F := fun _ => True) hp)
  have hs : Stays p (p.written c d) := stays_release.trans (stays_setPhase ((phaseOf_release p c).trans hp) rfl)
  have hchecks : Checks (p.written c d) d (p.step (.sink c a)) := by
    rw [step, sink_written hp ha]
    split
    · exact awaitAfterReset_checks hl' hw
    · exact await_checks hl' (dispatch?_of_phase hw rfl)
  exact hchecks.fails hl (dispatch?_of_phase hp rfl) (correlator_release p) hn hu (unsettled_tacit hs.notes c)

lemma fails_unwritten (hk : c < p.nextCall) (hs : p.subject e = some c) (he : e ≠ .drop c)
    (hn : Unwritten p c e d) (hu : ¬ Unsettled p c (p.step e)) : Fails p c e := by
  obtain ⟨ph, hp, hd⟩ := Option.bind_eq_some_iff.mp hn.1
  cases step_proceeds hk hp hd hs he hn.2 with
  | goes _ _ _ h => exact absurd h hu
  | @fails m _ f _ hm _ hq =>
    refine .vain hn fun k => ?_
    rw [hq, strikes_failSend m c d f k, (Correlator.fields_of_claims hm).1]

lemma fails_asked (hl : Ledger p) (hp : p.phaseOf c = some ph) (hs : p.subject e = some c) (hh : ph.heeds e)
    (he : e ≠ .drop c) (hd : ph.dispatch? = some d) (hu : ¬ Unsettled p c (p.step e)) : Fails p c e := by
  have hc : p.dispatch? c = some d := dispatch?_of_phase hp hd
  by_cases hn : ∃ d, Unwritten p c e d
  · obtain ⟨d, hn⟩ := hn
    exact fails_unwritten (hl.known c (isSome_of_phase hp)) hs he hn hu
  · have hn := not_exists.mp hn
    rcases unwritten_or_awaiting hd with hd | ⟨started, rfl⟩
    · have hw : .wrote (.ok ()) ∈ p.deed c e := not_not.mp fun hw => hn d ⟨by rwa [hp], hw⟩
      obtain ⟨d, out, after, a, hp, rfl, ha⟩ := wrote_of_deed hw
      exact fails_written hl hp ha hn hu
    · cases e with
      | turn b =>
        cases hs
        have hchecks : Checks p d (p.turn c) := turn_awaiting hp ▸ await_checks hl hc
        exact hchecks.fails hl hc rfl hn hu (unsettled_same rfl)
      | drop b => cases hs; exact absurd rfl he
      | _ => cases hh

lemma fails_unasked (hl : Ledger p) (hp : p.phaseOf c = some ph) (hs : p.subject e = some c) (hh : ph.heeds e)
    (he : e ≠ .drop c) (hd : ph.dispatch? = none) (hu : ¬ Unsettled p c (p.step e)) : Fails p c e := by
  obtain ⟨op, hc⟩ := call_of_phase hp
  have hd : p.dispatch? c = none := by rwa [dispatch?, hp]
  have hn : ∀ d, ¬ Unwritten p c e d := fun d h => by cases hd.symm.trans (dispatch?_of_unwritten h.1)
  by_cases hx : ∃ x n, p.Draws c x n
  · obtain ⟨x, n, op', hc', hx⟩ := hx
    cases hp.symm.trans (phaseOf_of_call hc')
    cases e with
    | turn b =>
      cases hs
      exact .idle (turn_starts hc' (Option.isSome_of_mem hx)).leaves hn fun _ => hl.fresh c (Or.inr hp) _ _ _
    | drop b => cases hs; exact absurd rfl he
    | _ => cases hh
  · have hk : c < p.nextCall := hl.known c (Option.isSome_of_mem hc)
    exact absurd (Unasked.step ⟨hk, hd, fun x n h => hx ⟨x, n, h⟩⟩ hl hs) hu

lemma step_fails (ho : Orderly p) (hu : ¬ Unsettled p c (p.step e)) : Fails p c e := by
  have hs : p.subject e = some c := by
    by_contra hs
    exact hu (unsettled_step ho (Or.inl hs))
  have hnew : ∀ op, e ≠ .call op := by
    rintro op rfl
    exact hu (unsettled_same rfl)
  obtain hq | ⟨op, ph, hc, hh⟩ := step_heeded ho.ledger hs hnew
  · exact absurd (unsettled_same (congrArg Provider.notes hq)) hu
  have hp : p.phaseOf c = some ph := phaseOf_of_call hc
  have he : e ≠ .drop c := by
    rintro rfl
    exact hu (unsettled_tacit (notes_drop hp) c)
  cases hd : ph.dispatch? with
  | none => exact fails_unasked ho.ledger hp hs hh he hd hu
  | some d => exact fails_asked ho.ledger hp hs hh he hd hu

lemma not_unsettled {r : Except Failure Response} (hr : r ∈ p.settlements c [e]) :
    ¬ Unsettled p c (p.step e) := fun h => by
  obtain ⟨ns, hn, hs⟩ := h
  have he : p.settlements c ([] ++ [e]) = p.settlements c [] ++ ns.filterMap (Note.settles c) :=
    settlements_snoc hn
  rw [List.nil_append, hs] at he
  rw [he] at hr
  simp [settlements, steps] at hr

/-- A call that fails withdraws the claim that it made itself, if that still waits; and if its request is not
written, it withdraws whatever waits under the identifier, whoever made that claim. No other claim is withdrawn. -/
theorem withdrawn_by_failed_iff {endpoint : Endpoint} {config : Config} (hp : Reachable endpoint config p)
    (hf : .error f ∈ p.settlements c [e]) (hk : p.correlator.waiting.get? k = some t)
    (hb : Claimed p.notes i b x t) :
    (p.step e).correlator.waiting.get? k ≠ some t ↔
      b = c ∨ ∃ d, d.request.id = x.id ∧ p.Unwritten c e d := by
  obtain ⟨es, rfl⟩ := hp.run
  have ho := (orderly_new endpoint config).steps es
  generalize (new endpoint config).steps es = p at *
  have hl := ho.ledger
  obtain ⟨⟨j, b', x', hj, hx⟩, -⟩ := hl.waits k t hk
  obtain ⟨rfl, rfl, rfl⟩ := hl.claimed_unique hb hj
  -- a claim of the call itself that waits is the one in hand
  have mine : ∀ {d}, p.dispatch? c = some d → b = c → k = d.request.id.key := by
    rintro d hd rfl
    rw [hl.own_waiting hd hk hb] at hk
    exact (hl.keyed_of_waiting hd hk).symm
  have struck : ∀ {id}, Strikes p (p.step e) id →
      ((p.step e).correlator.waiting.get? k ≠ some t ↔ k = id.key) := fun h => by
    rw [h k, hk]
    split <;> simp [*]
  cases step_fails ho (not_unsettled hf) with
  | idle h hn hown =>
    refine iff_of_false (not_not.mpr (h k t hk)) ?_
    rintro (rfl | ⟨d, -, hd⟩)
    · exact hown hk hb
    · exact hn d hd
  | @own d hd hn hw h =>
    rw [struck h]
    refine ⟨?_, ?_⟩
    · rintro rfl
      obtain ⟨n, hn, -⟩ := hl.course c d hd
      cases hk.symm.trans hw
      exact Or.inl (hl.claimed_unique hb hn).2.1
    · rintro (hbc | ⟨d, -, hd⟩)
      · exact mine hd hbc
      · exact absurd hd (hn d)
  | @vain d hn h =>
    rw [struck h]
    have hd := dispatch?_of_unwritten hn.1
    refine ⟨fun he => Or.inr ⟨d, RequestId.key_injective (he.symm.trans hx.symm), hn⟩, ?_⟩
    rintro (hbc | ⟨d', he, hd'⟩)
    · exact mine hd hbc
    · cases hn.1.symm.trans hd'.1
      rw [he, hx]

def contested : List Event :=
  [.call .connect, .turn 0, .opened 0 (.ok ()), .listen 0, .listen 0,
    .call (.send { method := "a", params := [], id := .number 1 }), .turn 1,
    .call (.send { method := "b", params := [], id := .number 2 }), .turn 2,
    .sink 1 (.failure (.io ⟨.brokenPipe, none⟩)), .closed 1, .arrive 0 (.ok none),
    .call (.send { method := "c", params := [], id := .number 2 }), .turn 3,
    .opened 1 (.ok ()), .listen 0, .listen 0, .sink 1 (.accept 1000), .sink 1 .flushed, .turn 2]

theorem withdrawn_by_failed_contested :
    let x : Request := { method := "c", params := [], id := .number 2 }
    let p := (new here {}).steps contested
    let e := Event.sink 2 (.failure (.io ⟨.connectionReset, none⟩))
    .error (.io ⟨.connectionReset, none⟩) ∈ p.settlements 2 [e] ∧
      p.correlator.waiting.get? x.id.key = some 2 ∧ Claimed p.notes 9 3 x 2 ∧
      ((p.step e).correlator.waiting.get? x.id.key ≠ some 2 ↔
        3 = 2 ∨ ∃ d, d.request.id = x.id ∧ p.Unwritten 2 e d) := by
  intro x p e
  have hf : .error (.io ⟨.connectionReset, none⟩) ∈ p.settlements 2 [e] := by decide +kernel
  have hk : p.correlator.waiting.get? x.id.key = some 2 := by decide +kernel
  have hb : Claimed p.notes 9 3 x 2 := rfl
  exact ⟨hf, hk, hb, withdrawn_by_failed_iff (Reachable.steps .new contested) hf hk hb⟩

/-- A call that fails can withdraw the claim of another one that is in progress. -/
theorem claim_of_other_withdrawn :
    ¬∀ (p : Provider) (b c : CallId) (e : Event) (f : Failure) (d : Dispatch),
      Reachable here {} p → .error f ∈ p.settlements c [e] → b ≠ c →
      p.correlator.waiting.get? d.request.id.key = some d.ticket → (p.step e).dispatch? b = some d →
      (p.step e).correlator.waiting.get? d.request.id.key = some d.ticket := by
  intro h
  have := h ((new here {}).steps contested) 3 2 (.sink 2 (.failure (.io ⟨.connectionReset, none⟩)))
    (.io ⟨.connectionReset, none⟩) ⟨{ method := "c", params := [], id := .number 2 }, 2⟩
    (Reachable.steps .new contested) (by decide +kernel) (by decide) (by decide +kernel) (by decide +kernel)
  exact absurd this (by decide +kernel)

end SocketRpc.Provider
