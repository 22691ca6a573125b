import SocketRpc.Proofs.Provider.Resets

namespace SocketRpc

namespace Correlator

variable {k m k' : Correlator} {a b : Prop} {i : CacheKey} {id : RequestId} {t : Ticket}

structure Remains (k : Correlator) (cut : Prop) (k' : Correlator) : Prop where
  parked : k'.parked = k.parked
  abandoned : k'.abandoned = k.abandoned
  waiting : (∀ i, k'.waiting.get? i = k.waiting.get? i) ∨ cut ∧ ∀ i, k'.waiting.get? i = none

lemma remains_of_claims (h : k'.claims = k.claims) : Remains k a k' := by
  obtain ⟨hw, hp, ha, -⟩ := fields_of_claims h
  exact ⟨hp, ha, Or.inl fun i => by rw [hw]⟩

lemma Remains.mono (h : Remains k a k') (hab : a → b) : Remains k b k' :=
  ⟨h.parked, h.abandoned, h.waiting.imp_right (And.imp_left hab)⟩

lemma Remains.trans (h : Remains k a m) (g : Remains m b k') : Remains k (a ∨ b) k' where
  parked := g.parked.trans h.parked
  abandoned := g.abandoned.trans h.abandoned
  waiting := by
    rcases g.waiting with hg | ⟨hb, hn⟩
    · rcases h.waiting with hh | ⟨ha, hn⟩
      · exact Or.inl fun i => (hg i).trans (hh i)
      · exact Or.inr ⟨Or.inl ha, fun i => (hg i).trans (hn i)⟩
    · exact Or.inr ⟨Or.inr hb, hn⟩

lemma Remains.on (h : Remains k a m) (g : Remains m False k') : Remains k a k' :=
  (h.trans g).mono (Or.elim · id False.elim)

lemma remains_dismiss (k : Correlator) : Remains k True k.dismiss := by
  obtain ⟨mail, he, -⟩ := foldl_closeTicket k k.waiting.values
  have hd : k.dismiss = { k with mail, waiting := {} } := by rw [dismiss, he]
  rw [hd]
  exact ⟨rfl, rfl, Or.inr ⟨trivial, fun _ => rfl⟩⟩

lemma waiting_forget (k : Correlator) (id : RequestId) (i : CacheKey) :
    (k.forget id).waiting.get? i = if i = id.key then none else k.waiting.get? i := by
  simp only [(forget_closes k id).waiting, List.mem_singleton]

lemma parked_forget (k : Correlator) (id : RequestId) :
    (k.forget id).parked = k.parked ∧ (k.forget id).abandoned = k.abandoned := by
  rw [forget]
  split <;> exact ⟨rfl, rfl⟩

lemma Remains.forget (h : Remains k a k') (id : RequestId) : Remains (k.forget id) a (k'.forget id) where
  parked := ((parked_forget k' id).1.trans h.parked).trans (parked_forget k id).1.symm
  abandoned := ((parked_forget k' id).2.trans h.abandoned).trans (parked_forget k id).2.symm
  waiting := by
    simp only [waiting_forget]
    refine h.waiting.imp (fun h i => by rw [h]) (And.imp_right fun h i => ?_)
    rw [h, ite_self]

def forfeit (k : Correlator) (i : CacheKey) : Correlator :=
  { k with parked := k.parked.erase i, abandoned := k.abandoned.erase i }

lemma forfeit_free (hp : k.parked.get? i = none) (ha : i ∉ k.abandoned) : k.forfeit i = k := by
  rw [forfeit, Table.erase_eq_self_iff.mpr hp, List.erase_of_not_mem ha]

lemma Remains.forfeit (h : Remains k a k') (i : CacheKey) : Remains (k.forfeit i) a (k'.forfeit i) :=
  ⟨congrArg (Table.erase · i) h.parked, congrArg (List.erase · i) h.abandoned, h.waiting⟩

lemma register_forget (h : k.register id = (.ok t, k')) : Remains (k.forfeit id.key) a (k'.forget id) := by
  simp only [register] at h
  split at h
  · cases h
  · rename_i hw
    have hw : k.waiting.get? id.key = none := by simpa using hw
    have waits : ∀ i, k'.waiting = k.waiting.set id.key t ∨ k'.waiting = k.waiting →
        (k'.forget id).waiting.get? i = k.waiting.get? i := fun i hi => by
      rw [waiting_forget]
      split
      · subst i
        exact hw.symm
      · rcases hi with hi | hi
        · rw [hi, Table.get?_set, if_neg (Ne.symm ‹_›)]
        · rw [hi]
    obtain ⟨hp, ha⟩ := parked_forget k' id
    split at h
    · cases h
      exact ⟨hp, ha, Or.inl fun i => waits i (Or.inr rfl)⟩
    · rename_i hn
      cases h
      refine ⟨hp.trans (Table.erase_eq_self_iff.mpr hn).symm, ha, Or.inl fun i => waits i (Or.inl rfl)⟩

end Correlator

namespace Provider

variable {F : Failure → Prop} {a : Option CallId} {p q m : Provider} {b c : CallId} {d : Dispatch} {ph : Phase}
  {e : Event} {es : List Event} {ns : List Note} {f : Failure} {op : Operation} {x : Request}

def Note.shifts : Note → Bool
  | .deposited _ v (.ok _) => !isPush v
  | .popped _ (some _) => true
  | _ => false

def Idles (p q : Provider) : Prop :=
  ∃ ns, q.notes = p.notes ++ ns ∧ ((∀ y ∈ ns, y.shifts = false) →
    p.correlator.Remains (.published .disconnected ∈ ns) q.correlator)

lemma idles_refl (p : Provider) : Idles p p :=
  ⟨[], (List.append_nil _).symm, fun _ => Correlator.remains_of_claims rfl⟩

lemma Idles.trans (h : Idles p m) (g : Idles m q) : Idles p q := by
  obtain ⟨ns, hn, hk⟩ := h
  obtain ⟨ms, gn, gk⟩ := g
  refine ⟨ns ++ ms, by rw [gn, hn, List.append_assoc], fun hs => ?_⟩
  rw [List.mem_append]
  obtain ⟨hns, hms⟩ := List.forall_mem_append.mp hs
  exact (hk hns).trans (gk hms)

def Bystands (p : Provider) (a : Option CallId) : Prop := ∀ c, a = some c → p.dispatch? c = none ∧ ¬ p.Fresh c

lemma Over.bystands (h : Over p c fun _ => True) : Bystands p (some c) := by
  rintro b ⟨⟩
  refine ⟨Option.eq_none_iff_forall_ne_some.mpr fun d hd => ?_, ?_⟩
  · obtain ⟨ph, hp, hd⟩ := Option.bind_eq_some_iff.mp hd
    obtain ⟨r, rfl, -⟩ := h.done ph hp
    cases hd
  · rintro (hc | hc)
    · exact absurd h.known (Nat.not_lt.mpr hc)
    · obtain ⟨r, hr, -⟩ := h.done _ hc
      cases hr

lemma Entry.idles (h : Entry F a p q) (ha : Bystands p a) : Idles p q ∧ Bystands q a := by
  cases h with
  | keep h =>
    obtain ⟨ns, f, -⟩ := h.frame
    refine ⟨⟨ns, f.notes, fun _ => Correlator.remains_of_claims h.claims⟩, fun c hc => ⟨?_, fun hq => ?_⟩⟩
    · exact Option.eq_none_iff_forall_ne_some.mpr fun d hd => by cases (ha c hc).1.symm.trans (h.dispatch c d hd)
    · exact (ha c hc).2 (f.fresh c hq)
  | claim hc _ hp => exact absurd hp (ha _ hc).2
  | reclaim hc _ hp | withdraw hc _ _ hp | part hc _ _ hp | settle hc _ hp => cases (ha _ hc).1.symm.trans hp
  | pop hc f =>
    subst hc
    exact ⟨⟨_, f.notes, fun hs => by cases hs _ (List.mem_singleton_self _)⟩, nofun⟩
  | deposit hc f hv =>
    subst hc
    refine ⟨⟨_, f.notes, fun hs => ?_⟩, nofun⟩
    have := hs _ List.mem_cons_self
    simp [Note.shifts, hv] at this

lemma calm_idles (hm : Calm F p a q) (ha : Bystands p a) : Idles p q := by
  have hi : Idles p q ∧ Bystands q a := by
    have hs := calm_entries hm
    clear hm
    induction hs with
    | refl => exact ⟨idles_refl p, ha⟩
    | tail _ he ih =>
      obtain ⟨hi, hb⟩ := he.idles ih.2
      exact ⟨ih.1.trans hi, hb⟩
  exact hi.1

lemma upheaval_idles (hu : Upheaval p q)
    (hj : ∀ c l next, p.phaseOf c = some (.joining l next) → q.phaseOf c = p.phaseOf c) : Idles p q := by
  have dismissed : ∀ {k : Correlator} {ns : List Note}, k.claims = p.correlator.dismiss.claims →
      .published .disconnected ∈ ns → p.correlator.Remains (.published .disconnected ∈ ns) k := fun hk hn =>
    ((Correlator.remains_dismiss _).trans (Correlator.remains_of_claims (a := True) hk)).mono fun _ => hn
  cases hu with
  | tear hp hf => exact absurd (hj _ _ _ hp) (phaseOf_tornDown_ne hp)
  | orphan h =>
    refine ⟨p.correlator.waiting.values.map .answered ++ [.notified, .published .disconnected], ?_, fun _ => ?_⟩
    · simp [orphan, dismissing, publish, note, setListener]
    · exact dismissed rfl (by simp)
  | @fail l h hs f =>
    simp only [fault, hs]
    refine ⟨p.correlator.waiting.values.map .answered ++ [.notified, .published .disconnected, .ended l], ?_,
      fun _ => ?_⟩
    · simp [endListener, dismissing, publish, note, setListener]
    · exact dismissed rfl (by simp)

lemma step_idles (p : Provider) (hs : ∀ c, p.subject e = some c → Over p c fun _ => True) : Idles p (p.step e) := by
  obtain ⟨m, hm, he⟩ := step_moves (F := fun _ => True) p e fun _ _ => trivial
  have hi : (∀ c, p.subject e = some c → Over m c fun _ => True) ∧ Idles p m :=
    chain_preserves (I := fun q => (∀ c, p.subject e = some c → Over q c fun _ => True) ∧ Idles p q)
      (fun q r ⟨ho, hi⟩ hm => by
        refine ⟨fun c hc => (ho c hc).calm hm, hi.trans (calm_idles hm fun c hc => ?_)⟩
        exact (ho c hc).bystands c rfl)
      ⟨hs, idles_refl p⟩ hm
  rcases he with he | ⟨-, hu, others⟩
  · exact he ▸ hi.2
  · refine hi.2.trans (upheaval_idles hu fun c l next hp => ?_)
    have hc : p.subject e ≠ some c := fun hc => by
      obtain ⟨r, hr, -⟩ := (hi.1 c hc).done _ hp
      cases hr
    rw [phaseOf, others c hc, phaseOf]

def Phase.unwritten? : Phase → Option Dispatch
  | .locking (.send d) | .resetClosing d _ | .resetOpening d _ | .handing d _ _ | .writing d _ _ => some d
  | _ => none

inductive Proceeds (p : Provider) (c : CallId) (d : Dispatch) (q : Provider) : Prop where
  | goes {ph : Phase} (hp : q.phaseOf c = some ph) (hd : ph.unwritten? = some d)
      (hk : q.correlator.claims = p.correlator.claims) (hu : Unsettled p c q)
  | fails {m : Provider} {ph : Phase} {f : Failure} (hp : m.phaseOf c = some ph)
      (hk : m.correlator.claims = p.correlator.claims) (hn : m.notes = p.notes) (hq : q = m.failSend c d f)

lemma proceeds_setPhase {ph' : Phase} (hp : p.phaseOf c = some ph) (hd : ph'.unwritten? = some d) :
    Proceeds p c d (p.setPhase c ph') :=
  .goes (phaseOf_setPhase_self hp) hd rfl (unsettled_same rfl)

lemma Proceeds.of_same (h : Proceeds m c d q) (hk : m.correlator.claims = p.correlator.claims)
    (hn : m.notes = p.notes) : Proceeds p c d q := by
  cases h with
  | goes hp hd hk' hu => exact .goes hp hd (hk'.trans hk) ((unsettled_same hn).trans hu)
  | fails hp hk' hn' hq => exact .fails hp (hk'.trans hk) (hn'.trans hn) hq

lemma sendLocked_proceeds (hp : p.phaseOf c = some ph) : Proceeds p c d (p.sendLocked c d) := by
  rw [sendLocked]
  split
  · exact .fails hp rfl rfl rfl
  · split
    · exact .fails hp rfl rfl rfl
    · split
      · exact proceeds_setPhase hp rfl
      · exact proceeds_setPhase hp rfl

lemma hand_proceeds {cause : ResetCause} {s : SocketId} (hp : p.phaseOf c = some (.handing d cause s)) :
    Proceeds p c d (p.hand c d cause s) := by
  cases hs : p.slot with
  | none =>
    simp only [hand, hs, resetFailed_eq]
    exact .fails hp rfl rfl rfl
  | some conn =>
    have h := hand_offer hp hs
    generalize p.offer s = r, p.hand c d cause s = q at h
    cases h with
    | waits => exact .goes hp rfl rfl (unsettled_same rfl)
    | fails f => exact .fails hp rfl rfl rfl
    | renews hq _ hk hu => exact .goes hq rfl (by rw [hk]; rfl) hu

lemma opened_proceeds {cause : ResetCause} (hp : p.phaseOf c = some (.resetOpening d cause))
    (r : Except Failure Unit) : Proceeds p c d (p.opened c r) := by
  cases r with
  | error f => exact .fails hp rfl rfl (opened_error hp f).1
  | ok u =>
    simp only [opened, hp]
    exact (hand_proceeds (phaseOf_setPhase_self (p := { p.takeSocket.2 with slot := _ }) hp)).of_same rfl rfl

lemma sink_proceeds {out : Outgoing} {after : Option ResetCause} {a : SinkAnswer}
    (hp : p.phaseOf c = some (.writing d out after)) (hw : .wrote (.ok ()) ∉ p.deed c (.sink c a)) :
    Proceeds p c d (p.sink c a) := by
  cases ha : out.step a with
  | more o =>
    rw [(deed_more hp ha).1]
    exact proceeds_setPhase hp rfl
  | done r =>
    cases r with
    | ok =>
      rw [deed_sink hp ha] at hw
      exact absurd List.mem_cons_self hw
    | error f =>
      simp only [sink, hp, ha]
      split
      · exact proceeds_setPhase hp rfl
      · exact .fails hp rfl rfl rfl

lemma step_proceeds (hk : c < p.nextCall) (hp : p.phaseOf c = some ph) (hd : ph.unwritten? = some d)
    (hs : p.subject e = some c) (hn : e ≠ .drop c) (hw : .wrote (.ok ()) ∉ p.deed c e) :
    Proceeds p c d (p.step e) := by
  have stays : Proceeds p c d p := .goes hp hd rfl (unsettled_same rfl)
  cases hh : ph.heeds e with
  | false => rwa [step_unheeded hk hp hs hh]
  | true =>
    obtain ⟨op, hc⟩ := call_of_phase hp
    cases ph with
    | locking errand =>
      cases errand with
      | send d' =>
        cases hd
        cases e with
        | turn b =>
          cases hs
          simp only [Provider.step, turn, hc, perform]
          split
          · exact sendLocked_proceeds hp
          · exact stays
        | drop b => cases hs; exact absurd rfl hn
        | _ => cases hh
      | _ => cases hd
    | resetClosing d' cause =>
      cases hd
      cases e with
      | closed b =>
        cases hs
        simp only [Provider.step, Provider.closed, hp]
        exact proceeds_setPhase hp rfl
      | drop b => cases hs; exact absurd rfl hn
      | _ => cases hh
    | resetOpening d' cause =>
      cases hd
      cases e with
      | opened b r => cases hs; exact opened_proceeds hp r
      | drop b => cases hs; exact absurd rfl hn
      | _ => cases hh
    | handing d' cause s =>
      cases hd
      cases e with
      | turn b =>
        cases hs
        simp only [Provider.step, turn, hc]
        exact hand_proceeds hp
      | drop b => cases hs; exact absurd rfl hn
      | _ => cases hh
    | writing d' out after =>
      cases hd
      cases e with
      | sink b a => cases hs; exact sink_proceeds hp hw
      | drop b => cases hs; exact absurd rfl hn
      | _ => cases hh
    | _ => cases hd

inductive Starts (p : Provider) (c : CallId) (q : Provider) : Prop where
  | refused {x : Request} {f : Failure} (hx : (p.correlator.waiting.get? x.id.key).isSome)
      (hk : q.correlator.claims = p.correlator.claims) (hn : q.notes = p.notes ++ [.settled c x (.error f)])
      (hp : ∃ r, q.phaseOf c = some (.done r))
  | claims {m : Provider} {d : Dispatch} {k : Correlator}
      (hr : p.correlator.register d.request.id = (.ok d.ticket, k)) (hm : m.correlator = k)
      (hn : m.notes = p.notes ++ [.claimed c d.request d.ticket]) (h : Proceeds m c d q)

lemma turn_starts (hc : p.calls.get? c = some { op }) (hd : (p.draw op).isSome) : Starts p c (p.turn c) := by
  obtain ⟨⟨x, n⟩, hd⟩ := Option.isSome_iff_exists.mp hd
  have hp : p.phaseOf c = some .start := phaseOf_of_call hc
  rw [turn_start hc, begin_drawn hd, beginSend]
  rcases hr : p.correlator.register x.id with ⟨f | t, k⟩
  · obtain ⟨hx, -, rfl⟩ := Correlator.register_error hr
    have hq := phaseOf_settle (m := { p with nextId := n }) hp x (.error f)
    obtain ⟨hf, hk, -⟩ := frame_settle { p with nextId := n } c x (.error f)
    exact .refused hx hk hf.notes (hq.imp fun _ h => h)
  · let o := { p with nextId := n, correlator := k }.note (.claimed c x t)
    let m := o.askLock c (.send ⟨x, t⟩)
    have hm : m.phaseOf c = some (.locking (.send ⟨x, t⟩)) :=
      phaseOf_setPhase_self (p := { o with lock := o.lock.ask c }) hp
    refine .claims (m := m) (d := ⟨x, t⟩) hr rfl rfl ?_
    simp only [run, withLock, perform]
    split
    · exact sendLocked_proceeds hm
    · exact .goes hm rfl rfl (unsettled_same rfl)

def Event.ofNoOther (c : CallId) : Event → Bool
  | .turn b | .opened b _ | .closed b | .sink b _ | .collect b | .drop b => b = c
  | _ => true

/-- How a call with a request stands that began at a provider, as long as no write of it was successful. A claim
that can still be withdrawn is seen as if it were. -/
inductive Plight (p : Provider) (c : CallId) (op : Operation) (ns : List Note) (q : Provider) : Prop where
  | begun (hc : q.calls.get? c = some { op }) (hs : ns.filterMap (Note.settles c) = [])
      (hk : p.correlator.Remains (.published .disconnected ∈ ns) q.correlator)
  | unwritten {ph : Phase} {d : Dispatch} (hp : q.phaseOf c = some ph) (hd : ph.unwritten? = some d)
      (hs : ns.filterMap (Note.settles c) = [])
      (hk : (p.correlator.forfeit d.request.id.key).Remains (.published .disconnected ∈ ns)
        (q.correlator.forget d.request.id))
  | past (hq : Over q c fun _ => True)
      (hk : ∀ x r, .settled c x r ∈ ns →
        (p.correlator.forfeit x.id.key).Remains (.published .disconnected ∈ ns) q.correlator)

lemma settled_not_mem {x : Request} {r : Except Failure Response} (hs : ns.filterMap (Note.settles c) = []) :
    .settled c x r ∉ ns := fun h => by
  have := List.filterMap_eq_nil_iff.mp hs _ h
  simp [Note.settles] at this

lemma failSend_remains (m : Provider) (c : CallId) (d : Dispatch) (f : Failure) :
    (m.correlator.forget d.request.id).Remains False (m.failSend c d f).correlator := by
  have discarded : (m.correlator.forget d.request.id).Remains False
      ((m.correlator.forget d.request.id).discard d.ticket) := ⟨rfl, rfl, Or.inl fun _ => rfl⟩
  have hc := (frame_settleDispatch (m.release.withdrawing d.request.id (·.forget d.request.id)) c d (.error f)).2.1
  refine discarded.on (Correlator.remains_of_claims (hc.trans ?_))
  simp only [withdrawing, correlator_release]

lemma Proceeds.plight (op : Operation) (h : Proceeds m c d q) (hk : c < q.nextCall)
    (hs : ns.filterMap (Note.settles c) = [])
    (hm : (p.correlator.forfeit d.request.id.key).Remains (.published .disconnected ∈ ns)
      (m.correlator.forget d.request.id)) :
    ∃ ms, q.notes = m.notes ++ ms ∧ Plight p c op (ns ++ ms) q := by
  have later : ∀ {ms : List Note} {k : Correlator}, (m.correlator.forget d.request.id).Remains False k →
      (p.correlator.forfeit d.request.id.key).Remains (.published .disconnected ∈ ns ++ ms) k := fun hk =>
    (hm.on hk).mono (List.mem_append_left _)
  cases h with
  | goes hp hd hk' hu =>
    obtain ⟨ms, hn, hms⟩ := hu
    refine ⟨ms, hn, .unwritten hp hd (by rw [List.filterMap_append, hs, hms]; rfl) ?_⟩
    exact later ((Correlator.remains_of_claims hk').forget _)
  | @fails n ph f hp hk' hn hq =>
    obtain ⟨ms, hms, ht⟩ := notes_failSend n c d f
    obtain ⟨z, hz⟩ := phaseOf_failSend hp d f
    have hc : (n.correlator.forget d.request.id).Remains False q.correlator := hq ▸ failSend_remains n c d f
    refine ⟨_, by rw [hq, hms, hn], .past ⟨hk, fun ph' hp' => ⟨z, ?_, trivial⟩⟩ fun x r hx => ?_⟩
    · rw [hq, hz] at hp'
      exact (Option.some.inj hp').symm
    · have hx : x = d.request := by
        rcases List.mem_append.mp hx with hx | hx
        · exact absurd hx (settled_not_mem hs)
        · rcases List.mem_append.mp hx with hx | hx
          · cases ht _ hx
          · cases List.mem_singleton.mp hx
            rfl
      rw [hx]
      exact later (((Correlator.remains_of_claims hk').forget d.request.id).on hc)

lemma idle_step (he : e.ofNoOther c) (hs : q.subject e ≠ some c ∨ Over q c fun _ => True) : Idles q (q.step e) := by
  have own : (∀ b, q.subject e = some b → b = c) → Idles q (q.step e) := fun hb =>
    step_idles q fun b h => by
      obtain rfl := hb b h
      exact hs.resolve_left (not_not.mpr h)
  cases e with
  | call op => exact ⟨[], (List.append_nil _).symm, fun _ => Correlator.remains_of_claims rfl⟩
  | turn | opened | closed | sink | collect | drop =>
    refine own fun b h => ?_
    cases h
    exact of_decide_eq_true he
  | listen | arrive | pop | take | elapse => exact own nofun

lemma Idles.unsettled (h : Idles p q) (hu : Unsettled p c q) :
    ∃ ns, q.notes = p.notes ++ ns ∧ ns.filterMap (Note.settles c) = [] ∧
      ((∀ y ∈ ns, y.shifts = false) → p.correlator.Remains (.published .disconnected ∈ ns) q.correlator) := by
  obtain ⟨ns, hn, hk⟩ := h
  obtain ⟨ms, hm, hs⟩ := hu
  exact ⟨ns, hn, by rwa [List.append_cancel_left (hn.symm.trans hm)], hk⟩

lemma plight_drop (p : Provider) (op : Operation) (hp : q.phaseOf c = some ph) (hk : c < (q.drop c).nextCall)
    (hs : ns.filterMap (Note.settles c) = []) :
    ∃ ms, (q.drop c).notes = q.notes ++ ms ∧ Plight p c op (ns ++ ms) (q.drop c) := by
  obtain ⟨ms, hms, ht⟩ := notes_drop hp
  refine ⟨ms, hms, .past ⟨hk, fun ph' hp' => by cases (phaseOf_drop hp).symm.trans hp'⟩ fun x r hx => ?_⟩
  exact absurd hx (settled_not_mem (by rw [List.filterMap_append, hs, settles_tacit ht]; rfl))

lemma plight_turn (ho : Orderly q) (hc : q.calls.get? c = some { op }) (hd : (q.draw op).isSome)
    (hk : c < (q.turn c).nextCall) (hs : ns.filterMap (Note.settles c) = [])
    (hr : p.correlator.Remains (.published .disconnected ∈ ns) q.correlator) :
    ∃ ms, (q.turn c).notes = q.notes ++ ms ∧ Plight p c op (ns ++ ms) (q.turn c) := by
  have later : ∀ {y : Note} {k k' : Correlator}, k.Remains (.published .disconnected ∈ ns) k' →
      k.Remains (.published .disconnected ∈ ns ++ [y]) k' := fun h => h.mono (List.mem_append_left _)
  cases turn_starts hc hd with
  | @refused x f hx hk' hn hz =>
    obtain ⟨t, ht⟩ := Option.isSome_iff_exists.mp hx
    obtain ⟨ha, hp⟩ := ho.ledger.apart _ _ ht
    refine ⟨_, hn, .past ⟨hk, fun ph hph => ?_⟩ fun y r hy => ?_⟩
    · obtain ⟨z, hz⟩ := hz
      exact ⟨z, (Option.some.inj (hz.symm.trans hph)).symm, trivial⟩
    · have hy : y = x := by
        rcases List.mem_append.mp hy with hy | hy
        · exact absurd hy (settled_not_mem hs)
        · cases List.mem_singleton.mp hy
          rfl
      have hf := hr.forfeit x.id.key
      -- nothing is parked under the identifier of a request in flight, nor is it one given up
      rw [Correlator.forfeit_free hp ha] at hf
      rw [hy]
      exact later (hf.on (Correlator.remains_of_claims hk'))
  | @claims m d k hreg hm hn h =>
    have hf : (p.correlator.forfeit d.request.id.key).Remains (.published .disconnected ∈ ns)
        (m.correlator.forget d.request.id) := by
      rw [hm]
      exact (hr.forfeit _).on (Correlator.register_forget hreg)
    have unsettled : (ns ++ [Note.claimed c d.request d.ticket]).filterMap (Note.settles c) = [] := by
      simp [hs, Note.settles]
    obtain ⟨ms, hms, hp⟩ := h.plight op hk unsettled (later hf)
    refine ⟨.claimed c d.request d.ticket :: ms, by rw [hms, hn, List.append_assoc]; rfl, ?_⟩
    rwa [List.append_assoc] at hp

lemma Plight.step (h : Plight p c op ns q) (ho : Orderly q) (hk : c < q.nextCall) (hd : (p.draw op).isSome)
    (he : e.ofNoOther c) (hw : .wrote (.ok ()) ∉ q.deed c e) :
    ∃ ms, (q.step e).notes = q.notes ++ ms ∧
      ((∀ y ∈ ms, y.shifts = false) → Plight p c op (ns ++ ms) (q.step e)) := by
  have hk' : c < (q.step e).nextCall := Nat.lt_of_lt_of_le hk (nextCall_le q e)
  -- what goes on around a call that does nothing
  have aside : q.subject e ≠ some c ∨ Over q c (fun _ => True) → _ := fun hs =>
    (idle_step he hs).unsettled (unsettled_step ho hs)
  have unheeded : ∀ {ph}, q.phaseOf c = some ph → q.subject e = some c → ph.heeds e = false →
      ∃ ms, (q.step e).notes = q.notes ++ ms ∧
        ((∀ y ∈ ms, y.shifts = false) → Plight p c op (ns ++ ms) (q.step e)) := fun hp hs hh =>
    ⟨[], by rw [step_unheeded hk hp hs hh, List.append_nil], fun _ => by
      rwa [step_unheeded hk hp hs hh, List.append_nil]⟩
  cases h with
  | begun hc hs hr =>
    have hp := phaseOf_of_call hc
    by_cases hsub : q.subject e = some c
    · cases hh : Phase.heeds .start e with
      | false => exact unheeded hp hsub hh
      | true =>
        cases e with
        | turn b =>
          cases hsub
          obtain ⟨ms, hms, h⟩ := plight_turn ho hc ((draw_isSome p q op).trans hd) hk' hs hr
          exact ⟨ms, hms, fun _ => h⟩
        | drop b =>
          cases hsub
          obtain ⟨ms, hms, h⟩ := plight_drop p op hp hk' hs
          exact ⟨ms, hms, fun _ => h⟩
        | _ => cases hh
    · obtain ⟨ms, hms, hn, hi⟩ := aside (Or.inl hsub)
      refine ⟨ms, hms, fun hsh => .begun ((calls_other q hsub).trans hc) ?_ ?_⟩
      · rw [List.filterMap_append, hs, hn]
        rfl
      · rw [List.mem_append]
        exact hr.trans (hi hsh)
  | unwritten hp hu hs hr =>
    -- the claim is withdrawn in thought only, so what goes on around it has to go on around that, too
    by_cases hsub : q.subject e = some c
    · by_cases hdrop : e = .drop c
      · subst hdrop
        obtain ⟨ms, hms, h⟩ := plight_drop p op hp hk' hs
        exact ⟨ms, hms, fun _ => h⟩
      · obtain ⟨ms, hms, h⟩ := (step_proceeds hk hp hu hsub hdrop hw).plight op hk' hs hr
        exact ⟨ms, hms, fun _ => h⟩
    · obtain ⟨ms, hms, hn, hi⟩ := aside (Or.inl hsub)
      refine ⟨ms, hms, fun hsh => .unwritten ((phaseOf_other hsub).trans hp) hu ?_ ?_⟩
      · rw [List.filterMap_append, hs, hn]
        rfl
      · rw [List.mem_append]
        exact hr.trans ((hi hsh).forget _)
  | past hq hr =>
    obtain ⟨ms, hms, hn, hi⟩ := aside (Or.inr hq)
    refine ⟨ms, hms, fun hsh => .past (hq.steps [e]) fun x r hx => ?_⟩
    have hx := (List.mem_append.mp hx).resolve_right (settled_not_mem hn)
    rw [List.mem_append]
    exact (hr x r hx).trans (hi hsh)

lemma plight_steps (ho : Orderly p) (hc : p.calls.get? c = some { op }) (hd : (p.draw op).isSome)
    (he : ∀ e ∈ es, e.ofNoOther c) (hw : .wrote (.ok ()) ∉ p.deeds c es) :
    c < (p.steps es).nextCall ∧ ∃ ns, (p.steps es).notes = p.notes ++ ns ∧
      ((∀ y ∈ ns, y.shifts = false) → Plight p c op ns (p.steps es)) := by
  induction es using List.reverseRecOn with
  | nil =>
    refine ⟨ho.ledger.known c (Option.isSome_of_mem hc), [], (List.append_nil _).symm, fun _ => ?_⟩
    exact .begun hc rfl (Correlator.remains_of_claims rfl)
  | append_singleton es e ih =>
    rw [deeds_snoc, List.mem_append, not_or] at hw
    obtain ⟨hes, hl⟩ := List.forall_mem_append.mp he
    obtain ⟨hk, ns, hn, hp⟩ := ih hes hw.1
    rw [steps_snoc]
    refine ⟨Nat.lt_of_lt_of_le hk (nextCall_le _ e), ?_⟩
    obtain ⟨ms, hms⟩ := notes_steps (p.steps es) [e]
    refine ⟨ns ++ ms, by rw [← List.append_assoc, ← hn]; exact hms, fun hs => ?_⟩
    obtain ⟨hns, hss⟩ := List.forall_mem_append.mp hs
    obtain ⟨ms', hms', h⟩ := (hp hns).step (ho.steps es) hk hd (hl e (List.mem_singleton_self e)) hw.2
    obtain rfl := List.append_cancel_left (hms.symm.trans hms')
    exact h hss

/-- When the request of a call is not written, every claim that others made stays, unless the listener told them
that the connection is gone, and so do all parked responses and all requests that were given up, except those of the
identifier of the request: the claim to its response took them away, and they are not brought back. -/
theorem unwritten_forfeits {endpoint : Endpoint} {config : Config} (hp : Reachable endpoint config p)
    (hc : p.calls.get? c = some { op }) (hd : (p.draw op).isSome) (he : ∀ e ∈ es, e.ofNoOther c)
    (hn : (p.steps es).notes = p.notes ++ ns) (hs : ∀ y ∈ ns, y.shifts = false)
    (hw : .wrote (.ok ()) ∉ p.deeds c es) (hf : .settled c x (.error f) ∈ ns) :
    let k := p.correlator
    let k' := (p.steps es).correlator
    k'.parked = k.parked.erase x.id.key ∧ k'.abandoned = k.abandoned.erase x.id.key ∧
    ((∀ i, k'.waiting.get? i = k.waiting.get? i) ∨
      .published .disconnected ∈ ns ∧ ∀ i, k'.waiting.get? i = none) ∧
    (k'.parked = k.parked ∧ k'.abandoned = k.abandoned ↔
      k.parked.get? x.id.key = none ∧ x.id.key ∉ k.abandoned) := by
  obtain ⟨before, rfl⟩ := hp.run
  have ho := (orderly_new endpoint config).steps before
  intro k k'
  obtain ⟨-, ms, hms, h⟩ := plight_steps ho hc hd he hw
  obtain rfl := List.append_cancel_left (hn.symm.trans hms)
  have hr : (k.forfeit x.id.key).Remains (.published .disconnected ∈ ns) k' := by
    cases h hs with
    | begun _ hnone | unwritten _ _ hnone => exact absurd hf (settled_not_mem hnone)
    | past _ hk => exact hk x _ hf
  have parked : k'.parked = k.parked.erase x.id.key := hr.parked
  have abandoned : k'.abandoned = k.abandoned.erase x.id.key := hr.abandoned
  refine ⟨parked, abandoned, hr.waiting, ?_⟩
  rw [parked, abandoned, Table.erase_eq_self_iff, List.erase_eq_self_iff]

def answeredEarly : Provider :=
  (new here {}).steps [.call .connect, .turn 0, .opened 0 (.ok ()), .listen 0, .listen 0,
    .arrive 0 (.ok (some (Utf8.ofText "\x7b\"id\":1\x7d"))), .call (.send firstRequest)]

def writtenInVain : List Event := [.turn 1, .sink 1 (.failure (.io ⟨.connectionReset, none⟩))]

def failedWrite : List Note :=
  [.claimed 1 firstRequest 0, .settled 1 firstRequest (.error (.io ⟨.connectionReset, none⟩))]

theorem unwritten_forfeits_answeredEarly :
    let k := answeredEarly.correlator
    let k' := (answeredEarly.steps writtenInVain).correlator
    answeredEarly.calls.get? 1 = some { op := .send firstRequest } ∧
      (answeredEarly.steps writtenInVain).notes = answeredEarly.notes ++ failedWrite ∧
      .wrote (.ok ()) ∉ answeredEarly.deeds 1 writtenInVain ∧
      k.parked.get? firstRequest.id.key = some { id := .number 1 } ∧ k'.parked = k.parked.erase firstRequest.id.key ∧
      ¬ (k'.parked = k.parked ∧ k'.abandoned = k.abandoned) := by
  intro k k'
  have hc : answeredEarly.calls.get? 1 = some { op := .send firstRequest } := rfl
  have hn : (answeredEarly.steps writtenInVain).notes = answeredEarly.notes ++ failedWrite := rfl
  have hw : .wrote (.ok ()) ∉ answeredEarly.deeds 1 writtenInVain := by decide +kernel
  have hk : k.parked.get? firstRequest.id.key = some { id := .number 1 } := by decide +kernel
  obtain ⟨hp, -, -, hl⟩ := unwritten_forfeits (Reachable.steps .new _) hc rfl (by simp [writtenInVain, Event.ofNoOther])
    hn (by simp [failedWrite, Note.shifts]) hw (List.mem_of_getElem? (i := 1) rfl)
  refine ⟨hc, hn, hw, hk, hp, fun h => ?_⟩
  cases hk.symm.trans (hl.mp h).1

/-- A response that was parked is lost with a request that cannot be written, though nothing else happens. -/
theorem parked_response_lost :
    ¬∀ (p : Provider) (c : CallId) (op : Operation) (es : List Event) (f : Failure),
      Reachable here {} p → p.calls.get? c = some { op } → (∀ e ∈ es, p.subject e = some c) →
      .wrote (.ok ()) ∉ p.deeds c es → .error f ∈ p.settlements c es →
      (∀ i r, p.correlator.parked.get? i = some r → (p.steps es).correlator.parked.get? i = some r) ∧
        (∀ i ∈ p.correlator.abandoned, i ∈ (p.steps es).correlator.abandoned) ∧
        ∀ i t, p.correlator.waiting.get? i = some t → (p.steps es).correlator.waiting.get? i = some t := by
  intro h
  have := (h answeredEarly 1 (.send firstRequest) writtenInVain (.io ⟨.connectionReset, none⟩)
    (Reachable.steps .new _) rfl (by simp [writtenInVain, subject]) (by decide +kernel) (by decide +kernel)).1
      firstRequest.id.key { id := .number 1 } (by decide +kernel)
  exact absurd this (by decide +kernel)

end Provider

end SocketRpc
