import SocketRpc.Proofs.Provider.Leftovers
import SocketRpc.Proofs.Provider.Lines
import SocketRpc.Proofs.Provider.Sources
import SocketRpc.Proofs.Provider.Waiters

namespace SocketRpc

lemma Correlator.Registers.filled {c d : Correlator} {id : RequestId} {t u : Ticket} {r : Response}
    (h : Registers c d id t) (hp : c.parked.get? id.key = none) (hu : d.mail.get? u = some (.filled r)) :
    u ≠ t ∧ c.mail.get? u = some (.filled r) := by
  have hne : u ≠ t := by
    rintro rfl
    rcases h.own with ⟨-, hm⟩ | ⟨x, hx, -⟩
    · cases hu.symm.trans hm
    · cases hp.symm.trans hx
  exact ⟨hne, h.mail u hne ▸ hu⟩

namespace Provider

variable {F : Failure → Prop} {a : Option CallId} {p q m : Provider} {b c : CallId} {l : ListenerId} {e : Event}

structure Unanswered (p : Provider) : Prop where
  parked : ∀ k, p.correlator.parked.get? k = none
  filled : ∀ b d r, p.dispatch? b = some d → p.correlator.mail.get? d.ticket ≠ some (.filled r)

lemma Unanswered.entry (h : Unanswered p) (he : Entry F (some c) p q) : Unanswered q := by
  refine ⟨fun k => entries_parked (.single he) k (h.parked k), fun b d r hd hm => ?_⟩
  have mail : ∀ {k : Correlator}, q.correlator.claims = k.claims → k.mail.get? d.ticket = some (.filled r) :=
    fun hc => (Correlator.fields_of_claims hc).2.2.2.1 ▸ hm
  -- a request that has got a response is not the one claimed now
  have claims : ∀ {k : Correlator} {y t ns}, Frame (some c) p q ns → p.correlator.Registers k y t →
      k.mail.get? d.ticket = some (.filled r) → (∀ x, q.dispatch? c = some x → x.ticket = t) → False :=
    fun f hr hm hx => by
      obtain ⟨hne, hm⟩ := hr.filled (h.parked _) hm
      have hb : b ≠ c := by
        rintro rfl
        exact hne (hx d hd)
      exact h.filled b d r ((f.dispatch? hb).symm.trans hd) hm
  have ticket : ∀ {x y : Dispatch}, q.dispatch? c = some x → q.dispatch? c = some y → y.ticket = x.ticket :=
    fun hx hy => congrArg Dispatch.ticket (Option.some.inj (hy.symm.trans hx))
  cases he with
  | keep hk => exact h.filled b d r (hk.dispatch b d hd) (mail hk.claims)
  | claim ha f hp hr hc hx =>
    cases ha
    exact claims f (Correlator.register_ok hr) (mail hc) fun _ hy => ticket hx hy
  | reclaim ha f hp hcl hr hc hx =>
    cases ha
    exact claims f (Correlator.register_ok hr) (filled_of_discard hc hm).2 fun _ hy => ticket hx hy
  | withdraw ha f hn hp hc hs hx => exact h.filled b d r (hx b ▸ hd) (hc.filled hm)
  | part ha f hn hp hc hx | settle ha f hp ho hc hx =>
    cases ha
    exact h.filled b d r (dispatch?_of_frame f hx hd) (filled_of_discard hc hm).2
  | pop ha | deposit ha => cases ha

lemma Unanswered.entries (h : Unanswered p) (hs : Entries F (some c) p q) : Unanswered q := by
  induction hs with
  | refl => exact h
  | tail _ he ih => exact ih.entry he

lemma Unanswered.calm (h : Unanswered p) (hr : ∀ l, ¬ p.Reads l) (hm : Calm F p a q) : Unanswered q := by
  cases a with
  | none =>
    obtain ⟨hc, hmail, hp⟩ := calm_outside hr hm
    exact ⟨fun k => hp k (h.parked k), fun b d r hd => hmail ▸ h.filled b d r (dispatch?_of_calls hc b ▸ hd)⟩
  | some c => exact h.entries (calm_entries hm)

structure Hollow (p : Provider) : Prop extends Unanswered p where
  held : Held p
  unserved : ∀ s, p.correlator.serves s = false

lemma Hollow.calm (h : Hollow p) (hl : Ledger p) (hr : ∀ l, ¬ p.Reads l) (hm : Calm F p a q) :
    Hollow q ∨ Severs Phase.carries a p q := by
  refine (h.held.calm hl hm).imp_left fun held => ⟨h.toUnanswered.calm hr hm, held, fun s => ?_⟩
  rcases calm_steady hm with hs | ⟨c, d, r, -, started, k, hp, hk, -⟩ | ⟨-, l, v, hl, -⟩
  · exact (hs.serves s).trans (h.unserved s)
  · exact absurd (Correlator.receive_filled hk).1 (h.filled c d r (dispatch?_of_phase hp rfl))
  · exact absurd hl (hr l)

def Clean (p : Provider) : Prop := (∀ l, ¬ p.Attached l) → Hollow p

lemma clean_of_up {conn : Connection} (h : p.Up conn) : Clean p := fun hv =>
  absurd (Or.inl (by rw [listening, h.slot]; rfl)) (hv conn.listener)

def Phase.burdened (ph : Phase) : Bool := ph.carries || ph.parting

lemma Severs.burdened {cut : Phase → Bool} (h : Severs cut a p q) (hc : ∀ ph, cut ph → ph.burdened) :
    Severs Phase.burdened a p q := by
  obtain ⟨c, ph, ha, hp, hx, hq⟩ := h
  exact ⟨c, ph, ha, hp, hc ph hx, hq⟩

lemma Clean.calm (h : Clean p) (ho : Orderly p) (hm : Calm F p a q) : Clean q ∨ Severs Phase.burdened a p q := by
  by_cases hv : ∃ l, p.Attached l
  · obtain ⟨l, hl⟩ := hv
    refine (attached_calm ho hm hl).imp (fun hq hv => absurd hq (hv l)) fun hs => ?_
    exact hs.severs_parting.burdened fun ph hp => by rw [Phase.burdened, hp, Bool.or_true]
  · have hv := not_exists.mp hv
    refine ((h hv).calm ho.ledger (fun l hr => hv l (ho.guarded.attached_of_reads hr)) hm).imp
      (fun hq _ => hq) fun hs => ?_
    exact hs.burdened fun ph hp => by rw [Phase.burdened, hp, Bool.true_or]

lemma hollow_clear (h : q.correlator = p.correlator.clear) (hd : ∀ b, q.dispatch? b = none) : Hollow q where
  parked k := by
    rw [h]
    rfl
  filled b d r hb := by cases (hd b).symm.trans hb
  held k t hk := by
    rw [h] at hk
    cases hk
  unserved s := by
    rw [h]
    rfl

lemma calls_upheaval (hu : Upheaval p q) (hc : p.calls.get? b = none) : q.calls.get? b = none := by
  cases hu with
  | tear hp hf =>
    rename_i c l next
    have hne : c ≠ b := by
      rintro rfl
      rw [phaseOf, hc] at hp
      cases hp
    exact (TearsDown.others ⟨l, next, hp, hf, rfl⟩ hne).trans hc
  | orphan => exact hc
  | fail _ hs f =>
    simp only [fault, hs]
    exact hc

lemma clean_upheaval (hg : Guarded p) (hs : p.Sole c) (hu : Upheaval p q) : Clean q := by
  intro hv
  have dispatch := (upheaval_stays hu).1.dispatch
  obtain ⟨b, l, next, hp, -, rfl⟩ := hg.tearsDown hu hv
  obtain rfl : b = c := by
    by_contra hb
    rw [phaseOf, hs b hb] at hp
    cases hp
  refine hollow_clear (p := p) ?_ fun x => (dispatch x).trans ?_
  · cases next with
    | connect => rfl
    | disconnect => exact correlator_release _
  · by_cases hx : x = b
    · rw [hx, dispatch?, hp]
      rfl
    · rw [dispatch?, phaseOf, hs x hx]
      rfl

lemma Sole.calm (h : p.Sole c) (hm : Calm F p a q) (ha : ∀ b, a = some b → b = c) : q.Sole c := fun b hb => by
  obtain ⟨ns, f⟩ := entries_frame (calm_entries hm)
  exact (f.others b fun he => hb (ha b he)).trans (h b hb)

theorem Clean.step (h : Clean p) (ho : Orderly p) (hs : p.Sole c) (hc : ∀ b, p.subject e = some b → b = c)
    (hd : ∀ b, e ≠ .drop b) : Clean (p.step e) :=
  (kept_step (I := fun m => Clean m ∧ m.Sole c)
    (fun _ _ ho ⟨h, hs⟩ hm => (h.calm ho hm).imp_left fun hq => ⟨hq, hs.calm hm hc⟩)
    (fun _ _ ho ⟨_, hs⟩ hu => ⟨clean_upheaval ho.guarded hs hu, fun b hb => calls_upheaval hu (hs b hb)⟩)
    (fun _ => rfl) ho ⟨h, hs⟩ fun b hb => absurd hb (hd b)).1

structure Vacant (p : Provider) : Prop where
  slot : p.slot = none
  ended : ∀ l li, p.listeners.get? l = some li → li.isFinished = true
  waiting : p.correlator.waiting = {}
  parked : p.correlator.parked = {}
  queues : p.correlator.queues = {}

theorem Clean.vacant (h : Clean p) (hw : Whole p) (hs : p.slot = none) (hc : ∀ b, p.calls.get? b = none) :
    Vacant p := by
  have hp : ∀ b, p.phaseOf b = none := fun b => Option.map_eq_none_iff.mpr (hc b)
  have hv : ∀ l, ¬ p.Attached l := Idle.vacant (fun b ph hb => by cases (hp b).symm.trans hb) hs
  have hollow := h hv
  refine ⟨hs, fun l li hl => ?_, Table.eq_empty fun k => ?_, Table.eq_empty hollow.parked, Table.eq_empty fun s => ?_⟩
  · by_contra hf
    exact hv l (hw.accounted l li hl (Bool.eq_false_iff.mpr hf))
  · refine Option.eq_none_iff_forall_ne_some.mpr fun t hk => ?_
    obtain ⟨b, d, hd, -⟩ := hollow.held k t hk
    rw [dispatch?, hp b] at hd
    cases hd
  · exact Option.not_isSome_iff_eq_none.mp (Bool.eq_false_iff.mp (hollow.unserved s))

end Provider

end SocketRpc
