import SocketRpc.Proofs.Provider.Sockets
import SocketRpc.Proofs.Provider.Subscriptions

/-!
A call to disconnect, from its beginning to its return. Where it finds no connection it changes nothing; else
it takes the connection out, and when it returns nothing of it is left.
-/

namespace SocketRpc.Provider

variable {F : Failure → Prop} {a : Option CallId} {p q m : Provider} {b c : CallId} {l : ListenerId}
  {ph : Phase} {e : Event} {es : List Event} {conn : Connection}

lemma calls_other (p : Provider) (hs : p.subject e ≠ some c) : (p.step e).calls.get? c = p.calls.get? c := by
  obtain ⟨m, hm, he⟩ := step_moves (F := fun _ => True) p e fun _ _ => trivial
  obtain ⟨ns, f⟩ := entries_frame (calms_entries hm)
  rcases he with he | ⟨-, -, others⟩
  · rw [he]
    exact f.others c hs
  · exact (others c hs).trans (f.others c hs)

lemma phaseOf_other (hs : p.subject e ≠ some c) : (p.step e).phaseOf c = p.phaseOf c := by
  rw [phaseOf, calls_other p hs, phaseOf]

lemma not_begins (hk : c < p.nextCall) (hs : p.subject e = some c) : ∀ op, e ≠ .call op := by
  rintro op rfl
  exact Nat.ne_of_gt hk (Option.some.inj hs)

lemma gone_step (hk : c < p.nextCall) (hc : p.calls.get? c = none) : (p.step e).calls.get? c = none := by
  by_cases hs : p.subject e = some c
  · rw [step_unknown hs (not_begins hk hs) hc, hc]
  · rw [calls_other p hs, hc]

lemma epoch_calms (hm : Calms F a p q) : q.correlator.epoch = p.correlator.epoch := by
  induction hm with
  | refl => rfl
  | tail _ hm ih => exact (epoch_calm hm).trans ih

lemma epoch_other (ho : Orderly p) (hp : p.phaseOf c = some ph) (hg : ph.guarded) (hs : p.subject e ≠ some c) :
    (p.step e).correlator.epoch = p.correlator.epoch := by
  obtain ⟨m, hm, he⟩ := step_moves (F := fun _ => True) p e fun _ _ => trivial
  have hme := epoch_calms hm
  rcases he with he | ⟨-, hu, others⟩
  · rw [he, hme]
  · rcases upheaval_steady hu with h | ⟨-, b, l, next, hb, hne⟩
    · exact h.epoch.trans hme
    · obtain ⟨ns, f⟩ := entries_frame (calms_entries hm)
      have hmg := (ho.calms hm).guarded
      obtain rfl := hmg.alone (hmg.holds b _ hb rfl) ((f.phaseOf hs).trans hp) hg
      rw [phaseOf, others b hs, phaseOf] at hne
      exact absurd rfl hne

def Phase.heeds : Phase → Event → Bool
  | .start, .turn _ | .locking _, .turn _ | .joining _ _, .turn _ | .pausing _ _, .turn _ | .handing _ _ _, .turn _
  | .awaiting _ _, .turn _ | .reading _ _, .turn _ | .closing _ _, .closed _ | .resetClosing _ _, .closed _
  | .opening _, .opened _ _ | .resetOpening _ _, .opened _ _ | .writing _ _ _, .sink _ _ | .done _, .collect _
  | _, .drop _ => true
  | _, _ => false

lemma step_unheeded (hk : c < p.nextCall) (hp : p.phaseOf c = some ph) (hs : p.subject e = some c)
    (hh : ph.heeds e = false) : p.step e = p := by
  obtain ⟨op, hc⟩ := call_of_phase hp
  cases e with
  | call op => exact absurd rfl (not_begins hk hs op)
  | drop b => cases ph <;> cases hh
  | turn b | opened b | closed b | sink b | collect b =>
    cases hs
    cases ph <;>
      first | simp [Provider.step, turn, opened, closed, sink, collect, result?, hp, hc]; done | cases hh
  | listen | arrive | pop | take | elapse => cases hs

lemma step_heeded (hl : Ledger p) (hs : p.subject e = some c) (hn : ∀ op, e ≠ .call op) :
    p.step e = p ∨ ∃ op ph, p.calls.get? c = some { op, phase := ph } ∧ ph.heeds e := by
  cases hc : p.calls.get? c with
  | none => exact Or.inl (step_unknown hs hn hc)
  | some call =>
    cases hh : call.phase.heeds e with
    | true => exact Or.inr ⟨_, _, rfl, hh⟩
    | false => exact Or.inl (step_unheeded (hl.known c (Option.isSome_of_mem hc)) (phaseOf_of_call hc) hs hh)

lemma result?_of_phase (hp : p.phaseOf c = some ph) (hn : ∀ r, ph ≠ .done r) : p.result? c = none :=
  Option.eq_none_iff_forall_ne_some.mpr fun r hr => hn r (Option.some.inj (hp.symm.trans (phaseOf_of_result hr)))

lemma turn_errand {op : Operation} {r : Errand} (ho : op.errand? = some r)
    (h : p.calls.get? c = some { op } ∨ p.phaseOf c = some (.locking r)) :
    ∃ m, (m = p ∨ m = p.askLock c r) ∧ m.phaseOf c = some (.locking r) ∧
      (p.turn c = m ∨ m.Holds c r ∧ p.turn c = m.perform c r) := by
  rcases h with h | h
  · have hp : p.phaseOf c = some .start := phaseOf_of_call h
    have hq : p.turn c = p.run c r := by
      simp only [turn, h]
      exact begin_of_errand ho
    refine ⟨p.askLock c r, Or.inr rfl, phaseOf_setPhase_self (p := { p with lock := p.lock.ask c }) hp, ?_⟩
    rw [hq, run, withLock]
    split
    · exact Or.inr ⟨holds_askLock hp ‹_›, rfl⟩
    · exact Or.inl rfl
  · obtain ⟨op, hc⟩ := call_of_phase h
    refine ⟨p, Or.inl rfl, h, ?_⟩
    simp only [turn, hc]
    split
    · exact Or.inr ⟨⟨h, ‹_›⟩, rfl⟩
    · exact Or.inl rfl

lemma nextCall_le (p : Provider) (e : Event) : p.nextCall ≤ (p.step e).nextCall := by
  obtain ⟨m, hm, he⟩ := step_moves (F := fun _ => True) p e fun _ _ => trivial
  obtain ⟨ns, f⟩ := entries_frame (calms_entries hm)
  rcases he with he | ⟨-, hu, -⟩
  · exact he ▸ f.nextCall
  · obtain ⟨a, ms, -, g⟩ := upheaval_frame hu
    exact f.nextCall.trans g.nextCall

lemma until_done {S : List Event → Prop} (ho : Orderly p) (hk : c < p.nextCall) (start : S [])
    (step : ∀ es, S es → Orderly (p.steps es) → c < (p.steps es).nextCall →
      ∀ e, S (es ++ [e]) ∨ ∃ r, (p.steps (es ++ [e])).phaseOf c = some (.done r))
    (gone : ∀ es, (p.steps es).calls.get? c = none → S es) (es : List Event) :
    c < (p.steps es).nextCall ∧ (S es ∨ ∃ r, (p.steps es).phaseOf c = some (.done r)) := by
  induction es using List.reverseRecOn with
  | nil => exact ⟨hk, Or.inl start⟩
  | append_singleton es e ih =>
    obtain ⟨hk, h⟩ := ih
    have hk' : c < ((p.steps es).step e).nextCall := Nat.lt_of_lt_of_le hk (nextCall_le _ e)
    refine ⟨steps_snoc p es e ▸ hk', ?_⟩
    rcases h with h | ⟨r, hr⟩
    · exact step es h (ho.steps es) hk e
    · have ended : Over (p.steps es) c fun _ => True :=
        ⟨hk, fun _ hp => ⟨r, Option.some.inj (hp.symm.trans hr), trivial⟩⟩
      cases hp : (p.steps (es ++ [e])).phaseOf c with
      | none => exact Or.inl (gone _ (Option.map_eq_none_iff.mp hp))
      | some ph =>
        rw [steps_snoc] at hp
        obtain ⟨r, rfl, -⟩ := (ended.steps [e]).done ph hp
        exact Or.inr ⟨r, rfl⟩

structure Unaltered (p q : Provider) : Prop where
  correlator : q.correlator = p.correlator
  state : q.state = p.state
  slot : q.slot = p.slot
  listeners : q.listeners = p.listeners

lemma Unaltered.refl (p : Provider) : Unaltered p p := ⟨rfl, rfl, rfl, rfl⟩

lemma unaltered_release (p : Provider) : Unaltered p p.release := by
  obtain ⟨k, ns, h⟩ := release_eq p
  rw [h]
  exact ⟨rfl, rfl, rfl, rfl⟩

def Asks (p : Provider) (c : CallId) : Prop :=
  p.calls.get? c = some { op := .disconnect } ∨ p.phaseOf c = some (.locking .disconnect)

inductive Looks (p : Provider) (c : CallId) (q : Provider) : Prop where
  | waits (h : q.Asks c) (hu : Unaltered p q)
  | finds {conn : Connection} (hs : p.slot = some conn) (hq : q.phaseOf c = some (.closing conn .disconnect))
      (he : q.correlator = p.correlator)
  | misses (hs : p.slot = none) (hh : ∀ b, p.lock.holder = some b → b = c)
      (hq : q.phaseOf c = some (.done (.ok .nothing))) (hu : Unaltered p q)

lemma looks_disconnectLocked (h : p.Holds c .disconnect) : Looks p c (p.disconnectLocked c) := by
  rw [disconnectLocked]
  split
  · rename_i hs
    refine .misses hs (fun b hb => Option.some.inj (hb.symm.trans h.2)) ?_ ?_
    · exact phaseOf_setPhase_self ((phaseOf_release p c).trans h.1)
    · obtain ⟨hc, hst, hsl, hl⟩ := unaltered_release p
      exact ⟨hc, hst, hsl, hl⟩
  · rename_i conn hs
    exact .finds hs (phaseOf_setPhase_self (p := { p with slot := none }.publish .closing) h.1) rfl

lemma Looks.of_asked (h : Looks m c q) (hm : m = p ∨ m = p.askLock c .disconnect) : Looks p c q := by
  rcases hm with rfl | rfl
  · exact h
  · cases h with
    | waits h hu => exact .waits h ⟨hu.1, hu.2, hu.3, hu.4⟩
    | finds hs hq he => exact .finds hs hq he
    | misses hs hh hq hu =>
      exact .misses hs (fun b hb => hh b (holder_ask hb c)) hq ⟨hu.1, hu.2, hu.3, hu.4⟩

def Phase.yields : Phase → Bool
  | .start | .locking _ | .joining _ _ => true
  | _ => false

lemma step_yields (hk : c < p.nextCall) (hp : p.phaseOf c = some ph) (hy : ph.yields) (hs : p.subject e = some c)
    (ht : e ≠ .turn c) (hd : e ≠ .drop c) : p.step e = p := by
  refine step_unheeded hk hp hs ?_
  cases e with
  | turn b =>
    cases hs
    exact absurd rfl ht
  | drop b =>
    cases hs
    exact absurd rfl hd
  | _ => cases ph <;> first | rfl | cases hy

lemma Asks.step (h : p.Asks c) (hk : c < p.nextCall) (hs : p.subject e = some c) :
    Looks p c (p.step e) ∨ (p.step e).phaseOf c = none := by
  have yields : ∃ ph, p.phaseOf c = some ph ∧ ph.yields := by
    rcases h with h | h
    · exact ⟨_, phaseOf_of_call h, rfl⟩
    · exact ⟨_, h, rfl⟩
  obtain ⟨ph, hp, hy⟩ := yields
  by_cases hd : e = .drop c
  · exact Or.inr (hd ▸ phaseOf_drop hp)
  by_cases ht : e = .turn c
  · left
    subst ht
    obtain ⟨m, hm, hl, hq | ⟨hh, hq⟩⟩ := turn_errand rfl h <;> rw [Provider.step, hq]
    · refine .of_asked ?_ hm
      exact .waits (Or.inr hl) (.refl m)
    · exact (looks_disconnectLocked hh).of_asked hm
  · rw [step_yields hk hp hy hs ht hd]
    exact Or.inl (.waits h (.refl p))

def TakesDown (p : Provider) (c : CallId) (conn : Connection) : Prop :=
  p.phaseOf c = some (.closing conn .disconnect) ∨ p.phaseOf c = some (.joining conn.listener .disconnect)

lemma TakesDown.apart (h : p.TakesDown c conn) : ∃ ph, p.phaseOf c = some ph ∧ ph.apart := by
  rcases h with h | h
  · exact ⟨_, h, rfl⟩
  · exact ⟨_, h, rfl⟩

structure Dissolves (p : Provider) (c : CallId) (q : Provider) : Prop where
  correlator : q.correlator = p.correlator.clear
  state : q.state = .disconnected
  slot : q.slot = p.slot
  done : q.phaseOf c = some (.done (.ok .nothing))

lemma dissolves_tornDown (h : p.phaseOf c = some ph) : p.Dissolves c (p.tornDown c .disconnect) := by
  obtain ⟨hc, hst, hsl, -⟩ :=
    unaltered_release (((p.dismissing Correlator.clear).note .cleared).publish .disconnected)
  exact ⟨hc, hst, hsl, phaseOf_setPhase_self ((phaseOf_release _ c).trans h)⟩

lemma Dissolves.of_eq (h : m.Dissolves c q) (hc : m.correlator = p.correlator) (hs : m.slot = p.slot) :
    p.Dissolves c q where
  correlator := by rw [h.correlator, hc]
  state := h.state
  slot := h.slot.trans hs
  done := h.done

lemma dissolves_join (h : p.phaseOf c = some (.joining l .disconnect)) :
    p.join c l .disconnect = p ∨ p.Dissolves c (p.join c l .disconnect) := by
  rw [join]
  split
  · exact Or.inr (dissolves_tornDown h)
  · exact Or.inl rfl

lemma dissolves_joins (h : m.phaseOf c = some ph) (hc : m.correlator = p.correlator) (hs : m.slot = p.slot) :
    let q := (m.setPhase c (.joining l .disconnect)).join c l .disconnect
    q.phaseOf c = some (.joining l .disconnect) ∧ q.correlator = p.correlator ∨ p.Dissolves c q := by
  have hj : (m.setPhase c (.joining l .disconnect)).phaseOf c = some (.joining l .disconnect) :=
    phaseOf_setPhase_self h
  intro q
  rcases dissolves_join hj with hq | hq
  · left
    rw [show q = _ from hq]
    exact ⟨hj, hc⟩
  · exact Or.inr (hq.of_eq hc hs)

lemma dissolves_closed (h : p.phaseOf c = some (.closing conn .disconnect)) :
    (p.closed c).phaseOf c = some (.joining conn.listener .disconnect) ∧
      (p.closed c).correlator = p.correlator ∨ p.Dissolves c (p.closed c) := by
  rw [closed, h]
  exact dissolves_joins (m := (p.letGo conn.listener).abortListener conn.listener) h rfl rfl

lemma TakesDown.step (h : p.TakesDown c conn) (hk : c < p.nextCall) (hs : p.subject e = some c) :
    (p.step e).TakesDown c conn ∧ (p.step e).correlator = p.correlator ∨ p.Dissolves c (p.step e) ∨
      (p.step e).phaseOf c = none := by
  have stay : p.step e = p → (p.step e).TakesDown c conn ∧ (p.step e).correlator = p.correlator :=
    fun he => by rw [he]; exact ⟨h, rfl⟩
  by_cases hd : e = .drop c
  · obtain ⟨ph, hp, -⟩ := h.apart
    exact Or.inr (Or.inr (hd ▸ phaseOf_drop hp))
  rcases h with h | h
  · by_cases hc : e = .closed c
    · subst hc
      exact (dissolves_closed h).imp (And.imp_left Or.inr) Or.inl
    · refine Or.inl (stay (step_unheeded hk h hs ?_))
      cases e with
      | closed b =>
        cases hs
        exact absurd rfl hc
      | drop b =>
        cases hs
        exact absurd rfl hd
      | _ => rfl
  · by_cases ht : e = .turn c
    · subst ht
      obtain ⟨op, hcall⟩ := call_of_phase h
      have hq : p.step (.turn c) = p.join c conn.listener .disconnect := by
        simp only [Provider.step, turn, hcall]
      rcases dissolves_join h with he | hd
      · exact Or.inl (stay (hq.trans he))
      · exact Or.inr (Or.inl (hq ▸ hd))
    · exact Or.inl (stay (step_yields hk h rfl hs ht hd))

def Untouched (p : Provider) (c : CallId) (es : List Event) : Prop :=
  ∀ ds d, ds ++ [d] <+: es → (p.steps ds).subject d = some c → Unaltered (p.steps ds) (p.steps (ds ++ [d]))

def Finds (p : Provider) (c : CallId) (es ds : List Event) (conn : Connection) : Prop :=
  (p.steps ds).slot = some conn ∧
    ∃ d, ds ++ [d] <+: es ∧ (p.steps (ds ++ [d])).phaseOf c = some (.closing conn .disconnect)

inductive Stage (p : Provider) (c : CallId) (es : List Event) : Prop where
  | asks (h : (p.steps es).Asks c) (hu : p.Untouched c es)
  | takesDown {ds : List Event} {conn : Connection} (hf : p.Finds c es ds conn)
      (h : (p.steps es).TakesDown c conn)
      (he : (p.steps es).correlator.epoch = (p.steps ds).correlator.epoch)
  | gone (h : (p.steps es).calls.get? c = none)

inductive Returns (p : Provider) (c : CallId) (es : List Event) (e : Event) : Prop where
  | misses (ha : (p.steps es).subject e = some c) (hs : (p.steps es).slot = none)
      (hh : ∀ b, (p.steps es).lock.holder = some b → b = c)
      (hq : ((p.steps es).step e).phaseOf c = some (.done (.ok .nothing))) (hu : p.Untouched c (es ++ [e]))
  | dissolves {ds : List Event} {conn : Connection} (ha : (p.steps es).subject e = some c)
      (hf : p.Finds c (es ++ [e]) ds conn) (h : (p.steps es).TakesDown c conn)
      (hd : (p.steps es).Dissolves c ((p.steps es).step e))
      (he : (p.steps es).correlator.epoch = (p.steps ds).correlator.epoch)

lemma Untouched.snoc (h : p.Untouched c es)
    (hu : (p.steps es).subject e = some c → Unaltered (p.steps es) ((p.steps es).step e)) :
    p.Untouched c (es ++ [e]) := by
  intro ds d hd hs
  rcases List.prefix_concat_iff.mp hd with he | hd
  · obtain ⟨rfl, hx⟩ := List.append_inj' he rfl
    cases hx
    exact steps_snoc p ds _ ▸ hu hs
  · exact h ds d hd hs

lemma Finds.snoc {ds : List Event} (h : p.Finds c es ds conn) (e : Event) : p.Finds c (es ++ [e]) ds conn := by
  obtain ⟨hs, d, hd, hp⟩ := h
  exact ⟨hs, d, hd.trans (List.prefix_append es [e]), hp⟩

lemma Stage.step (h : Stage p c es) (ho : Orderly (p.steps es)) (hk : c < (p.steps es).nextCall) (e : Event) :
    Stage p c (es ++ [e]) ∨ Returns p c es e := by
  have gone : ((p.steps es).step e).phaseOf c = none → Stage p c (es ++ [e]) := fun hq =>
    .gone (steps_snoc p es e ▸ Option.map_eq_none_iff.mp hq)
  by_cases hs : (p.steps es).subject e = some c
  · cases h with
    | asks h hu =>
      rcases h.step hk hs with h | hq
      · cases h with
        | waits h hsame => exact Or.inl (.asks (steps_snoc p es e ▸ h) (hu.snoc fun _ => hsame))
        | finds hsl hq he =>
          refine Or.inl (.takesDown ⟨hsl, e, List.prefix_rfl, ?_⟩ (Or.inl ?_) ?_) <;> rw [steps_snoc]
          · exact hq
          · exact hq
          · rw [he]
        | misses hsl hh hq hsame => exact Or.inr (.misses hs hsl hh hq (hu.snoc fun _ => hsame))
      · exact Or.inl (gone hq)
    | takesDown hf h he =>
      rcases h.step hk hs with ⟨h, hc⟩ | hd | hq
      · exact Or.inl (.takesDown (hf.snoc e) (steps_snoc p es e ▸ h) (by rw [steps_snoc, hc, he]))
      · exact Or.inr (.dissolves hs (hf.snoc e) h hd he)
      · exact Or.inl (gone hq)
    | gone h => exact Or.inl (.gone (steps_snoc p es e ▸ gone_step hk h))
  · left
    have hp := phaseOf_other hs
    cases h with
    | asks h hu =>
      refine .asks (steps_snoc p es e ▸ ?_) (hu.snoc fun he => absurd he hs)
      rwa [Asks, calls_other _ hs, hp]
    | takesDown hf h he =>
      obtain ⟨ph, hph, ha⟩ := h.apart
      refine .takesDown (hf.snoc e) (steps_snoc p es e ▸ ?_) ?_
      · rwa [TakesDown, hp]
      · rw [steps_snoc, epoch_other ho hph (Phase.guarded_of_apart ha) hs, he]
    | gone h => exact .gone (steps_snoc p es e ▸ gone_step hk h)

lemma Stage.result? (h : Stage p c es) : (p.steps es).result? c = none := by
  cases h with
  | asks h hu =>
    rcases h with h | h
    · exact result?_of_phase (phaseOf_of_call h) nofun
    · exact result?_of_phase h nofun
  | takesDown hf h he =>
    rcases h with h | h
    · exact result?_of_phase h nofun
    · exact result?_of_phase h nofun
  | gone h => simp [Provider.result?, phaseOf, h]

lemma Returns.done (h : Returns p c es e) : ((p.steps es).step e).phaseOf c = some (.done (.ok .nothing)) := by
  cases h with
  | misses _ _ _ hq => exact hq
  | dissolves _ _ _ hd => exact hd.done

lemma stage_run (h : Stage p c []) (ho : Orderly p) (hk : c < p.nextCall) (es : List Event) :
    c < (p.steps es).nextCall ∧ (Stage p c es ∨ ∃ r, (p.steps es).phaseOf c = some (.done r)) :=
  until_done ho hk h (fun es h ho hk e => (h.step ho hk e).imp_right fun h =>
    ⟨.ok .nothing, steps_snoc p es e ▸ h.done⟩) (fun _ => .gone) es

lemma stage_new (p : Provider) : Stage (p.step (.call .disconnect)) p.nextCall [] := by
  refine .asks (Or.inl (get?_newCall p _)) fun ds d hd _ => ?_
  simp at hd

lemma returns_of_result (ho : Orderly p) {r : Except Failure Reply}
    (hm : ((p.step (.call .disconnect)).steps es).result? p.nextCall = none)
    (hr : (((p.step (.call .disconnect)).steps es).step e).result? p.nextCall = some r) :
    Returns (p.step (.call .disconnect)) p.nextCall es e := by
  have ho' := ho.steps [.call .disconnect]
  obtain ⟨hk, h | ⟨r', hp⟩⟩ := stage_run p.stage_new ho' (Nat.lt_succ_self _) es
  · rcases h.step (ho'.steps es) hk e with h | h
    · rw [← steps_snoc] at hr
      cases h.result?.symm.trans hr
    · exact h
  · rw [Provider.result?, hp] at hm
    cases hm

lemma Works.unfinished {lj : Listener} (h : Works p a q) (hl : q.listeners.get? l = some lj)
    (hf : lj.isFinished = false) :
    (∃ li, p.listeners.get? l = some li ∧ li.isFinished = false) ∨ q.listening = some l := by
  have follows : Follows p q → ∃ li, p.listeners.get? l = some li ∧ li.isFinished = false := fun h => by
    obtain ⟨li, hl, hf, -⟩ := h.unfinished l lj hl hf
    exact ⟨li, hl, hf⟩
  cases h with
  | aside _ h | part _ _ _ h | desert _ _ _ _ h => exact Or.inl (follows h)
  | takeOut _ _ _ _ h | renew _ _ _ h => exact Or.inl (follows (follows_of_eq h))
  | hand _ _ _ _ h =>
    rw [h, Table.get?_modify] at hl
    split at hl
    · obtain ⟨li, hli, rfl⟩ := Option.map_eq_some_iff.mp hl
      exact Or.inl ⟨li, hli, hf⟩
    · exact Or.inl ⟨lj, hl, hf⟩
  | connect _ _ hs h =>
    rw [h, Table.get?_set] at hl
    split at hl
    · exact Or.inr (by rw [listening, hs]; exact congrArg some ‹_›)
    · exact Or.inl ⟨lj, hl, hf⟩

lemma attached_upheaval {li : Listener} (hu : Upheaval p q) (ha : p.Attached l)
    (hl : p.listeners.get? l = some li) (hf : li.isFinished = false) : q.Attached l := by
  cases hu with
  | tear hp hj =>
    rename_i c k next
    have hs : (p.tornDown c next).slot = p.slot := by
      cases next with
      | connect => rfl
      | disconnect => exact slot_release _
    have others : ∀ b, some c ≠ some b → (p.tornDown c next).phaseOf b = p.phaseOf b := fun b hb => by
      rw [phaseOf, TearsDown.others ⟨k, next, hp, hj, rfl⟩ fun he => hb (congrArg some he), phaseOf]
    refine ha.keep (listening_of_slot hs) others ?_
    rintro _ ph ⟨⟩ hc hk
    cases hp.symm.trans hc
    cases hk
    rw [isFinished_eq hl, hf] at hj
    cases hj
  | orphan => exact (attached_same rfl rfl).mpr ha
  | fail hr hs f =>
    simp only [fault, hs]
    exact (attached_same rfl rfl).mpr ha

def Accounted (p : Provider) : Prop :=
  ∀ l li, p.listeners.get? l = some li → li.isFinished = false → p.Attached l

lemma accounted_new (endpoint : Endpoint) (config : Config) : Accounted (new endpoint config) :=
  fun _ _ h => by cases h

lemma Accounted.calm (h : Accounted p) (ho : Orderly p) (hm : Calm F p a q) : Accounted q ∨ Strands a p q := by
  by_cases hs : Strands a p q
  · exact Or.inr hs
  refine Or.inl fun l lj hl hf => ?_
  rcases (calm_works ho.ledger.known hm).unfinished hl hf with ⟨li, hl, hf⟩ | hl
  · exact (attached_calm ho hm (h l li hl hf)).resolve_right hs
  · exact Or.inl hl

lemma Accounted.upheaval (h : Accounted p) (hu : Upheaval p q) : Accounted q := by
  intro l lj hl hf
  obtain ⟨a, hw, -⟩ := upheaval_works hu
  rcases hw.unfinished hl hf with ⟨li, hl, hf⟩ | hl
  · exact attached_upheaval hu (h l li hl hf) hl hf
  · exact Or.inl hl

lemma attached_run {endpoint : Endpoint} {config : Config} (hc : Completes (new endpoint config) es) :
    Accounted ((new endpoint config).steps es) :=
  invariant_of_spared (fun _ _ _ ho h hm => (h.calm ho hm).imp_right Strands.severs)
    (fun _ _ _ h hu => h.upheaval hu) (fun _ => rfl) (orderly_new endpoint config)
    (accounted_new endpoint config) hc.spares

structure NothingLeft (p q : Provider) : Prop where
  waiting : q.correlator.waiting = {}
  parked : q.correlator.parked = {}
  abandoned : q.correlator.abandoned = []
  queues : q.correlator.queues = {}
  fault : q.correlator.fault = none
  peerClosed : q.correlator.peerClosed = false
  epoch : q.correlator.epoch = p.correlator.epoch + 1
  state : q.state = .disconnected
  closed : ∀ k t, p.correlator.waiting.get? k = some t → (q.correlator.receive t).1 = .closed
  settled : ∀ b d, q.dispatch? b = some d → (q.correlator.receive d.ticket).1 ≠ .empty
  returns : ∀ b d start, q.phaseOf b = some (.awaiting d start) → ∃ r, (q.turn b).result? b = some r

lemma turn_returns {d : Dispatch} {start : Nat} (hp : p.phaseOf c = some (.awaiting d start))
    (hd : (p.correlator.receive d.ticket).1 ≠ .empty) : ∃ r, (p.turn c).result? c = some r := by
  obtain ⟨op, hc⟩ := call_of_phase hp
  have settled : ∀ (k : Correlator) r, ∃ x, ({ p with correlator := k }.settleDispatch c d r).result? c = some x :=
    fun k r => by
      obtain ⟨z, hz⟩ := calls_settle { p with correlator := k.discard d.ticket } c d.request r
      have hdone : ({ p with correlator := k }.settleDispatch c d r).phaseOf c = some (.done z) := by
        rw [settleDispatch, phaseOf, hz, Table.get?_modify, if_pos rfl, hc]
        rfl
      exact ⟨z, by rw [result?, hdone]⟩
  simp only [turn, hc, await]
  split
  · exact settled _ _
  · exact settled p.correlator _
  · rename_i hm
    rw [hm] at hd
    exact absurd rfl hd

lemma Dissolves.nothingLeft (h : p.Dissolves c q) (hl : Ledger p) (hq : Ledger q) : NothingLeft p q := by
  have cleared : ∀ {α : Type} (f : Correlator → α), f q.correlator = f p.correlator.clear :=
    fun f => congrArg f h.correlator
  have hw : q.correlator.waiting = {} := cleared Correlator.waiting
  have settled : ∀ b d, q.dispatch? b = some d → (q.correlator.receive d.ticket).1 ≠ .empty := fun b d hd he => by
    rw [receive_fst] at he
    obtain ⟨m, -, hs, -⟩ := hq.course b d hd
    cases hs with
    | waiting _ hopen =>
      rw [hw] at hopen
      cases hopen
    | answered hm | closed hm =>
      rw [hm] at he
      cases he
  refine ⟨hw, cleared Correlator.parked, cleared Correlator.abandoned, cleared Correlator.queues,
    cleared Correlator.fault, cleared Correlator.peerClosed, cleared Correlator.epoch, h.state,
    fun k t ht => ?_, settled, fun b d start hp => turn_returns hp (settled b d (dispatch?_of_phase hp rfl))⟩
  have hk : k ∈ p.correlator.waiting.keys := Table.mem_keys.mpr ⟨t, ht⟩
  rw [receive_fst, h.correlator, (Correlator.clear_closes hl.waiting).closed k hk t ht]
  cases p.correlator.mail.get? t <;> rfl

lemma Returns.idle (h : Returns p c es e) (hg : Guarded (p.steps es)) : ((p.steps es).step e).Idle := by
  have holder : (p.steps es).subject e = some c ∧ ∀ b, (p.steps es).lock.holder = some b → b = c := by
    cases h with
    | misses ha _ hh => exact ⟨ha, hh⟩
    | dissolves ha _ ht =>
      obtain ⟨ph, hp, hap⟩ := ht.apart
      exact ⟨ha, fun b hb => Option.some.inj (hb.symm.trans (hg.holds c ph hp (Phase.guarded_of_apart hap)))⟩
  obtain ⟨ha, hh⟩ := holder
  intro b ph hp
  by_cases hb : b = c
  · subst hb
    cases h.done.symm.trans hp
    rfl
  · rw [phaseOf_other fun hs => hb (Option.some.inj (hs.symm.trans ha))] at hp
    exact Bool.eq_false_iff.mpr fun hgd => hb (hh b (hg.holds b ph hp hgd))

lemma Returns.slot (h : Returns p c es e) (hg : Guarded (p.steps es)) : ((p.steps es).step e).slot = none := by
  cases h with
  | misses ha hs hh hq hu =>
    rw [← steps_snoc, (hu es e List.prefix_rfl ha).slot, hs]
  | dissolves ha hf ht hd he =>
    obtain ⟨ph, hp, hap⟩ := ht.apart
    rw [hd.slot, slot_of_listening (hg.empty c ph hp hap)]

/-- When a call to disconnect returns, there is no connection and no listener goes on. If it found a
connection, that is cleared, and it is the only clearance since the connection was taken out; if it found
none, it has changed nothing. -/
theorem disconnect_leaves_nothing (endpoint : Endpoint) (config : Config) (es₀ es : List Event) (e : Event)
    (r : Except Failure Reply) :
    let p := (new endpoint config).steps es₀
    let s := p.step (.call .disconnect)
    let m := s.steps es
    let q := m.step e
    m.result? p.nextCall = none → q.result? p.nextCall = some r →
      r = .ok .nothing ∧ q.slot = none ∧ (∀ l li, q.listeners.get? l = some li → ¬ li.Live) ∧
      (Completes (new endpoint config) (es₀ ++ .call .disconnect :: (es ++ [e])) →
        ∀ l li, q.listeners.get? l = some li → li.isFinished = true) ∧
      ((∃ ds conn, s.Finds p.nextCall (es ++ [e]) ds conn ∧ NothingLeft m q ∧
          q.correlator.epoch = (s.steps ds).correlator.epoch + 1) ∨
        m.slot = none ∧ s.Untouched p.nextCall (es ++ [e])) := by
  intro p s m q hm hr
  have ho : Orderly p := (orderly_new endpoint config).steps es₀
  have hom : Orderly m := (ho.steps [.call .disconnect]).steps es
  have hoq : Orderly q := hom.steps [e]
  have h : Returns s p.nextCall es e := returns_of_result ho hm hr
  have hslot : q.slot = none := h.slot hom.guarded
  have vacant : ∀ l, ¬ q.Attached l := (h.idle hom.guarded).vacant hslot
  refine ⟨?_, hslot, fun l li hl hv => vacant l (hoq.guarded.attached_of_live hl hv), fun hc l li hl => ?_, ?_⟩
  · exact Phase.done.inj (Option.some.inj ((phaseOf_of_result hr).symm.trans h.done))
  · have hq : (new endpoint config).steps (es₀ ++ .call .disconnect :: (es ++ [e])) = q := by
      simp only [Provider.steps, List.foldl_append, List.foldl_cons]
      rfl
    by_contra hf
    have := attached_run hc l li (hq ▸ hl) (Bool.eq_false_iff.mpr hf)
    exact vacant l (hq ▸ this)
  · cases h with
    | misses _ hs _ _ hu => exact Or.inr ⟨hs, hu⟩
    | dissolves _ hf _ hd he =>
      have hleft := hd.nothingLeft hom.ledger hoq.ledger
      exact Or.inl ⟨_, _, hf, hleft, hleft.epoch.trans (by rw [he])⟩

def pendingRequest : List Event :=
  [.call .connect, .turn 0, .opened 0 (.ok ()), .listen 0, .listen 0,
    .call (.send { method := "a", params := [], id := .number 1 }), .turn 1, .sink 1 (.accept 1000),
    .sink 1 .flushed]

def partingRun : List Event :=
  [.turn 2, .arrive 0 (.ok (some (Utf8.ofText "\x7b\"id\":7\x7d"))), .closed 2, .listen 0]

theorem disconnect_ends_request :
    let s := ((new here {}).steps pendingRequest).step (.call .disconnect)
    let m := s.steps partingRun
    let q := m.step (.turn 2)
    m.result? 2 = none ∧ q.result? 2 = some (.ok .nothing) ∧ m.correlator.parked.size = 1 ∧
      Completes (new here {}) (pendingRequest ++ .call .disconnect :: (partingRun ++ [.turn 2])) ∧
      q.slot = none ∧ (∀ l li, q.listeners.get? l = some li → li.isFinished = true) ∧ NothingLeft m q ∧
      (q.turn 1).result? 1 = some (.error .connectionClosed) := by
  intro s m q
  have hm : m.result? 2 = none := by decide +kernel
  have hr : q.result? 2 = some (.ok .nothing) := by decide +kernel
  have hc : Completes (new here {}) (pendingRequest ++ .call .disconnect :: (partingRun ++ [.turn 2])) := by
    decide +kernel
  obtain ⟨-, hs, -, hl, ⟨ds, conn, -, hd, -⟩ | ⟨hn, hu⟩⟩ :=
    disconnect_leaves_nothing here {} pendingRequest partingRun (.turn 2) _ hm hr
  · exact ⟨hm, hr, by decide +kernel, hc, hs, hl hc, hd, by decide +kernel⟩
  -- the first turn of the call takes the connection out
  · have hslot : (s.steps [.turn 2]).slot = s.slot := (hu [] (.turn 2) ⟨_, rfl⟩ rfl).slot
    exact absurd hslot (by decide +kernel)

end SocketRpc.Provider
