import SocketRpc.Proofs.Correlator.Clearances
import SocketRpc.Proofs.Correlator.Halves

/-! What a reader that had to wait finds when it looks again: only what has not been undone in the meantime. -/

namespace SocketRpc.Correlator

variable {c d : Correlator} {s : SubscriptionId} {v : Json.Value} {x : Exchange} {o : Op} {os : List Op}
  {n m epoch : Nat} {rd : Reader}

structure Signals where
  epoch : Nat
  fault : Option String
  peerClosed : Bool

def signals (c : Correlator) : Signals := ⟨c.epoch, c.fault, c.peerClosed⟩

def Op.signal (g : Signals) : Op → Signals
  | .clear => ⟨g.epoch + 1, none, false⟩
  | .fail reason => { g with fault := some reason }
  | .closeByPeer => { g with peerClosed := true }
  | .reopen => { g with peerClosed := false }
  | _ => g

lemma signals_of_subscriptions (h : d.subscriptions = c.subscriptions) : d.signals = c.signals := by
  show d.subscriptions.signals = c.subscriptions.signals
  rw [h]

lemma signals_deposit (c : Correlator) (v : Json.Value) (push : Bool) :
    (c.deposit v push).2.signals = c.signals := by
  cases push with
  | false => exact signals_of_subscriptions (c.subscriptions_deposit v)
  | true =>
    rw [deposit, if_pos rfl, depositPush]
    split <;> rfl

lemma signals_openSubscription (c : Correlator) (s : SubscriptionId) :
    (c.openSubscription s).signals = c.signals := by
  rw [openSubscription]
  split <;> rfl

lemma signals_popSubscription (c : Correlator) (s : SubscriptionId) :
    (c.popSubscription s).2.signals = c.signals := by
  rw [popSubscription]
  split <;> rfl

lemma signals_nextNotification (c : Correlator) (s : SubscriptionId) (epoch : Nat) :
    (c.nextNotification s epoch).2.signals = c.signals := by
  rcases c.nextNotification_cases s epoch with ⟨v, hp, -⟩ | ⟨hc, -⟩
  · rw [← signals_popSubscription c s, hp]
  · rw [hc]

lemma signals_look (x : Exchange) (n : ReaderId) (rd : Reader) :
    (x.look n rd).correlator.signals = x.correlator.signals := by
  have h := x.correlator.signals_nextNotification rd.subscription rd.epoch
  rw [Exchange.look]
  split <;> rename_i hn <;> rw [hn] at h <;> exact h

lemma step_signals (x : Exchange) (o : Op) : (x.step o).correlator.signals = o.signal x.correlator.signals := by
  cases o with
  | deposit v push => exact signals_deposit _ v push
  | pop k => exact signals_of_subscriptions (subscriptions_pop _ k)
  | register id => exact signals_of_subscriptions (subscriptions_register _ id)
  | receive t => exact signals_of_subscriptions (subscriptions_receive _ t)
  | forget id => exact signals_of_subscriptions (subscriptions_forget _ id)
  | abandon id => exact signals_of_subscriptions (subscriptions_abandon _ id)
  | fail reason => exact congrArg (Op.signal · (.fail reason)) (signals_of_subscriptions (subscriptions_dismiss _))
  | closeByPeer => exact congrArg (Op.signal · .closeByPeer) (signals_of_subscriptions (subscriptions_dismiss _))
  | clear | discard _ | reopen | removeSubscription _ | quit _ => rfl
  | openSubscription s => exact signals_openSubscription _ s
  | popSubscription s => exact signals_popSubscription _ s
  | read s => exact signals_look _ _ _
  | poll n =>
    rw [Exchange.step]
    split
    · exact signals_look _ _ _
    · rfl

def Reopened (os : List Op) : Prop := ∀ before after, os = before ++ .closeByPeer :: after → .reopen ∈ after

lemma reopened_snoc : Reopened (os ++ [o]) ↔ o = .reopen ∨ o ≠ .closeByPeer ∧ Reopened os := by
  constructor
  · intro h
    by_cases ho : o = .reopen
    · exact Or.inl ho
    · refine Or.inr ⟨?_, fun a b hab => ?_⟩
      · rintro rfl
        cases h os [] rfl
      · have hm := h a (b ++ [o]) (by rw [hab, List.append_assoc, List.cons_append])
        exact (List.mem_append.mp hm).resolve_right fun hm => ho (List.mem_singleton.mp hm).symm
  · intro h a b hab
    -- the close is the last of all, or what follows it ends with the last
    rcases List.eq_nil_or_concat b with rfl | ⟨b, p, rfl⟩
    · obtain ⟨-, he⟩ := List.append_inj' hab rfl
      obtain rfl := List.singleton_inj.mp he
      rcases h with he | ⟨he, -⟩
      · cases he
      · exact absurd rfl he
    · rw [List.concat_eq_append, ← List.cons_append, ← List.append_assoc] at hab
      obtain ⟨hos, he⟩ := List.append_inj' hab rfl
      obtain rfl := List.singleton_inj.mp he
      rw [List.concat_eq_append, List.mem_append]
      rcases h with rfl | ⟨-, h⟩
      · exact Or.inr List.mem_cons_self
      · exact Or.inl (h a b hos)

def LastFault (os : List Op) (reason : String) : Prop :=
  ∃ before after, os = before ++ .fail reason :: after ∧ ∀ other, .fail other ∉ after

lemma LastFault.snoc {reason : String} (h : LastFault os reason) (ho : ∀ other, o ≠ .fail other) :
    LastFault (os ++ [o]) reason := by
  obtain ⟨a, b, rfl, hb⟩ := h
  refine ⟨a, b ++ [o], by rw [List.append_assoc, List.cons_append], fun other hm => ?_⟩
  rcases List.mem_append.mp hm with hm | hm
  · exact hb other hm
  · exact ho other (List.mem_singleton.mp hm).symm

structure Told (g : Signals) (epoch : Nat) (os : List Op) : Prop where
  past : epoch ≤ g.epoch
  cleared : g.epoch = epoch ↔ .clear ∉ os
  failed : .clear ∉ os → ∀ reason, g.fault = some reason → LastFault os reason
  sound : .clear ∉ os → g.fault = none → ∀ reason, .fail reason ∉ os
  closed : .clear ∉ os → (g.peerClosed = false ↔ Reopened os)

lemma told_nil (epoch : Nat) : Told ⟨epoch, none, false⟩ epoch [] where
  past := Nat.le_refl _
  cleared := by simp
  failed _ reason h := by cases h
  sound _ _ reason h := by cases h
  closed _ := by simp [Reopened]

lemma signal_epoch (g : Signals) (o : Op) :
    o = .clear ∧ (o.signal g).epoch = g.epoch + 1 ∨ o ≠ .clear ∧ (o.signal g).epoch = g.epoch := by
  cases o <;> simp [Op.signal]

lemma signal_fault (g : Signals) (ho : o ≠ .clear) :
    (∃ reason, o = .fail reason ∧ (o.signal g).fault = some reason) ∨
      (∀ reason, o ≠ .fail reason) ∧ (o.signal g).fault = g.fault := by
  cases o <;> simp_all [Op.signal]

lemma signal_peerClosed (g : Signals) (ho : o ≠ .clear) :
    (o.signal g).peerClosed = false ↔ o = .reopen ∨ o ≠ .closeByPeer ∧ g.peerClosed = false := by
  cases o <;> simp_all [Op.signal]

lemma Told.snoc {g : Signals} (h : Told g epoch os) (o : Op) : Told (o.signal g) epoch (os ++ [o]) := by
  have clear_mem : .clear ∉ os ++ [o] ↔ .clear ∉ os ∧ o ≠ .clear := by
    rw [List.mem_append, List.mem_singleton, not_or, ne_comm]
  have fail_mem : ∀ {reason}, .fail reason ∈ os ++ [o] → .fail reason ∈ os ∨ o = .fail reason := fun hm =>
    (List.mem_append.mp hm).imp_right fun hm => (List.mem_singleton.mp hm).symm
  refine ⟨?_, ?_, fun hc reason hf => ?_, fun hc hf reason hm => ?_, fun hc => ?_⟩
  · have hp := h.past
    rcases signal_epoch g o with ⟨-, he⟩ | ⟨-, he⟩ <;> omega
  · rw [clear_mem, ← h.cleared]
    have hp := h.past
    rcases signal_epoch g o with ⟨rfl, he⟩ | ⟨ho, he⟩
    · simp only [ne_eq, not_true_eq_false, and_false, iff_false]
      omega
    · rw [he]
      exact ⟨fun he => ⟨he, ho⟩, And.left⟩
  · obtain ⟨hc, ho⟩ := clear_mem.mp hc
    rcases signal_fault g ho with ⟨q, rfl, hq⟩ | ⟨hn, hq⟩
    · obtain rfl : q = reason := Option.some.inj (hq.symm.trans hf)
      exact ⟨os, [], rfl, by simp⟩
    · exact (h.failed hc reason (hq ▸ hf)).snoc hn
  · obtain ⟨hc, ho⟩ := clear_mem.mp hc
    rcases signal_fault g ho with ⟨q, rfl, hq⟩ | ⟨hn, hq⟩
    · cases hq.symm.trans hf
    · rcases fail_mem hm with hm | he
      · exact h.sound hc (hq ▸ hf) reason hm
      · exact hn reason he
  · obtain ⟨hc, ho⟩ := clear_mem.mp hc
    rw [signal_peerClosed g ho, h.closed hc, reopened_snoc]

lemma told_steps (hx : x.correlator.signals = ⟨epoch, none, false⟩) (os : List Op) :
    Told (x.steps os).correlator.signals epoch os := by
  induction os using List.reverseRecOn with
  | nil => exact hx ▸ told_nil epoch
  | append_singleton os o ih =>
    rw [Exchange.steps_append]
    exact (step_signals (x.steps os) o).symm ▸ ih.snoc o

lemma readers_look (x : Exchange) (rd : Reader) (h : m ≠ n) :
    (x.look m rd).readers.get? n = x.readers.get? n := by
  rw [Exchange.look]
  split
  · exact (Table.get?_set _ _ _ _).trans (if_neg h)
  · exact (Table.get?_erase _ _ _).trans (if_neg h)

lemma step_readers (hn : n < x.nextReader) (hp : o ≠ .poll n) (hq : o ≠ .quit n) :
    (x.step o).readers.get? n = x.readers.get? n := by
  cases o with
  | read s => exact readers_look { x with nextReader := x.nextReader + 1 } _ (Nat.ne_of_gt hn)
  | poll m =>
    rw [Exchange.step]
    split
    · exact readers_look x _ fun he => hp (congrArg Op.poll he)
    · rfl
  | quit m => exact (Table.get?_erase _ _ _).trans (if_neg fun he => hq (congrArg Op.quit he))
  | _ => rfl

lemma steps_readers (hn : n < x.nextReader) (ho : ∀ o ∈ os, o ≠ .poll n ∧ o ≠ .quit n) :
    (x.steps os).readers.get? n = x.readers.get? n := by
  induction os generalizing x with
  | nil => rfl
  | cons o os ih =>
    obtain ⟨hp, hq⟩ := ho o List.mem_cons_self
    obtain ⟨e, ha⟩ := Exchange.step_attends x o
    exact (ih (Nat.lt_of_lt_of_le hn ha.next) fun p hp => ho p (List.mem_cons_of_mem _ hp)).trans
      (step_readers hn hp hq)

inductive Finds (c : Correlator) (s : SubscriptionId) (epoch : Nat) : Option (Except Failure Json.Value) → Prop
  | cleared (h : c.epoch ≠ epoch) : Finds c s epoch (some (.error .connectionClosed))
  | next (v : Json.Value) (he : c.epoch = epoch) (h : (c.queue s).head? = some v) :
      Finds c s epoch (some (.ok v))
  | failed (reason : String) (he : c.epoch = epoch) (hq : c.queue s = []) (h : c.fault = some reason) :
      Finds c s epoch (some (.error (.listener reason)))
  | closed (he : c.epoch = epoch) (hq : c.queue s = []) (hf : c.fault = none) (h : c.peerClosed = true) :
      Finds c s epoch (some (.error .connectionClosed))
  | nothing (h : c.signals = ⟨epoch, none, false⟩) (hq : c.queue s = []) : Finds c s epoch none

lemma nextNotification_finds (c : Correlator) (s : SubscriptionId) (epoch : Nat) :
    Finds c s epoch (c.nextNotification s epoch).1 := by
  have answer : ∀ {r}, (c.nextNotification s epoch).1 = r → Finds c s epoch r →
      Finds c s epoch (c.nextNotification s epoch).1 := fun hr h => hr ▸ h
  by_cases he : c.epoch = epoch
  · rcases hq : c.queue s with _ | ⟨v, vs⟩
    · rcases hf : c.fault with _ | reason
      · rcases hc : c.peerClosed with _ | _
        · refine answer ?_ (.nothing (by rw [signals, he, hf, hc]) hq)
          simp [nextNotification, popSubscription, he, hq, hf, hc]
        · refine answer ?_ (.closed he hq hf hc)
          simp [nextNotification, popSubscription, he, hq, hf, hc]
      · refine answer ?_ (.failed reason he hq hf)
        simp [nextNotification, popSubscription, he, hq, hf]
    · refine answer ?_ (.next v he (by rw [hq]; rfl))
      simp [nextNotification, popSubscription, he, hq]
  · refine answer ?_ (.cleared he)
    rw [nextNotification, if_pos he]

inductive Meets (os : List Op) (vs : List Json.Value) : Option (Except Failure Json.Value) → Prop
  | cleared (h : .clear ∈ os) : Meets os vs (some (.error .connectionClosed))
  | next (v : Json.Value) (hc : .clear ∉ os) (h : vs.head? = some v) : Meets os vs (some (.ok v))
  | failed (reason : String) (hc : .clear ∉ os) (hq : vs = []) (h : LastFault os reason) :
      Meets os vs (some (.error (.listener reason)))
  | closed (hc : .clear ∉ os) (hq : vs = []) (hf : ∀ reason, .fail reason ∉ os) (h : ¬Reopened os) :
      Meets os vs (some (.error .connectionClosed))
  | nothing (hc : .clear ∉ os) (hq : vs = []) (hf : ∀ reason, .fail reason ∉ os) (h : Reopened os) :
      Meets os vs none

lemma Finds.meets {r : Option (Except Failure Json.Value)} (h : Finds c s epoch r) (ht : Told c.signals epoch os) :
    Meets os (c.queue s) r := by
  cases h with
  | cleared he => exact .cleared (not_not.mp (mt ht.cleared.mpr he))
  | next v he h => exact .next v (ht.cleared.mp he) h
  | failed reason he hq h =>
    have hc := ht.cleared.mp he
    exact .failed reason hc hq (ht.failed hc reason h)
  | closed he hq hf h =>
    have hc := ht.cleared.mp he
    exact .closed hc hq (ht.sound hc hf) fun ho => Bool.false_ne_true (((ht.closed hc).mpr ho).symm.trans h)
  | nothing h hq =>
    rw [h] at ht
    have hc := ht.cleared.mp rfl
    exact .nothing hc hq (ht.sound hc rfl) ((ht.closed hc).mp rfl)

lemma Meets.eq_none_iff {vs : List Json.Value} {r : Option (Except Failure Json.Value)} (h : Meets os vs r) :
    r = none ↔ .clear ∉ os ∧ (∀ reason, .fail reason ∉ os) ∧ Reopened os ∧ vs = [] := by
  cases h with
  | cleared h => simp [h]
  | next v _ h =>
    refine iff_of_false nofun fun hn => ?_
    rw [hn.2.2.2] at h
    cases h
  | failed reason _ _ h =>
    obtain ⟨a, b, rfl, -⟩ := h
    exact iff_of_false nofun fun hn => hn.2.1 reason (List.mem_append_right _ List.mem_cons_self)
  | closed _ _ _ h => exact iff_of_false nofun fun hn => h hn.2.2.1
  | nothing hc hq hf h => exact iff_of_true rfl ⟨hc, hf, h, hq⟩

structure Waits (x : Exchange) (n : ReaderId) (s : SubscriptionId) (epoch : Nat) : Prop where
  reader : x.readers.get? n = some ⟨s, epoch⟩
  silent : x.correlator.signals = ⟨epoch, none, false⟩

lemma look_waits (hl : (x.look m rd).log = x.log ++ [.read n s none]) :
    ∃ epoch, Waits (x.look m rd) n s epoch := by
  rw [log_look] at hl
  obtain ⟨rfl, rfl, hn⟩ := Entry.read.inj (List.singleton_inj.mp (List.append_cancel_left hl))
  have hf := hn ▸ x.correlator.nextNotification_finds rd.subscription rd.epoch
  refine ⟨rd.epoch, ?_, ?_⟩
  · rw [Exchange.look]
    split
    · exact (Table.get?_set _ _ _ _).trans (if_pos rfl)
    · rename_i hr
      rw [hr] at hn
      cases hn
  · rw [signals_look]
    cases hf with
    | nothing h _ => exact h

lemma step_waits (hl : (x.step o).log = x.log ++ [.read n s none]) : ∃ epoch, Waits (x.step o) n s epoch := by
  cases o with
  | read i => exact look_waits (x := { x with nextReader := x.nextReader + 1 }) hl
  | poll m =>
    rw [Exchange.step] at hl ⊢
    split at hl
    · exact look_waits hl
    · cases List.singleton_inj.mp (List.append_cancel_left hl)
  | _ => cases List.singleton_inj.mp (List.append_cancel_left hl)

lemma run_waits (h : (Exchange.run os).log.getLast? = some (.read n s none)) :
    ∃ epoch, Waits (Exchange.run os) n s epoch := by
  induction os using List.reverseRecOn with
  | nil => cases h
  | append_singleton os o _ =>
    rw [Exchange.run_snoc] at h ⊢
    obtain ⟨e, ha⟩ := Exchange.step_attends (Exchange.run os) o
    rw [ha.log, List.getLast?_concat] at h
    exact step_waits (Option.some.inj h ▸ ha.log)

/-- A reader that had to wait, however the correlator was used before and since, meets what was done since, as far as
that was not undone: only if every close by the peer was, and there was no fault and no clearance, it may have to
wait on, and then because nothing is queued for it. -/
theorem waiting_reader_meets (os os' : List Op) (hr : (Exchange.run os).log.getLast? = some (.read n s none))
    (ho : ∀ o ∈ os', o ≠ .poll n ∧ o ≠ .quit n) :
    let x := Exchange.run (os ++ os')
    ∃ r, (x.step (.poll n)).log = x.log ++ [.read n s r] ∧ Meets os' (x.correlator.queue s) r ∧
      (∀ v ∈ x.correlator.queue s, v ∈ (latest s x.log).filterMap (Entry.pushes s)) ∧
      (r = none ↔ .clear ∉ os' ∧ (∀ reason, .fail reason ∉ os') ∧ Reopened os' ∧ x.correlator.queue s = []) := by
  intro x
  have hx : x = (Exchange.run os).steps os' := Exchange.steps_append {} os os'
  obtain ⟨epoch, hw⟩ := run_waits hr
  have hn : x.readers.get? n = some ⟨s, epoch⟩ := by
    rw [hx, steps_readers ((Exchange.aware_run os).fresh n _ hw.reader) ho]
    exact hw.reader
  have ht : Told x.correlator.signals epoch os' := hx ▸ told_steps hw.silent os'
  have hm := (x.correlator.nextNotification_finds s epoch).meets ht
  refine ⟨_, ?_, hm, fun v hv => ?_, hm.eq_none_iff⟩
  · rw [Exchange.step_poll hn]
    exact log_look x n ⟨s, epoch⟩
  · rw [← (fed_run (os ++ os') s).balance]
    exact List.mem_append_right _ hv

theorem waiting_reader_meets_fault :
    let x := Exchange.run ([.read ⟨"0xd"⟩] ++ [.closeByPeer, .reopen, .fail "reset", .reopen])
    (Exchange.run [.read ⟨"0xd"⟩]).log.getLast? = some (.read 0 ⟨"0xd"⟩ none) ∧
    ∃ r, (x.step (.poll 0)).log = x.log ++ [.read 0 ⟨"0xd"⟩ r] ∧ r ≠ none := by
  intro x
  have hr : (Exchange.run [.read ⟨"0xd"⟩]).log.getLast? = some (.read 0 ⟨"0xd"⟩ none) := rfl
  obtain ⟨r, hl, -, -, hn⟩ := waiting_reader_meets [.read ⟨"0xd"⟩] [.closeByPeer, .reopen, .fail "reset", .reopen] hr
    (by simp)
  exact ⟨hr, r, hl, fun he => (hn.mp he).2.1 "reset" (by simp)⟩

/-- A close by the peer that is undone before the reader looks again has not happened for it. -/
theorem undone_close_unnoticed :
    (Exchange.run [.read ⟨"0xd"⟩]).log.getLast? = some (.read 0 ⟨"0xd"⟩ none) ∧
      (Exchange.run [.read ⟨"0xd"⟩, .closeByPeer, .reopen, .poll 0]).log.getLast? =
        some (.read 0 ⟨"0xd"⟩ none) := ⟨rfl, rfl⟩

end SocketRpc.Correlator
