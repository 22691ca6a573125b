import SocketRpc.Proofs.Provider.Subscriptions

/-!
What is left behind where there is no connection and none is on its way: no response, no notification, but a
queue for each subscription that a call took up after the clearance.
-/

namespace SocketRpc.Provider

variable {F : Failure → Prop} {a : Option CallId} {p q m : Provider} {c : CallId} {l : ListenerId}
  {e : Event} {es : List Event} {s : SubscriptionId} {b : Bool}

def Switches (p : Provider) (e : Event) (s : SubscriptionId) (b : Bool) : Prop :=
  ∃ ns c call y r, (p.step e).notes = p.notes ++ ns ∧ .settled c y (.ok r) ∈ ns ∧
    p.calls.get? c = some call ∧ call.op.turns? r = some (s, b)

inductive Subscribed (p : Provider) (s : SubscriptionId) : List Event → Prop where
  | begin {es : List Event} {e : Event} (h : (p.steps es).Switches e s true) : Subscribed p s (es ++ [e])
  | stay {es : List Event} {e : Event} (h : Subscribed p s es)
      (he : (p.steps (es ++ [e])).correlator.epoch = (p.steps es).correlator.epoch)
      (hn : ¬ (p.steps es).Switches e s false) : Subscribed p s (es ++ [e])

lemma Subscribed.ne_nil (h : Subscribed p s es) : es ≠ [] := by
  cases h <;> simp

lemma Subscribed.of_snoc {fs : List Event} (h : Subscribed p s fs) (hl : fs = es ++ [e]) :
    (p.steps es).Switches e s true ∨
      Subscribed p s es ∧ (p.steps (es ++ [e])).correlator.epoch = (p.steps es).correlator.epoch ∧
        ¬ (p.steps es).Switches e s false := by
  cases h with
  | begin hs =>
    obtain ⟨rfl, hx⟩ := List.append_inj' hl rfl
    cases hx
    exact Or.inl hs
  | stay hs he hn =>
    obtain ⟨rfl, hx⟩ := List.append_inj' hl rfl
    cases hx
    exact Or.inr ⟨hs, he, hn⟩

lemma subscribed_snoc : Subscribed p s (es ++ [e]) ↔ (p.steps es).Switches e s true ∨
    Subscribed p s es ∧ (p.steps (es ++ [e])).correlator.epoch = (p.steps es).correlator.epoch ∧
      ¬ (p.steps es).Switches e s false :=
  ⟨fun h => h.of_snoc rfl, fun h => h.elim .begin fun ⟨h, he, hn⟩ => .stay h he hn⟩

lemma Untaken.not_switches (h : Untaken p (p.step e)) : ¬ p.Switches e s b := by
  rintro ⟨ms, c, call, y, r, hm, hx, -⟩
  obtain ⟨ns, hn, hq⟩ := h
  have hx := hq _ (List.append_cancel_left (hm.symm.trans hn) ▸ hx)
  cases hx

lemma Turns.switches_iff {call : Call} {r : Response} (h : Turns p c call.op r (p.step e))
    (hc : p.calls.get? c = some call) : p.Switches e s b ↔ call.op.turns? r = some (s, b) := by
  obtain ⟨ns, y, hn, hm, hx⟩ := h.notes
  refine ⟨?_, fun ht => ⟨ns, c, call, y, r, hn, hm, hc, ht⟩⟩
  rintro ⟨ms, c', call', y', r', hms, hm', hc', ht⟩
  cases hx _ (List.append_cancel_left (hms.symm.trans hn) ▸ hm') _ rfl
  cases hc.symm.trans hc'
  exact ht

lemma turned_iff {op : Operation} {r : Response} {kept : Bool} : op.turned r s kept = true ↔
    op.turns? r = some (s, true) ∨ kept = true ∧ op.turns? r ≠ some (s, false) := by
  rw [Operation.turned]
  split
  · rename_i i b h
    by_cases hi : i = s <;> cases b <;> simp [hi, h]
  · rename_i h
    simp [h]

lemma Effect.serves_iff (h : Effect p (p.step e)) (hr : ∀ l, ¬ p.Reads l)
    (he : (p.step e).correlator.epoch = p.correlator.epoch) : (p.step e).correlator.serves s = true ↔
      p.Switches e s true ∨ p.correlator.serves s = true ∧ ¬ p.Switches e s false := by
  cases h with
  | steady h => simp [h.serves, h.notes.not_switches]
  | turned hc h => rw [h.serves, h.switches_iff hc, h.switches_iff hc, turned_iff]
  | heard hr' => exact absurd hr' (hr _)
  | cleared h => exact absurd (h.epoch.symm.trans he) (Nat.succ_ne_self _)

lemma Effect.clears (h : Effect p q) (he : q.correlator.epoch ≠ p.correlator.epoch) : Clears p q := by
  cases h with
  | steady h => exact absurd h.epoch he
  | turned _ h => exact absurd h.epoch he
  | heard _ h => exact absurd h.epoch he
  | cleared h => exact h

structure Bare (p : Provider) : Prop where
  parked : ∀ k, p.correlator.parked.get? k = none
  queue : ∀ s, p.correlator.queue s = []

lemma entries_parked (hs : Entries F (some c) p q) (k : CacheKey)
    (hk : p.correlator.parked.get? k = none) : q.correlator.parked.get? k = none := by
  have parked : ∀ {k j : Correlator}, k.claims = j.claims → k.parked = j.parked := fun h =>
    (Correlator.fields_of_claims h).2.1
  have registered : ∀ {k j : Correlator} {id t} {i : CacheKey}, k.register id = (.ok t, j) →
      k.parked.get? i = none → j.parked.get? i = none := fun hr hk => by
    refine Option.eq_none_iff_forall_ne_some.mpr fun x hx => ?_
    cases hk.symm.trans (((Correlator.register_ok hr).parked _ x).mp hx).1
  induction hs with
  | refl => exact hk
  | tail _ he ih =>
    cases he with
    | keep h => rwa [parked h.claims]
    | claim ha f hp hr hc =>
      rw [parked hc]
      exact registered hr ih
    | reclaim ha f hp hm hr hc =>
      rw [parked hc]
      exact (registered hr ih :)
    | withdraw ha f hn hp hc =>
      rcases hc.parked with h | h
      · rwa [h]
      · rw [h]
        rfl
    | part ha f hn hp hc | settle ha f hp ho hc => rwa [parked hc]
    | pop ha | deposit ha => cases ha

lemma calm_outside (hr : ∀ l, ¬ p.Reads l) (hm : Calm F p none q) : q.calls = p.calls ∧
    q.correlator.mail = p.correlator.mail ∧
      ∀ k, p.correlator.parked.get? k = none → q.correlator.parked.get? k = none := by
  cases hm with
  | take i =>
    obtain ⟨-, hp, -, hm, -⟩ := Correlator.fields_of_claims (p.correlator.claims_popSubscription i)
    exact ⟨rfl, hm, fun k hk => hp ▸ hk⟩
  | pop j =>
    have hc : (p.correlator.pop j).2.mail = p.correlator.mail ∧
        ∀ k, p.correlator.parked.get? k = none → (p.correlator.pop j).2.parked.get? k = none := by
      rw [Correlator.pop]
      split
      · exact ⟨rfl, fun k hk => by simp [hk]⟩
      · exact ⟨rfl, fun _ hk => hk⟩
    exact ⟨rfl, hc⟩
  | deposit h => exact absurd h (hr _)
  | elapse | work | retire => exact ⟨rfl, rfl, fun _ hk => hk⟩
  | resume =>
    unfold resume
    dsimp only
    split <;> exact ⟨rfl, rfl, fun _ hk => hk⟩

lemma calm_parked (hr : ∀ l, ¬ p.Reads l) (hm : Calm F p a q) (k : CacheKey)
    (hk : p.correlator.parked.get? k = none) : q.correlator.parked.get? k = none := by
  cases a with
  | none => exact (calm_outside hr hm).2.2 k hk
  | some c => exact entries_parked (calm_entries hm) k hk

lemma Bare.calm (h : Bare p) (ho : Orderly p) (hr : ∀ l, ¬ p.Reads l) (hm : Calm F p a q) : Bare q where
  parked k := calm_parked hr hm k (h.parked k)
  queue s := by
    have rest : ∀ {m : Provider}, Rests m q → m.correlator = p.correlator → q.correlator.queue s = [] :=
      fun hm he => List.suffix_nil.mp (h.queue s ▸ he ▸ hm.queues s)
    cases calm_passage ho.suited hm with
    | rest hm => exact rest hm rfl
    | takeOut _ _ hm => exact rest hm rfl
    | connect _ _ hm => exact rest hm rfl
    | deposit _ h => exact absurd h (hr _)
    | read _ _ _ hk =>
      obtain ⟨vs, hv, -⟩ := popSubscription_some hk
      cases (h.queue _).symm.trans hv

lemma bare_clear (h : q.correlator = p.correlator.clear) : Bare q := by
  constructor <;> intro <;> rw [h] <;> rfl

lemma bare_run {endpoint : Endpoint} {config : Config} (hc : Completes (new endpoint config) es)
    (hv : ∀ l, ¬ ((new endpoint config).steps es).Attached l) : Bare ((new endpoint config).steps es) := by
  refine invariant_of_spared (I := fun p => (∀ l, ¬ p.Attached l) → Bare p) (fun p a q ho h hm => ?_)
    (fun p q ho h hu hv => ?_) (fun _ => rfl) (orderly_new endpoint config) ?_ hc.spares hv
  · by_cases hv : ∃ l, p.Attached l
    · obtain ⟨l, hl⟩ := hv
      exact (attached_calm ho hm hl).imp (fun hq hv => absurd hq (hv l)) Strands.severs
    · have hv := not_exists.mp hv
      exact Or.inl fun _ => (h hv).calm ho (fun l hr => hv l (ho.guarded.attached_of_reads hr)) hm
  · rcases upheaval_clears hu with hq | ⟨hcalls, hs, hf, hp⟩
    · exact bare_clear hq
    · have h := h fun l hl => hv l ((attached_same hcalls hs).mpr hl)
      have hqueues : q.correlator.queues = p.correlator.queues := congrArg Prod.fst hf
      refine ⟨fun k => hp ▸ h.parked k, fun s => ?_⟩
      rw [Correlator.queue, hqueues]
      exact h.queue s
  · exact fun _ => ⟨fun _ => rfl, fun _ => rfl⟩

lemma attached_step (ho : Orderly p) (hl : p.Attached l) (hc : ∀ c, e = .drop c → p.connecting c = false)
    (he : (p.step e).correlator.epoch = p.correlator.epoch) : (p.step e).Attached l := by
  have h : p.correlator.epoch ≤ (p.step e).correlator.epoch ∧
      ((p.step e).correlator.epoch = p.correlator.epoch → (p.step e).Attached l) := by
    refine kept_step (I := fun m => p.correlator.epoch ≤ m.correlator.epoch ∧
        (m.correlator.epoch = p.correlator.epoch → m.Attached l))
      (fun m q ho h hm => ?_) (fun m q ho h hu => ?_) (fun _ => rfl) ho ⟨Nat.le_refl _, fun _ => hl⟩
      (show ∀ c, e = .drop c → p.inside Phase.connects c = false from hc)
    · rw [epoch_calm hm]
      by_cases hm' : m.correlator.epoch = p.correlator.epoch
      · exact (attached_calm ho hm (h.2 hm')).imp (fun hq => ⟨h.1, fun _ => hq⟩) Strands.severs
      · exact Or.inl ⟨h.1, fun he => absurd he hm'⟩
    · rcases upheaval_clears hu with hq | ⟨hcalls, hs, hf, -⟩
      · rw [hq]
        exact ⟨Nat.le_succ_of_le h.1, fun he => absurd (he ▸ h.1) (Nat.not_succ_le_self _)⟩
      · rw [Correlator.epoch_of_feeds hf, attached_same hcalls hs]
        exact h
  exact h.2 he

lemma serves_run {endpoint : Endpoint} {config : Config} (hc : Completes (new endpoint config) es)
    (hv : ∀ l, ¬ ((new endpoint config).steps es).Attached l) :
    ((new endpoint config).steps es).correlator.serves s = true ↔ Subscribed (new endpoint config) s es := by
  induction es using List.reverseRecOn with
  | nil =>
    exact iff_of_false nofun fun h => h.ne_nil rfl
  | append_singleton es e ih =>
    obtain ⟨hes, he, -⟩ := Completes.append.mp hc
    have ho : Orderly ((new endpoint config).steps es) := (orderly_new endpoint config).steps es
    have effect := step_effect ho.ledger e
    rw [steps_snoc] at hv
    rw [subscribed_snoc, steps_snoc]
    by_cases hepoch : (((new endpoint config).steps es).step e).correlator.epoch =
        ((new endpoint config).steps es).correlator.epoch
    · have hv' : ∀ l, ¬ ((new endpoint config).steps es).Attached l := fun l hl =>
        hv l (attached_step ho hl he hepoch)
      rw [effect.serves_iff (fun l hr => hv' l (ho.guarded.attached_of_reads hr)) hepoch, ih hes hv']
      simp [hepoch]
    · have h := effect.clears hepoch
      simp [h.serves, hepoch, h.notes.not_switches]

/-- Where there is no connection and no call works on one, no response is parked and no notification waits to
be read, and the subscriptions that still have a queue are those that were begun since the last clearance and
not ended. -/
theorem left_without_connection {endpoint : Endpoint} {config : Config} {es : List Event}
    (hc : Completes (new endpoint config) es) (hs : ((new endpoint config).steps es).slot = none)
    (hl : ((new endpoint config).steps es).lock.holder = none) :
    let k := ((new endpoint config).steps es).correlator
    k.parked = {} ∧ ∀ s, k.queue s = [] ∧
      ((k.queues.get? s).isSome = true ↔ Subscribed (new endpoint config) s es) := by
  have hv := ((guarded_steps endpoint config es).2.idle hl).vacant hs
  have bare := bare_run hc hv
  exact ⟨Table.eq_empty bare.parked, fun s => ⟨bare.queue s, serves_run hc hv⟩⟩

/-- A subscription is taken up after the connection on which it was begun is cleared. -/
def leftBehind : List Event :=
  [.call .connect, .turn 0, .opened 0 (.ok ()), .listen 0, .listen 0,
    .call (.subscribe "newHeads" []), .turn 1, .sink 1 (.accept 1000), .sink 1 .flushed,
    .call .disconnect,
    .arrive 0 (.ok (some (Utf8.ofText "\x7b\"id\":1,\"result\":\"0x1\"\x7d"))),
    .turn 2, .closed 2, .listen 0, .turn 2, .turn 1]

/-- The queue of that subscription stays. -/
theorem queue_left_behind :
    let p := (new here {}).steps leftBehind
    Completes (new here {}) leftBehind ∧ p.slot = none ∧ p.lock.holder = none ∧
      p.correlator.queues.get? ⟨"0x1"⟩ = some [] := by
  decide +kernel

theorem left_behind_subscribed :
    let p := (new here {}).steps leftBehind
    Completes (new here {}) leftBehind ∧ p.slot = none ∧ p.lock.holder = none ∧ p.correlator.parked = {} ∧
      (∀ s, p.correlator.queue s = [] ∧
        ((p.correlator.queues.get? s).isSome = true ↔ Subscribed (new here {}) s leftBehind)) ∧
      Subscribed (new here {}) ⟨"0x1"⟩ leftBehind := by
  have hc : Completes (new here {}) leftBehind := by decide +kernel
  have hs : ((new here {}).steps leftBehind).slot = none := by decide +kernel
  have hl : ((new here {}).steps leftBehind).lock.holder = none := by decide +kernel
  obtain ⟨hp, hq⟩ := left_without_connection hc hs hl
  exact ⟨hc, hs, hl, hp, hq, (hq ⟨"0x1"⟩).2.mp (by decide +kernel)⟩

end SocketRpc.Provider
