import SocketRpc.Proofs.Correlator.Claims
import Mathlib.Data.List.DropRight

/-! The pushes of a subscription come out of its queue in their order, each once. -/

namespace SocketRpc.Correlator

variable {log : List Entry} {c d : Correlator} {e : Entry} {s : SubscriptionId} {v : Json.Value}

namespace Entry

def pushes (s : SubscriptionId) : Entry → Option Json.Value
  | .deposited v true (.ok _) =>
    match Notification.ofValue v with
    | .ok n => if n.params.subscription = s then some n.params.result else none
    | .error _ => none
  | _ => none

def yields (s : SubscriptionId) : Entry → Option Json.Value
  | .taken i (some v) | .read _ i (some (.ok v)) => if i = s then some v else none
  | _ => none

def empties (s : SubscriptionId) : Entry → Bool
  | .did .clear => true
  | .removed i _ => i = s
  | _ => false

def returns (s : SubscriptionId) : Entry → List Json.Value
  | .removed i vs => if i = s then vs else []
  | e => (e.yields s).toList

end Entry

inductive Turns (c d : Correlator) (s : SubscriptionId) (e : Entry) : Prop where
  | keeps (h : d.queue s = c.queue s) (he : e.empties s = false)
      (hp : e.pushes s = none) (hy : e.yields s = none)
  | pushes (v : Json.Value) (h : d.queue s = c.queue s ++ [v]) (he : e.empties s = false)
      (hp : e.pushes s = some v) (hy : e.yields s = none)
  | yields (v : Json.Value) (h : c.queue s = v :: d.queue s) (he : e.empties s = false)
      (hp : e.pushes s = none) (hy : e.yields s = some v)
  | clears (h : d.queue s = []) (he : e = .did .clear)
  | removes (h : d.queue s = []) (he : e = .removed s (c.queue s))

lemma Turns.suffix (ht : Turns c d s e) (hp : e.pushes s = none) : d.queue s <:+ c.queue s := by
  cases ht with
  | keeps h => exact h ▸ List.suffix_rfl
  | pushes v _ _ hv _ => cases hp.symm.trans hv
  | yields v h => exact h ▸ List.suffix_cons v _
  | clears h | removes h => exact h ▸ List.nil_suffix

def subscriptions (c : Correlator) : Correlator :=
  { queues := c.queues, fault := c.fault, peerClosed := c.peerClosed, epoch := c.epoch }

lemma subscriptions_dismiss (c : Correlator) : c.dismiss.subscriptions = c.subscriptions := by
  obtain ⟨mail, he, -⟩ := foldl_closeTicket c c.waiting.values
  rw [dismiss, he]
  rfl

lemma subscriptions_depositResponse (c : Correlator) (r : Response) :
    (c.depositResponse r).2.subscriptions = c.subscriptions := by
  rw [depositResponse]
  split
  · rfl
  · split
    · split <;> rfl
    · rfl
    · rfl

lemma subscriptions_pop (c : Correlator) (k : CacheKey) : (c.pop k).2.subscriptions = c.subscriptions := by
  rw [pop]
  split <;> rfl

lemma subscriptions_register (c : Correlator) (id : RequestId) :
    (c.register id).2.subscriptions = c.subscriptions := by
  simp only [register]
  split
  · rfl
  · split <;> rfl

lemma subscriptions_receive (c : Correlator) (t : Ticket) :
    (c.receive t).2.subscriptions = c.subscriptions := by
  rw [receive]
  split <;> rfl

lemma subscriptions_forget (c : Correlator) (id : RequestId) :
    (c.forget id).subscriptions = c.subscriptions := by
  rw [forget]
  split <;> rfl

lemma subscriptions_abandon (c : Correlator) (id : RequestId) :
    (c.abandon id).subscriptions = c.subscriptions := by
  rw [abandon]
  split <;> rfl

def feeds (c : Correlator) : Table SubscriptionId (List Json.Value) × Nat := (c.queues, c.epoch)

lemma feeds_of_subscriptions (h : d.subscriptions = c.subscriptions) : d.feeds = c.feeds := by
  show d.subscriptions.feeds = c.subscriptions.feeds
  rw [h]

lemma feeds_dismiss (c : Correlator) : c.dismiss.feeds = c.feeds :=
  feeds_of_subscriptions c.subscriptions_dismiss

lemma feeds_depositResponse (c : Correlator) (r : Response) : (c.depositResponse r).2.feeds = c.feeds :=
  feeds_of_subscriptions (c.subscriptions_depositResponse r)

lemma feeds_pop (c : Correlator) (k : CacheKey) : (c.pop k).2.feeds = c.feeds :=
  feeds_of_subscriptions (c.subscriptions_pop k)

lemma feeds_register (c : Correlator) (id : RequestId) : (c.register id).2.feeds = c.feeds :=
  feeds_of_subscriptions (c.subscriptions_register id)

lemma feeds_receive (c : Correlator) (t : Ticket) : (c.receive t).2.feeds = c.feeds :=
  feeds_of_subscriptions (c.subscriptions_receive t)

lemma feeds_forget (c : Correlator) (id : RequestId) : (c.forget id).feeds = c.feeds :=
  feeds_of_subscriptions (c.subscriptions_forget id)

lemma feeds_abandon (c : Correlator) (id : RequestId) : (c.abandon id).feeds = c.feeds :=
  feeds_of_subscriptions (c.subscriptions_abandon id)

lemma queue_of_feeds (h : d.feeds = c.feeds) (s : SubscriptionId) : d.queue s = c.queue s := by
  rw [queue, queue, (Prod.mk.inj h).1]

lemma queue_set (i : SubscriptionId) (vs : List Json.Value) (s : SubscriptionId) :
    { c with queues := c.queues.set i vs }.queue s = if i = s then vs else c.queue s := by
  simp only [queue, Table.get?_set]
  split <;> rfl

lemma deposit_queues (c : Correlator) (v : Json.Value) (push : Bool) :
    (∃ n, push = true ∧ Notification.ofValue v = .ok n ∧
        (c.deposit v push).1 = .ok (.queued n.params.subscription) ∧
        ∀ s, (c.deposit v push).2.queue s =
          if n.params.subscription = s then c.queue s ++ [n.params.result] else c.queue s) ∨
      (push = true → ∃ f, (c.deposit v push).1 = .error f) ∧
        ∀ s, (c.deposit v push).2.queue s = c.queue s := by
  cases push with
  | true =>
    simp only [deposit, if_true, depositPush]
    cases hn : Notification.ofValue v with
    | error m => exact Or.inr ⟨fun _ => ⟨_, rfl⟩, fun s => rfl⟩
    | ok n =>
      refine Or.inl ⟨n, trivial, rfl, rfl, fun s => ?_⟩
      dsimp only
      rw [queue_set]
      split
      · rename_i hs
        rw [hs]
      · rfl
  | false =>
    refine Or.inr ⟨fun h => absurd h Bool.false_ne_true, fun s => queue_of_feeds ?_ s⟩
    simp only [deposit, Bool.false_eq_true, if_false]
    split
    · rfl
    · split
      · rfl
      · exact feeds_depositResponse c _

lemma deposit_turns (c : Correlator) (v : Json.Value) (push : Bool) (s : SubscriptionId) :
    Turns c (c.deposit v push).2 s (.deposited v push (c.deposit v push).1) := by
  rcases c.deposit_queues v push with ⟨n, rfl, hn, hr, hq⟩ | ⟨hr, hq⟩
  · rw [hr]
    by_cases hs : n.params.subscription = s
    · exact .pushes n.params.result ((hq s).trans (if_pos hs)) rfl (by simp [Entry.pushes, hn, hs]) rfl
    · exact .keeps ((hq s).trans (if_neg hs)) rfl (by simp [Entry.pushes, hn, hs]) rfl
  · refine .keeps (hq s) rfl ?_ rfl
    cases push with
    | true =>
      obtain ⟨f, hf⟩ := hr rfl
      rw [hf]
      rfl
    | false => rfl

lemma popSubscription_turns (c : Correlator) (i s : SubscriptionId) :
    Turns c (c.popSubscription i).2 s (.taken i (c.popSubscription i).1) := by
  rw [popSubscription]
  split
  · rename_i v rest hq
    by_cases hs : i = s
    · subst hs
      refine .yields v ?_ rfl rfl (by simp [Entry.yields])
      dsimp only
      rw [queue_set, if_pos rfl, hq]
    · refine .keeps ?_ rfl rfl (by simp [Entry.yields, hs])
      dsimp only
      rw [queue_set, if_neg hs]
  · exact .keeps rfl rfl rfl rfl

lemma openSubscription_turns (c : Correlator) (i s : SubscriptionId) :
    Turns c (c.openSubscription i) s (.did (.openSubscription i)) := by
  refine .keeps ?_ rfl rfl rfl
  rw [openSubscription]
  split
  · rfl
  · rename_i hq
    rw [queue_set]
    split
    · rw [queue, ← ‹i = s›, hq]
      rfl
    · rfl

lemma removeSubscription_turns (c : Correlator) (i s : SubscriptionId) :
    Turns c (c.removeSubscription i).2 s (.removed i (c.removeSubscription i).1) := by
  by_cases hs : i = s
  · subst hs
    refine .removes ?_ rfl
    simp [removeSubscription, queue]
  · refine .keeps ?_ (by simp [Entry.empties, hs]) rfl rfl
    simp [removeSubscription, queue, hs]

lemma nextNotification_cases (c : Correlator) (i : SubscriptionId) (epoch : Nat) :
    (∃ v, c.popSubscription i = (some v, (c.nextNotification i epoch).2) ∧
        (c.nextNotification i epoch).1 = some (.ok v)) ∨
      (c.nextNotification i epoch).2 = c ∧ ∀ v, (c.nextNotification i epoch).1 ≠ some (.ok v) := by
  unfold nextNotification
  split
  · exact Or.inr ⟨rfl, nofun⟩
  · split
    · exact Or.inl ⟨_, ‹_›, rfl⟩
    · refine Or.inr ?_
      split
      · exact ⟨rfl, nofun⟩
      · split
        · exact ⟨rfl, nofun⟩
        · exact ⟨rfl, nofun⟩

lemma nextNotification_turns (c : Correlator) (i : SubscriptionId) (epoch : Nat) (n : ReaderId)
    (s : SubscriptionId) :
    Turns c (c.nextNotification i epoch).2 s (.read n i (c.nextNotification i epoch).1) := by
  rcases c.nextNotification_cases i epoch with ⟨v, hp, hr⟩ | ⟨hc, hr⟩
  · have h := c.popSubscription_turns i s
    rw [hp] at h
    rw [hr]
    cases h with
    | keeps h _ _ hy => exact .keeps h rfl rfl hy
    | pushes v _ _ hp _ => cases hp
    | yields v h _ _ hy => exact .yields v h rfl rfl hy
    | clears _ he => cases he
    | removes _ he => cases he
  · rw [hc]
    refine .keeps rfl rfl rfl ?_
    rcases h : (c.nextNotification i epoch).1 with _ | f | v
    · rfl
    · rfl
    · exact absurd h (hr v)

lemma look_turns (x : Exchange) (n : ReaderId) (rd : Reader) (s : SubscriptionId) :
    Turns x.correlator (x.look n rd).correlator s
      (.read n rd.subscription (x.correlator.nextNotification rd.subscription rd.epoch).1) := by
  have h := x.correlator.nextNotification_turns rd.subscription rd.epoch n s
  rw [Exchange.look]
  split <;> rename_i hn <;> rw [hn] at h ⊢ <;> exact h

theorem step_turns (x : Exchange) (o : Op) :
    ∃ e, (x.step o).log = x.log ++ [e] ∧ ∀ s, Turns x.correlator (x.step o).correlator s e := by
  have keeps : ∀ {d : Correlator} {e : Entry}, d.feeds = x.correlator.feeds →
      (∀ s, e.empties s = false) → (∀ s, e.pushes s = none) → (∀ s, e.yields s = none) →
      ∀ s, Turns x.correlator d s e :=
    fun h he hp hy s => .keeps (queue_of_feeds h s) (he s) (hp s) (hy s)
  cases o with
  | deposit v push => exact ⟨_, rfl, fun s => deposit_turns _ v push s⟩
  | pop k => exact ⟨_, rfl, keeps (feeds_pop _ k) (fun _ => rfl) (fun _ => rfl) fun _ => rfl⟩
  | register id => exact ⟨_, rfl, keeps (feeds_register _ id) (fun _ => rfl) (fun _ => rfl) fun _ => rfl⟩
  | receive t => exact ⟨_, rfl, keeps (feeds_receive _ t) (fun _ => rfl) (fun _ => rfl) fun _ => rfl⟩
  | discard t => exact ⟨_, rfl, keeps rfl (fun _ => rfl) (fun _ => rfl) fun _ => rfl⟩
  | forget id => exact ⟨_, rfl, keeps (feeds_forget _ id) (fun _ => rfl) (fun _ => rfl) fun _ => rfl⟩
  | abandon id => exact ⟨_, rfl, keeps (feeds_abandon _ id) (fun _ => rfl) (fun _ => rfl) fun _ => rfl⟩
  | clear => exact ⟨_, rfl, fun s => .clears rfl rfl⟩
  | fail reason => exact ⟨_, rfl, keeps (feeds_dismiss _) (fun _ => rfl) (fun _ => rfl) fun _ => rfl⟩
  | closeByPeer => exact ⟨_, rfl, keeps (feeds_dismiss _) (fun _ => rfl) (fun _ => rfl) fun _ => rfl⟩
  | reopen => exact ⟨_, rfl, keeps rfl (fun _ => rfl) (fun _ => rfl) fun _ => rfl⟩
  | openSubscription i => exact ⟨_, rfl, fun s => openSubscription_turns _ i s⟩
  | removeSubscription i => exact ⟨_, rfl, fun s => removeSubscription_turns _ i s⟩
  | popSubscription i => exact ⟨_, rfl, fun s => popSubscription_turns _ i s⟩
  | read i =>
    let y : Exchange := { x with nextReader := x.nextReader + 1 }
    exact ⟨_, log_look y _ _, look_turns y x.nextReader ⟨i, x.correlator.epoch⟩⟩
  | poll n =>
    rw [Exchange.step]
    split
    · exact ⟨_, log_look _ _ _, look_turns _ _ _⟩
    · exact ⟨_, rfl, keeps rfl (fun _ => rfl) (fun _ => rfl) fun _ => rfl⟩
  | quit n => exact ⟨_, rfl, keeps rfl (fun _ => rfl) (fun _ => rfl) fun _ => rfl⟩

def latest (s : SubscriptionId) (log : List Entry) : List Entry := log.rtakeWhile fun e => !e.empties s

lemma latest_snoc (log : List Entry) (he : e.empties s = false) : latest s (log ++ [e]) = latest s log ++ [e] :=
  List.rtakeWhile_concat_pos _ _ _ (by rw [he]; rfl)

lemma latest_empties (log : List Entry) (he : e.empties s) : latest s (log ++ [e]) = [] :=
  List.rtakeWhile_concat_neg _ _ _ (by rw [he]; decide)

/-- What came out of a queue and what is in it is what was put into it, in that order. -/
structure Fed (s : SubscriptionId) (log : List Entry) (c : Correlator) : Prop where
  balance : (latest s log).filterMap (Entry.yields s) ++ c.queue s = (latest s log).filterMap (Entry.pushes s)
  removed : ∀ (i : Nat) vs, log[i]? = some (.removed s vs) →
    (latest s (log.take i)).filterMap (Entry.yields s) ++ vs =
      (latest s (log.take i)).filterMap (Entry.pushes s)
  cleared : ∀ (m : Nat), log[m]? = some (.did .clear) →
    ((log.drop (m + 1)).flatMap (Entry.returns s) ++ c.queue s).Sublist
      ((log.drop (m + 1)).filterMap (Entry.pushes s))

lemma fed_new (s : SubscriptionId) : Fed s [] {} where
  balance := rfl
  removed i vs h := by cases h
  cleared m h := by cases h

lemma Fed.balances (h : Fed s log c) (ht : Turns c d s e) :
    (latest s (log ++ [e])).filterMap (Entry.yields s) ++ d.queue s =
      (latest s (log ++ [e])).filterMap (Entry.pushes s) := by
  cases ht with
  | keeps hq he hp hy =>
    rw [latest_snoc log he, hq]
    simpa [List.filterMap_append, hp, hy] using h.balance
  | pushes v hq he hp hy =>
    rw [latest_snoc log he, hq, List.filterMap_append, List.filterMap_append, ← h.balance]
    simp [hp, hy]
  | yields v hq he hp hy =>
    rw [latest_snoc log he, List.filterMap_append, List.filterMap_append, ← h.balance, hq]
    simp [hp, hy]
  | clears hq he =>
    rw [latest_empties log (by rw [he]; rfl), hq]
    rfl
  | removes hq he =>
    rw [latest_empties log (by simp [he, Entry.empties]), hq]
    rfl

lemma returns_of_yields (he : e.empties s = false) : e.returns s = (e.yields s).toList := by
  cases e with
  | removed i vs =>
    have hi : i ≠ s := by simpa [Entry.empties] using he
    simp [Entry.returns, Entry.yields, hi]
  | _ => rfl

lemma Turns.sublist {ys ps : List Json.Value} (ht : Turns c d s e) (h : (ys ++ c.queue s).Sublist ps) :
    (ys ++ e.returns s ++ d.queue s).Sublist (ps ++ (e.pushes s).toList) := by
  cases ht with
  | keeps hq he hp hy =>
    rw [returns_of_yields he, hq, hp, hy]
    simpa using h
  | pushes v hq he hp hy =>
    rw [returns_of_yields he, hq, hp, hy]
    simpa using h.append (List.Sublist.refl [v])
  | yields v hq he hp hy =>
    rw [returns_of_yields he, hp, hy]
    simpa [hq] using h
  | clears hq he =>
    subst he
    rw [hq]
    simpa [Entry.returns, Entry.yields, Entry.pushes] using (List.sublist_append_left ys _).trans h
  | removes hq he =>
    rw [hq, he]
    simpa [Entry.returns, Entry.pushes] using h

lemma Fed.turns (h : Fed s log c) (ht : Turns c d s e) : Fed s (log ++ [e]) d where
  balance := h.balances ht
  removed i vs hi := by
    rcases getElem?_snoc.mp hi with hi | ⟨rfl, he⟩
    · have hl : i < log.length := (List.getElem?_eq_some_iff.mp hi).1
      rw [List.take_append_of_le_length (Nat.le_of_lt hl)]
      exact h.removed i vs hi
    · have hv : vs = c.queue s := by
        subst he
        cases ht with
        | removes _ he =>
          cases he
          rfl
        | clears _ he => cases he
        | keeps _ he _ _ | pushes _ _ he _ _ | yields _ _ he _ _ => simp [Entry.empties] at he
      rw [List.take_left' rfl, hv]
      exact h.balance
  cleared m hm := by
    rcases getElem?_snoc.mp hm with hm | ⟨rfl, he⟩
    · have hl : m + 1 ≤ log.length := (List.getElem?_eq_some_iff.mp hm).1
      rw [List.drop_append_of_le_length hl, List.flatMap_append, List.filterMap_append]
      have hs := ht.sublist (h.cleared m hm)
      cases hp : e.pushes s <;> simpa [hp] using hs
    · have hq : d.queue s = [] := by
        subst he
        cases ht with
        | clears hq _ => exact hq
        | removes _ he => cases he
        | keeps _ he _ _ | pushes _ _ he _ _ | yields _ _ he _ _ => cases he
      -- nothing was logged since
      rw [List.drop_eq_nil_of_le (by simp), hq]
      exact List.Sublist.refl _

theorem fed_run (os : List Op) (s : SubscriptionId) :
    Fed s (Exchange.run os).log (Exchange.run os).correlator := by
  induction os using List.reverseRecOn with
  | nil => exact fed_new s
  | append_singleton os o ih =>
    obtain ⟨e, hl, ht⟩ := step_turns (Exchange.run os) o
    rw [Exchange.run_snoc, hl]
    exact ih.turns (ht s)

end SocketRpc.Correlator
