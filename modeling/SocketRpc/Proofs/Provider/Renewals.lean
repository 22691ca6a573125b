import SocketRpc.Proofs.Correlator.Readers
import SocketRpc.Proofs.Provider.Farewell

/-!
Which connection is held: the one that was there before, or one begun since. The socket and the listener of the
latter have numbers of their own, and the node has not closed its end.
-/

namespace SocketRpc.Provider

variable {F : Failure → Prop} {a : Option CallId} {p q m : Provider} {c : CallId} {l : ListenerId}
  {e : Event} {es : List Event}

def binding (p : Provider) : Option Connection × ListenerId × SocketId := (p.slot, p.nextListener, p.nextSocket)

def deserted (p : Provider) : Bool := p.correlator.peerClosed

inductive Binds (p q : Provider) : Prop where
  | keep (h : q.binding = p.binding)
  | takeOut (h : q.binding = (none, p.nextListener, p.nextSocket))
  | begin (h : q.binding = (some ⟨p.nextSocket, p.nextListener⟩, p.nextListener + 1, p.nextSocket + 1))
  | renew (h : q.binding =
      (p.slot.map fun conn => { conn with writer := p.nextSocket }, p.nextListener, p.nextSocket + 1))

lemma binding_release (p : Provider) : p.release.binding = p.binding ∧ p.release.deserted = p.deserted := by
  obtain ⟨k, ns, h⟩ := release_eq p
  rw [h]
  exact ⟨rfl, rfl⟩

lemma binding_settle (p : Provider) (c : CallId) (y : Request) (r : Except Failure Response) :
    (p.settle c y r).binding = p.binding ∧ (p.settle c y r).deserted = p.deserted := by
  obtain ⟨k, x, -, hk, he⟩ := settle_eq p c y r
  rw [he]
  exact ⟨rfl, hk⟩

lemma binding_drop (p : Provider) (c : CallId) :
    (p.drop c).binding = p.binding ∧ (p.drop c).deserted = p.deserted := by
  rw [drop]
  split
  · exact ⟨rfl, rfl⟩
  · rename_i ph _
    have hg : (p.giveBack ph).binding = p.binding ∧ (p.giveBack ph).deserted = p.deserted := by
      simp only [giveBack]
      split <;> exact ⟨rfl, rfl⟩
    dsimp only [unlock]
    split
    · obtain ⟨hb, hd⟩ := binding_release { p.giveBack ph with calls := (p.giveBack ph).calls.erase c }
      exact ⟨hb.trans hg.1, hd.trans hg.2⟩
    · exact hg

lemma deserted_of_signals {k : Correlator} (h : k.signals = p.correlator.signals) : k.peerClosed = p.deserted :=
  congrArg Correlator.Signals.peerClosed h

lemma deserted_of_subscriptions {k : Correlator} (h : k.subscriptions = p.correlator.subscriptions) :
    k.peerClosed = p.deserted := deserted_of_signals (Correlator.signals_of_subscriptions h)

lemma deserted_register {k : Correlator} {id : RequestId} {r : Except Failure Ticket}
    (h : p.correlator.register id = (r, k)) : k.peerClosed = p.deserted := by
  have hk := p.correlator.subscriptions_register id
  rw [h] at hk
  exact deserted_of_subscriptions hk

lemma binding_read (p : Provider) (c : CallId) (s : SubscriptionId) (epoch : Nat) :
    (p.readNotification c s epoch).binding = p.binding ∧
      (p.readNotification c s epoch).deserted = p.deserted := by
  rw [readNotification]
  split
  · rename_i k hk
    have hs := p.correlator.signals_nextNotification s epoch
    rw [hk] at hs
    exact ⟨rfl, deserted_of_signals hs⟩
  · exact ⟨rfl, rfl⟩

lemma calm_binds (hm : Calm F p a q) : Binds p q ∧ (q.deserted = true → p.deserted = true) := by
  have keeps : q.binding = p.binding ∧ q.deserted = p.deserted →
      Binds p q ∧ (q.deserted = true → p.deserted = true) := fun h => ⟨.keep h.1, fun hd => h.2 ▸ hd⟩
  have passed : ∀ {m : Provider}, m.binding = p.binding → m.deserted = p.deserted →
      m.release.binding = p.binding ∧ m.release.deserted = p.deserted := fun {m} hb hd =>
    ⟨(binding_release m).1.trans hb, (binding_release m).2.trans hd⟩
  have settled : ∀ {m : Provider} {c y r}, m.binding = p.binding → m.deserted = p.deserted →
      (m.settle c y r).binding = p.binding ∧ (m.settle c y r).deserted = p.deserted := fun hb hd =>
    ⟨(binding_settle _ _ _ _).1.trans hb, (binding_settle _ _ _ _).2.trans hd⟩
  cases hm with
  | call | seek | collect | attempt | reset | write | letGo | pause | retry | resetClosed | progress | breakPipe
  | elapse | work | retire => exact keeps ⟨rfl, rfl⟩
  | claim _ _ hr => exact keeps ⟨rfl, deserted_register hr⟩
  | refuse _ _ hr => exact keeps (settled rfl (deserted_register hr))
  | drop => exact keeps (binding_drop p _)
  | read => exact keeps (binding_read p _ _ _)
  | take s => exact keeps ⟨rfl, deserted_of_signals (p.correlator.signals_popSubscription s)⟩
  | leave | written | yield => exact keeps (passed rfl rfl)
  | exhaust => exact keeps (passed (m := p.publish .failed) rfl rfl)
  | replace | disconnect => exact ⟨.takeOut rfl, id⟩
  | connect =>
    obtain ⟨hb, hd⟩ := binding_release ((p.takeSocket.2.spawn p.takeSocket.1).publish .connected)
    exact ⟨.begin hb, fun h => hd ▸ h⟩
  | resetOpened => exact ⟨.renew rfl, id⟩
  | hand => exact ⟨.keep rfl, nofun⟩
  | giveUp =>
    rename_i c d f _
    obtain ⟨hb, hd⟩ := binding_release p
    exact keeps (settled hb ((deserted_of_subscriptions (Correlator.subscriptions_forget _ _)).trans hd))
  | reclaim _ _ hr =>
    have hk := deserted_register hr
    exact keeps ⟨rfl, hk⟩
  | reclaimRefused _ _ hr =>
    have hk := deserted_register hr
    exact keeps (settled rfl hk)
  | receive hp hm =>
    rename_i c d started r k
    have hk := p.correlator.subscriptions_receive d.ticket
    rw [hm] at hk
    exact keeps (settled rfl (deserted_of_subscriptions hk))
  | closedOut => exact keeps (settled rfl rfl)
  | timeOut =>
    exact keeps (settled rfl (deserted_of_subscriptions (Correlator.subscriptions_abandon _ _)))
  | pop k => exact keeps ⟨rfl, deserted_of_subscriptions (p.correlator.subscriptions_pop k)⟩
  | deposit _ v =>
    obtain ⟨ns, h⟩ := p.leave_eq _ v
    refine keeps ?_
    rw [h]
    exact ⟨rfl, deserted_of_signals (p.correlator.signals_deposit v (isPush v))⟩
  | resume =>
    unfold resume
    dsimp only
    split <;> exact ⟨.keep rfl, nofun⟩

structure Past (p q : Provider) : Prop where
  listener : p.nextListener ≤ q.nextListener
  socket : p.nextSocket ≤ q.nextSocket

structure BegunSince (p q : Provider) : Prop extends Past p q where
  began : ∀ conn, q.slot = some conn → p.nextListener ≤ conn.listener ∧ p.nextSocket ≤ conn.writer

lemma Past.refl (p : Provider) : Past p p := ⟨Nat.le_refl _, Nat.le_refl _⟩

lemma Past.trans (h : Past p m) (g : Past m q) : Past p q :=
  ⟨h.listener.trans g.listener, h.socket.trans g.socket⟩

lemma Past.begunSince (h : Past p q) (hs : q.slot = none) : BegunSince p q :=
  ⟨h, fun conn hc => by cases hs.symm.trans hc⟩

lemma fields_of_binding {s : Option Connection} {i j : Nat} (h : q.binding = (s, i, j)) :
    q.slot = s ∧ q.nextListener = i ∧ q.nextSocket = j :=
  ⟨congrArg Prod.fst h, congrArg (Prod.fst ∘ Prod.snd) h, congrArg (Prod.snd ∘ Prod.snd) h⟩

lemma Binds.past (h : Binds p q) : Past p q := by
  cases h with
  | keep h | takeOut h =>
    obtain ⟨-, hl, hs⟩ := fields_of_binding h
    exact ⟨Nat.le_of_eq hl.symm, Nat.le_of_eq hs.symm⟩
  | begin h =>
    obtain ⟨-, hl, hs⟩ := fields_of_binding h
    exact ⟨hl ▸ Nat.le_succ _, hs ▸ Nat.le_succ _⟩
  | renew h =>
    obtain ⟨-, hl, hs⟩ := fields_of_binding h
    exact ⟨Nat.le_of_eq hl.symm, hs ▸ Nat.le_succ _⟩

lemma BegunSince.binds (h : BegunSince m p) (hb : Binds p q) : BegunSince m q := by
  refine ⟨h.toPast.trans hb.past, fun conn hc => ?_⟩
  cases hb with
  | keep hq => exact h.began conn ((fields_of_binding hq).1 ▸ hc)
  | takeOut hq => cases (fields_of_binding hq).1.symm.trans hc
  | begin hq =>
    cases (fields_of_binding hq).1.symm.trans hc
    exact ⟨h.listener, h.socket⟩
  | renew hq =>
    rw [(fields_of_binding hq).1] at hc
    obtain ⟨old, hold, rfl⟩ := Option.map_eq_some_iff.mp hc
    exact ⟨(h.began old hold).1, h.socket⟩

lemma upheaval_binds (hu : Upheaval p q) : Binds p q := by
  refine .keep ?_
  cases hu with
  | tear hp hf =>
    rename_i next
    cases next with
    | connect => rfl
    | disconnect => exact (binding_release _).1
  | orphan => rfl
  | fail _ hs f =>
    simp only [fault, hs]
    rfl

lemma Past.steps (p : Provider) (es : List Event) : Past p (p.steps es) :=
  invariant_of_moves (F := fun _ => True) (I := Past p) (fun _ _ _ h hm => h.trans (calm_binds hm).1.past)
    (fun _ _ h hu => h.trans (upheaval_binds hu).past) (.refl p) fun _ _ _ _ => trivial

lemma BegunSince.steps (h : BegunSince m p) (es : List Event) : BegunSince m (p.steps es) :=
  invariant_of_moves (F := fun _ => True) (I := BegunSince m) (fun _ _ _ h hm => h.binds (calm_binds hm).1)
    (fun _ _ h hu => h.binds (upheaval_binds hu)) h fun _ _ _ _ => trivial

def LetsPart (p : Provider) (e : Event) : Prop := ∀ c, e = .drop c → p.inside Phase.parting c = false

structure Whole (p : Provider) : Prop where
  orderly : Orderly p
  accounted : Accounted p
  entire : (∀ l, ¬ p.Attached l) → p.deserted = false

lemma whole_new (endpoint : Endpoint) (config : Config) : Whole (new endpoint config) :=
  ⟨orderly_new endpoint config, accounted_new endpoint config, fun _ => rfl⟩

lemma Whole.calm (h : Whole p) (hm : Calm F p a q) : Whole q ∨ Strands a p q := by
  by_cases hs : Strands a p q
  · exact Or.inr hs
  refine Or.inl ⟨h.orderly.calm hm, (h.accounted.calm h.orderly hm).resolve_right hs, fun hv => ?_⟩
  refine Bool.eq_false_iff.mpr fun hd => Bool.eq_false_iff.mp (h.entire fun l hl => ?_) ((calm_binds hm).2 hd)
  exact hv l ((attached_calm h.orderly hm hl).resolve_right hs)

lemma Whole.upheaval (h : Whole p) (hu : Upheaval p q) : Whole q := by
  refine ⟨h.orderly.upheaval hu, h.accounted.upheaval hu, fun hv => ?_⟩
  obtain ⟨c, l, next, -, -, rfl⟩ := h.orderly.guarded.tearsDown hu hv
  cases next with
  | connect => rfl
  | disconnect => exact (binding_release _).2

lemma Whole.step (h : Whole p) (he : p.LetsPart e) : Whole (p.step e) :=
  kept_step (fun _ _ _ h hm => (h.calm hm).imp_right Strands.severs_parting) (fun _ _ _ h hu => h.upheaval hu)
    (fun _ => rfl) h.orderly h he

theorem Whole.steps (h : Whole p) (hc : p.Spares Phase.parting es) : Whole (p.steps es) := by
  induction es generalizing p with
  | nil => exact h
  | cons e es ih => exact ih (h.step hc.1) hc.2

end SocketRpc.Provider
