import SocketRpc.Proofs.Provider.Epochs

/-!
One listener goes on at a time, and the socket it reads is the one that is written, once the call that
replaced that socket has handed it over.
-/

namespace SocketRpc.Provider

variable {F : Failure → Prop} {a : Option CallId} {p q m : Provider} {b c : CallId} {l : ListenerId}
  {li : Listener} {ph ph' : Phase} {conn : Connection} {s : SocketId}

def Listener.newest (li : Listener) : SocketId := li.replacement.getD li.reader

def Phase.uses : Phase → Bool
  | .resetClosing _ _ | .resetOpening _ _ | .handing _ _ _ | .writing _ _ _ => true
  | _ => false

def Phase.hands : Phase → Option SocketId
  | .handing _ _ s => some s
  | _ => none

lemma isFinished_eq (h : p.listeners.get? l = some li) : p.isFinished l = li.isFinished := by
  rw [Provider.isFinished, h]
  rfl

structure Follows (p q : Provider) : Prop where
  known : ∀ k, (p.listeners.get? k).isSome → (q.listeners.get? k).isSome
  unfinished : ∀ k lj, q.listeners.get? k = some lj → lj.isFinished = false →
    ∃ li, p.listeners.get? k = some li ∧ li.isFinished = false ∧ li.newest = lj.newest

lemma follows_of_eq (h : q.listeners = p.listeners) : Follows p q where
  known _ hk := h.symm ▸ hk
  unfinished _ lj hk hf := ⟨lj, h ▸ hk, hf, rfl⟩

lemma follows_modify {g : Listener → Listener} (h : q.listeners = p.listeners.modify l g)
    (hg : ∀ li, p.listeners.get? l = some li → (g li).isFinished = false →
      li.isFinished = false ∧ li.newest = (g li).newest) : Follows p q where
  known k hk := by
    rw [h, Table.get?_modify]
    split
    · simpa using hk
    · exact hk
  unfinished k lj hk hf := by
    rw [h, Table.get?_modify] at hk
    split at hk
    · rename_i he
      subst he
      obtain ⟨li, hl, rfl⟩ := Option.map_eq_some_iff.mp hk
      exact ⟨li, hl, hg li hl hf⟩
    · exact ⟨lj, hk, hf, rfl⟩

lemma Follows.trans (h : Follows p m) (g : Follows m q) : Follows p q where
  known k hk := g.known k (h.known k hk)
  unfinished k lj hk hf := by
    obtain ⟨lm, hm, hfm, hn⟩ := g.unfinished k lj hk hf
    obtain ⟨li, hl, hfl, hn'⟩ := h.unfinished k lm hm hfm
    exact ⟨li, hl, hfl, hn'.trans hn⟩

def Spent (p : Provider) (ph : Phase) : Prop :=
  (∀ l, ph.parts = some l → p.isFinished l = true) ∧
    ∀ s conn, ph.hands = some s → p.slot = some conn → p.isFinished conn.listener = true

inductive Works (p : Provider) (a : Option CallId) (q : Provider) : Prop where
  | aside (hs : q.slot = p.slot) (hl : Follows p q)
      (leaves : ∀ c ph, a = some c → p.phaseOf c = some ph → p.Spent ph)
      (enters : ∀ c ph, a = some c → q.phaseOf c = some ph → ph.uses →
        ph.hands = none ∧ (p.slot.isSome ∨ ∃ ph', p.phaseOf c = some ph' ∧ ph'.uses))
  | takeOut {c : CallId} {e : Errand} {conn : Connection} {next : AfterTeardown} (ha : a = some c)
      (hp : p.Holds c e) (hs : p.slot = some conn) (hn : q.slot = none) (hl : q.listeners = p.listeners)
      (hq : q.phaseOf c = some (.closing conn next))
  | part {c : CallId} {conn : Connection} {next : AfterTeardown} (ha : a = some c)
      (hp : p.phaseOf c = some (.closing conn next)) (hs : q.slot = p.slot) (hl : Follows p q)
      (hq : q.phaseOf c = some (.joining conn.listener next))
  | connect {c : CallId} {t : Backoff.Progress} {s : SocketId} {l : ListenerId} {r : Except Failure Reply}
      (ha : a = some c) (hp : p.phaseOf c = some (.opening t))
      (hs : q.slot = some { writer := s, listener := l })
      (hl : q.listeners = p.listeners.set l { reader := s }) (hq : q.phaseOf c = some (.done r))
  | renew {c : CallId} {d : Dispatch} {cause : ResetCause} {s : SocketId} (ha : a = some c)
      (hp : p.phaseOf c = some (.resetOpening d cause))
      (hs : q.slot = p.slot.map fun conn => { conn with writer := s }) (hl : q.listeners = p.listeners)
      (hq : q.phaseOf c = some (.handing d cause s))
  | hand {c : CallId} {d : Dispatch} {cause : ResetCause} {s : SocketId} {conn : Connection} {out : Outgoing}
      (ha : a = some c) (hp : p.phaseOf c = some (.handing d cause s)) (hc : p.slot = some conn)
      (hs : q.slot = p.slot)
      (hl : q.listeners = p.listeners.modify conn.listener fun li => { li with replacement := some s })
      (hq : q.phaseOf c = some (.writing d out (some cause)))
  | desert {c : CallId} {ph : Phase} (ha : a = some c) (hp : p.phaseOf c = some ph)
      (hd : ph.parts.isSome ∨ ph.hands.isSome) (hs : q.slot = p.slot) (hl : Follows p q)
      (hq : q.phaseOf c = none)

lemma Phase.guarded_of_uses (h : ph.uses) : ph.guarded := by
  cases ph <;> first | rfl | cases h

lemma Phase.uses_of_hands (h : ph.hands = some s) : ph.uses := by
  cases ph <;> first | rfl | cases h

lemma unused_setPhase (hu : ph.uses = false) :
    ∀ ph', (p.setPhase c ph).phaseOf c = some ph' → ph'.uses = false := fun _ hp =>
  eq_of_setPhase hp ▸ hu

lemma works_same (hs : q.slot = p.slot) (hl : Follows p q) : Works p none q :=
  .aside hs hl nofun nofun

lemma spent (hn : ph.parts = none) (hh : ph.hands = none) : p.Spent ph :=
  ⟨fun _ hl => absurd (hn.symm.trans hl) nofun, fun _ _ hs => absurd (hh.symm.trans hs) nofun⟩

lemma spent_of_phase (h : p.phaseOf c = some ph) (hs : p.Spent ph) :
    ∀ y, p.phaseOf c = some y → p.Spent y :=
  fun _ hy => Option.some.inj (h.symm.trans hy) ▸ hs

lemma works_free (hs : q.slot = p.slot) (hl : q.listeners = p.listeners)
    (hp : ∀ ph, p.phaseOf c = some ph → p.Spent ph)
    (hq : ∀ ph, q.phaseOf c = some ph → ph.uses = false) :
    Works p (some c) q := by
  refine .aside hs (follows_of_eq hl) ?_ ?_
  · rintro _ ph ⟨⟩ hc
    exact hp ph hc
  · rintro _ ph ⟨⟩ hc hu
    cases (hq ph hc).symm.trans hu

lemma works_apart (hs : m.slot = p.slot) (hl : m.listeners = p.listeners) (hp : p.phaseOf c = some ph)
    (hn : ph.parts = none) (hh : ph.hands = none) (hu : ph'.uses = false) : Works p (some c) (m.setPhase c ph') :=
  works_free hs hl (spent_of_phase hp (spent hn hh)) (unused_setPhase hu)

lemma works_on (hp : p.phaseOf c = some ph) (hn : p.Spent ph) (hu : p.slot.isSome ∨ ph.uses)
    (hh : ph'.hands = none) : Works p (some c) (p.setPhase c ph') := by
  refine .aside rfl (follows_of_eq rfl) ?_ ?_
  · rintro _ y ⟨⟩ hc
    exact spent_of_phase hp hn y hc
  · rintro _ y ⟨⟩ hc -
    rw [eq_of_setPhase hc]
    exact ⟨hh, hu.imp_right fun hu => ⟨ph, hp, hu⟩⟩

lemma works_settle {y : Request} {r : Except Failure Response} (hs : m.slot = p.slot)
    (hl : m.listeners = p.listeners)
    (hp : ∀ ph, p.phaseOf c = some ph → p.Spent ph) :
    Works p (some c) (m.settle c y r) := by
  obtain ⟨k, x, -, -, he⟩ := settle_eq m c y r
  rw [he]
  exact works_free hs hl hp (unused_setPhase (p := { m.note _ with correlator := k }) rfl)

lemma works_giveUp {d : Dispatch} {f : Failure} (h : GivesUp F p c d f) :
    Works p (some c) (p.failSend c d f) := by
  have hs : ∀ x : Provider, x.slot = p.release.slot → x.slot = p.slot := fun x hx => hx.trans (slot_release p)
  have hl : ∀ x : Provider, x.listeners = p.release.listeners → x.listeners = p.listeners :=
    fun x hx => hx.trans (listeners_release p)
  cases h with
  | unconnected h | ended h => exact works_settle (hs _ rfl) (hl _ rfl) (spent_of_phase h.1 (spent rfl rfl))
  | unopened h | unwritten h => exact works_settle (hs _ rfl) (hl _ rfl) (spent_of_phase h (spent rfl rfl))
  | unheard h hf =>
    exact works_settle (hs _ rfl) (hl _ rfl) (spent_of_phase h ⟨nofun, fun _ conn _ => hf conn⟩)

lemma drop_rest (hp : p.phaseOf c = some ph) :
    (p.drop c).slot = p.slot ∧ Follows p (p.drop c) ∧
      (ph.parts = none → (p.drop c).listeners = p.listeners) := by
  have hg : (p.giveBack ph).slot = p.slot ∧ Follows p (p.giveBack ph) ∧
      (ph.parts = none → (p.giveBack ph).listeners = p.listeners) := by
    simp only [giveBack]
    split
    · exact ⟨rfl, follows_of_eq rfl, fun _ => rfl⟩
    · exact ⟨rfl, follows_modify rfl fun _ _ hf => ⟨hf, rfl⟩, fun h => by cases h⟩
    · exact ⟨rfl, follows_of_eq rfl, fun _ => rfl⟩
  obtain ⟨hs, hl, -⟩ := unlock_rest { p.giveBack ph with calls := (p.giveBack ph).calls.erase c } c
  simp only [Provider.drop, hp]
  exact ⟨hs.trans hg.1, hg.2.1.trans (follows_of_eq hl), fun h => hl.trans (hg.2.2 h)⟩

lemma works_drop (hp : p.phaseOf c = some ph) : Works p (some c) (p.drop c) := by
  obtain ⟨hs, hf, hl⟩ := drop_rest hp
  by_cases hn : ph.parts.isSome ∨ ph.hands.isSome
  · exact .desert rfl hp hn hs hf (phaseOf_drop hp)
  · obtain ⟨hn, hh⟩ := not_or.mp hn
    have hn : ph.parts = none := by simpa using hn
    have hh : ph.hands = none := by simpa using hh
    refine works_free hs (hl hn) (spent_of_phase hp (spent hn hh)) fun y hy => ?_
    cases (phaseOf_drop hp).symm.trans hy

lemma works_resume (hl : p.listeners.get? l = some li) (hf : li.isFinished = false)
    (hs : li.replacement = some s) : Works p none (p.resume l s) := by
  have hn : ∀ lj, p.listeners.get? l = some lj → lj.newest = s := fun lj hj => by
    cases hl.symm.trans hj
    rw [Listener.newest, hs]
    rfl
  have follows : ∀ x : Provider, x.listeners = p.listeners.modify l (fun li =>
      { li with reader := s, framer := {}, replacement := none, phase := .resting }) → Follows p x := fun x hx =>
    follows_modify hx fun lj hj _ => ⟨Option.some.inj (hl.symm.trans hj) ▸ hf, hn lj hj⟩
  unfold resume
  dsimp only
  split <;> exact works_same rfl (follows _ rfl)

theorem calm_works (hk : ∀ c, (p.calls.get? c).isSome → c < p.nextCall) (hm : Calm F p a q) :
    Works p a q := by
  cases hm with
  | call op =>
    refine works_free rfl rfl (fun ph hp => ?_) fun ph hp => ?_
    · cases (phaseOf_nextCall hk).symm.trans hp
    · have : ph = .start := by simpa [newCall, phaseOf, eq_comm] using hp
      rw [this]
      rfl
  | seek hs | claim hs => exact works_apart rfl rfl (phaseOf_of_call hs) rfl rfl rfl
  | refuse hs => exact works_settle rfl rfl (spent_of_phase (phaseOf_of_call hs) (spent rfl rfl))
  | collect hp =>
    exact works_free rfl rfl (spent_of_phase hp (spent rfl rfl)) fun ph hq => by simp [phaseOf] at hq
  | drop hp => exact works_drop hp
  | read hp =>
    obtain ⟨-, hs, hl, hg⟩ := readNotification_rest p _ _ _
    refine works_free hs hl ?_ fun ph hq => Bool.eq_false_iff.mpr fun hu => ?_
    · rcases hp with ⟨hs, -⟩ | hp
      · exact spent_of_phase (phaseOf_of_call hs) (spent rfl rfl)
      · exact spent_of_phase hp (spent rfl rfl)
    · cases (hg ph hq).symm.trans (Phase.guarded_of_uses hu)
  | leave hh | yield hh => exact works_apart (slot_release p) (listeners_release p) hh.1 rfl rfl rfl
  | attempt hh => exact works_apart rfl rfl hh.1 rfl rfl rfl
  | replace hh hs =>
    exact .takeOut rfl hh hs rfl rfl (phaseOf_setPhase_self (p := { p with slot := none }) hh.1)
  | disconnect hh hs =>
    exact .takeOut rfl hh hs rfl rfl
      (phaseOf_setPhase_self (p := { p with slot := none }.publish .closing) hh.1)
  | giveUp hg => exact works_giveUp hg
  | reset hh hs | write hh hs => exact works_on hh.1 (spent rfl rfl) (Or.inl (by rw [hs]; rfl)) rfl
  | letGo hp =>
    rename_i c conn next
    have hr : Follows p (p.letGo conn.listener) :=
      follows_modify (g := fun li => { li with released := true }) rfl fun _ _ hf => ⟨hf, rfl⟩
    have ha : Follows (p.letGo conn.listener)
        (((p.letGo conn.listener).abortListener conn.listener).setPhase c (.joining conn.listener next)) :=
      follows_modify (g := fun li => { li with aborted := true }) rfl fun _ _ hf => ⟨hf, rfl⟩
    exact .part rfl hp rfl (hr.trans ha) (phaseOf_setPhase_self (p := (p.letGo _).abortListener _) hp)
  | connect hp =>
    exact .connect rfl hp (slot_release _) (listeners_release _)
      (phaseOf_setPhase_self ((phaseOf_release _ _).trans hp))
  | pause hp | retry hp => exact works_apart rfl rfl hp rfl rfl rfl
  | exhaust hp => exact works_apart (slot_release _) (listeners_release _) hp rfl rfl rfl
  | resetClosed hp | progress _ hp | breakPipe hp => exact works_on hp (spent rfl rfl) (Or.inr rfl) rfl
  | resetOpened hp =>
    exact .renew rfl hp rfl rfl (phaseOf_setPhase_self (p := { p.takeSocket.2 with slot := _ }) hp)
  | hand hp hs =>
    exact .hand rfl hp hs rfl rfl
      (phaseOf_setPhase_self (p := { p.setListener _ _ with notes := _, correlator := _ }) hp)
  | written hp => exact works_apart (slot_release p) (listeners_release p) hp rfl rfl rfl
  | reclaim hp => exact works_apart rfl rfl hp rfl rfl rfl
  | reclaimRefused hp | receive hp | closedOut hp | timeOut hp =>
    exact works_settle rfl rfl (spent_of_phase hp (spent rfl rfl))
  | take | elapse | pop => exact works_same rfl (follows_of_eq rfl)
  | deposit hr v =>
    obtain ⟨ns, he⟩ := p.leave_eq _ v
    rw [he]
    exact works_same rfl (follows_of_eq rfl)
  | work hl hf g ph hp =>
    refine works_same rfl (follows_modify rfl fun li hli _ => ?_)
    cases hl.symm.trans hli
    exact ⟨hf, rfl⟩
  | resume hl hf ha hs => exact works_resume hl hf hs
  | retire hl hf ha => exact works_same rfl (follows_modify rfl fun _ _ h => by cases h)

lemma upheaval_works (hu : Upheaval p q) :
    ∃ a, Works p a q ∧ (∀ b, a ≠ some b → q.phaseOf b = p.phaseOf b) ∧
      ∀ c, a = some c → q.phaseOf c ≠ none := by
  cases hu with
  | tear hp hf =>
    rename_i c l next
    have hs : p.Spent (.joining l next) := ⟨by rintro _ ⟨⟩; exact hf, nofun⟩
    have ho : ∀ {x : Provider} {ph : Phase} b, some c ≠ some b → (x.setPhase c ph).phaseOf b = x.phaseOf b :=
      fun b hb => (phaseOf_setPhase _ _ _ _).trans (if_neg fun he => hb (congrArg some he))
    refine ⟨some c, ?_⟩
    cases next with
    | connect =>
      refine ⟨works_free rfl rfl (spent_of_phase hp hs) (unused_setPhase (p := _) rfl), ho, ?_⟩
      rintro _ ⟨⟩ hn
      cases (phaseOf_setPhase_self hp).symm.trans hn
    | disconnect =>
      refine ⟨works_free (slot_release _) (listeners_release _) (spent_of_phase hp hs)
        (unused_setPhase rfl),
        fun b hb => (ho b hb).trans (phaseOf_release _ _), ?_⟩
      have hq : (p.tornDown c .disconnect).phaseOf c = some _ :=
        phaseOf_setPhase_self ((phaseOf_release _ _).trans hp)
      rintro _ ⟨⟩ hn
      cases hq.symm.trans hn
  | orphan hr =>
    obtain ⟨li, hl, ha⟩ := hr
    refine ⟨none, works_same rfl (follows_modify rfl fun lj hj _ => ?_), fun _ _ => rfl, nofun⟩
    cases hl.symm.trans hj
    exact ⟨ha.unfinished, rfl⟩
  | fail hr hs f =>
    refine ⟨none, ?_, ?_, nofun⟩ <;> simp only [fault, hs]
    · exact works_same rfl (follows_modify rfl fun _ _ h => by cases h)
    · exact fun _ _ => rfl

def Manned (p : Provider) : Prop :=
  ∀ c ph, p.phaseOf c = some ph →
    (ph.uses → p.slot.isSome) ∧ ∀ s, ph.hands = some s → p.slot.map Connection.writer = some s

lemma manned_new (endpoint : Endpoint) (config : Config) : Manned (new endpoint config) := by
  intro c ph h
  cases h

lemma Guarded.manned (h : Guarded p) (hh : p.lock.holder = some c)
    (ho : ∀ b, some c ≠ some b → q.phaseOf b = p.phaseOf b)
    (hc : ∀ ph, q.phaseOf c = some ph →
      (ph.uses → q.slot.isSome) ∧ ∀ s, ph.hands = some s → q.slot.map Connection.writer = some s) : Manned q := by
  intro b ph hb
  by_cases he : c = b
  · exact hc ph (he ▸ hb)
  · have idle : ¬ ph.uses := fun hu =>
      he (h.alone hh (ho b (by simpa using he) ▸ hb) (Phase.guarded_of_uses hu))
    exact ⟨fun hu => absurd hu idle, fun s hs => absurd (Phase.uses_of_hands hs) idle⟩

lemma Guarded.unmanned (h : Guarded p) (hh : p.lock.holder = some c)
    (ho : ∀ b, some c ≠ some b → q.phaseOf b = p.phaseOf b) (hc : ∀ ph, q.phaseOf c = some ph → ph.uses = false) :
    Manned q :=
  h.manned hh ho fun ph hp => ⟨fun hu => absurd (hc ph hp) (by simp [hu]), fun s hs =>
    absurd (hc ph hp) (by simp [Phase.uses_of_hands hs])⟩

lemma guarded_of_deserted (hd : ph.parts.isSome ∨ ph.hands.isSome) : ph.guarded := by
  cases ph <;> first | rfl | simp [Phase.parts, Phase.hands] at hd

theorem Manned.step (h : Manned p) (hg : Guarded p) (ho : ∀ b, a ≠ some b → q.phaseOf b = p.phaseOf b)
    (hw : Works p a q) : Manned q := by
  cases hw with
  | aside hs hl leaves enters =>
    intro b ph hb
    rw [hs]
    by_cases he : a = some b
    · have hu : ph.uses → ph.hands = none ∧ p.slot.isSome := fun hu => by
        obtain ⟨hn, hs | ⟨ph', hp, hu'⟩⟩ := enters b ph he hb hu
        · exact ⟨hn, hs⟩
        · exact ⟨hn, (h b ph' hp).1 hu'⟩
      exact ⟨fun h => (hu h).2, fun s hs => absurd ((hu (Phase.uses_of_hands hs)).1.symm.trans hs) nofun⟩
    · exact h b ph (ho b he ▸ hb)
  | desert ha hp hd hs hl hq =>
    subst ha
    refine hg.unmanned (hg.holds _ _ hp (guarded_of_deserted hd)) ho fun y hc => ?_
    cases hq.symm.trans hc
  | takeOut ha hp hs hn hl hq =>
    subst ha
    exact hg.unmanned hp.2 ho fun ph hc => Option.some.inj (hq.symm.trans hc) ▸ rfl
  | part ha hp hs hl hq | connect ha hp hs hl hq =>
    subst ha
    exact hg.unmanned (hg.holds _ _ hp rfl) ho fun ph hc => Option.some.inj (hq.symm.trans hc) ▸ rfl
  | renew ha hp hs hl hq =>
    subst ha
    obtain ⟨conn, hc⟩ := Option.isSome_iff_exists.mp ((h _ _ hp).1 rfl)
    refine hg.manned (hg.holds _ _ hp rfl) ho fun ph hc' => ?_
    cases hq.symm.trans hc'
    rw [hs, hc]
    exact ⟨fun _ => rfl, fun _ he => he⟩
  | hand ha hp hc hs hl hq =>
    subst ha
    refine hg.manned (hg.holds _ _ hp rfl) ho fun ph hc' => ?_
    cases hq.symm.trans hc'
    exact ⟨fun _ => by rw [hs, hc]; rfl, nofun⟩

structure Paired (p : Provider) : Prop where
  attached : ∀ l li, p.listeners.get? l = some li → li.isFinished = false → p.Attached l
  known : ∀ conn, p.slot = some conn → (p.listeners.get? conn.listener).isSome
  paired : ∀ conn li, p.slot = some conn → p.listeners.get? conn.listener = some li → li.isFinished = false →
    li.newest = conn.writer ∨ ∃ c ph, p.phaseOf c = some ph ∧ ph.hands = some conn.writer

lemma paired_new (endpoint : Endpoint) (config : Config) : Paired (new endpoint config) where
  attached l li h := by cases h
  known conn h := by cases h
  paired conn li h := by cases h

def Phase.bears : Phase → Bool
  | .closing _ _ | .joining _ _ | .handing _ _ _ => true
  | _ => false

lemma bears_of_deserted (hd : ph.parts.isSome ∨ ph.hands.isSome) : ph.bears := by
  cases ph <;> first | rfl | simp [Phase.parts, Phase.hands] at hd

lemma Attached.keep (h : p.Attached l) (hn : q.listening = p.listening)
    (ho : ∀ b, a ≠ some b → q.phaseOf b = p.phaseOf b)
    (hp : ∀ c ph, a = some c → p.phaseOf c = some ph → ph.parts ≠ some l) : q.Attached l :=
  h.imp hn.trans fun ⟨b, ph, hb, hl⟩ => ⟨b, ph, (ho b fun ha => hp b ph ha hb hl).trans hb, hl⟩

lemma listening_of_slot (h : q.slot = p.slot) : q.listening = p.listening :=
  congrArg (Option.map Connection.listener) h

lemma Paired.aside (h : Paired p) (ho : ∀ b, a ≠ some b → q.phaseOf b = p.phaseOf b) (hs : q.slot = p.slot)
    (hl : Follows p q) (leaves : ∀ c ph, a = some c → p.phaseOf c = some ph → p.Spent ph) : Paired q where
  attached l lj hj hf := by
    obtain ⟨li, hli, hfi, -⟩ := hl.unfinished l lj hj hf
    refine (h.attached l li hli hfi).keep (listening_of_slot hs) ho fun b ph ha hb hp => ?_
    have := (leaves b ph ha hb).1 l hp
    rw [isFinished_eq hli, hfi] at this
    cases this
  known conn hc := hl.known _ (h.known conn (hs ▸ hc))
  paired conn lj hc hj hf := by
    obtain ⟨li, hli, hfi, hn⟩ := hl.unfinished _ lj hj hf
    refine (h.paired conn li (hs ▸ hc) hli hfi).imp hn.symm.trans fun ⟨b, ph, hb, hp⟩ => ?_
    refine ⟨b, ph, ?_, hp⟩
    rw [ho b fun ha => ?_, hb]
    have := (leaves b ph ha hb).2 _ conn hp (hs ▸ hc)
    rw [isFinished_eq hli, hfi] at this
    cases this

lemma slot_of_listening (h : p.listening = none) : p.slot = none := Option.map_eq_none_iff.mp h

lemma paired_of_vacant (hs : q.slot = none)
    (ha : ∀ l li, q.listeners.get? l = some li → li.isFinished = false → q.Attached l) : Paired q where
  attached := ha
  known conn hc := by cases hs.symm.trans hc
  paired conn li hc := by cases hs.symm.trans hc

lemma Paired.connect (h : Paired p) (hg : Guarded p) {t : Backoff.Progress} (hp : p.phaseOf c = some (.opening t))
    (hs : q.slot = some { writer := s, listener := l }) (hl : q.listeners = p.listeners.set l { reader := s }) :
    Paired q where
  attached k lk hk hf := by
    rw [hl, Table.get?_set] at hk
    split at hk
    · exact Or.inl (by rw [listening, hs]; exact congrArg some ‹l = k›)
    · exact absurd (h.attached k lk hk hf) (hg.detached hp)
  known conn hc := by
    cases hs.symm.trans hc
    rw [hl, Table.get?_set, if_pos rfl]
    rfl
  paired conn lk hc hk _ := by
    cases hs.symm.trans hc
    rw [hl, Table.get?_set, if_pos rfl] at hk
    cases hk
    exact Or.inl rfl

lemma Paired.renew (h : Paired p) (ho : ∀ b, some c ≠ some b → q.phaseOf b = p.phaseOf b) {d : Dispatch}
    {cause : ResetCause} (hp : p.phaseOf c = some (.resetOpening d cause))
    (hs : q.slot = p.slot.map fun conn => { conn with writer := s }) (hl : q.listeners = p.listeners)
    (hq : q.phaseOf c = some (.handing d cause s)) : Paired q := by
  have hn : q.listening = p.listening := by rw [listening, hs]; exact Option.map_map _ _ _
  have slot : ∀ conn, q.slot = some conn → ∃ conn', p.slot = some conn' ∧ { conn' with writer := s } = conn :=
    fun conn hc => Option.map_eq_some_iff.mp (hs ▸ hc)
  refine ⟨fun l li hli hf => ?_, fun conn hc => ?_, fun conn li hc hli hf => Or.inr ⟨c, _, hq, ?_⟩⟩
  · refine (h.attached l li (hl ▸ hli) hf).keep hn ho ?_
    rintro b ph ⟨⟩ hb hl
    cases hp.symm.trans hb
    cases hl
  · obtain ⟨conn', hc', rfl⟩ := slot conn hc
    exact hl ▸ h.known conn' hc'
  · obtain ⟨conn', hc', rfl⟩ := slot conn hc
    rfl

lemma Paired.hand (h : Paired p) (ho : ∀ b, some c ≠ some b → q.phaseOf b = p.phaseOf b) {d : Dispatch}
    {cause : ResetCause} (hp : p.phaseOf c = some (.handing d cause s)) (hc : p.slot = some conn)
    (hw : conn.writer = s) (hs : q.slot = p.slot)
    (hl : q.listeners = p.listeners.modify conn.listener fun li => { li with replacement := some s }) : Paired q where
  attached l li hli hf := by
    obtain ⟨lj, hj, hfj⟩ : ∃ lj, p.listeners.get? l = some lj ∧ lj.isFinished = false := by
      rw [hl, Table.get?_modify] at hli
      split at hli
      · obtain ⟨lj, hj, rfl⟩ := Option.map_eq_some_iff.mp hli
        exact ⟨lj, hj, hf⟩
      · exact ⟨li, hli, hf⟩
    refine (h.attached l lj hj hfj).keep (listening_of_slot hs) ho ?_
    rintro b ph ⟨⟩ hb hp'
    cases hp.symm.trans hb
    cases hp'
  known conn' hc' := by
    rw [hl, Table.get?_modify]
    cases hc.symm.trans (hs ▸ hc')
    rw [if_pos rfl]
    simpa using h.known conn hc
  paired conn' li hc' hli _ := by
    cases hc.symm.trans (hs ▸ hc')
    rw [hl, Table.get?_modify, if_pos rfl] at hli
    obtain ⟨lj, -, rfl⟩ := Option.map_eq_some_iff.mp hli
    exact Or.inl hw.symm

theorem Paired.step (h : Paired p) (hg : Guarded p) (hm : Manned p)
    (ho : ∀ b, a ≠ some b → q.phaseOf b = p.phaseOf b) (hw : Works p a q) :
    Paired q ∨ Severs Phase.bears a p q := by
  cases hw with
  | aside hs hl leaves _ => exact Or.inl (h.aside ho hs hl leaves)
  | desert ha hp hd hs hl hq => exact Or.inr ⟨_, _, ha, hp, bears_of_deserted hd, hq⟩
  | takeOut ha hp hs hn hl hq =>
    rename_i c e conn next
    subst ha
    refine Or.inl (paired_of_vacant hn fun l li hli hf => Or.inr ⟨c, _, hq, ?_⟩)
    rcases h.attached l li (hl ▸ hli) hf with hl' | ⟨b, ph, hb, hp'⟩
    · rwa [listening, hs] at hl'
    · cases hg.alone hp.2 hb (Phase.guarded_of_parts hp')
      cases hp.1.symm.trans hb
      cases hp'
  | part ha hp hs hl hq =>
    rename_i c conn next
    subst ha
    have hn : q.slot = none := hs.trans (slot_of_listening (hg.empty c _ hp rfl))
    refine Or.inl (paired_of_vacant hn fun l lj hj hf => Or.inr ⟨c, _, hq, ?_⟩)
    obtain ⟨li, hli, hfi, -⟩ := hl.unfinished l lj hj hf
    rcases h.attached l li hli hfi with hl' | ⟨b, ph, hb, hp'⟩
    · cases (hg.empty c _ hp rfl).symm.trans hl'
    · cases hg.alone (hg.holds c _ hp rfl) hb (Phase.guarded_of_parts hp')
      cases hp.symm.trans hb
      exact hp'
  | connect ha hp hs hl hq => exact Or.inl (h.connect hg hp hs hl)
  | renew ha hp hs hl hq =>
    subst ha
    exact Or.inl (h.renew ho hp hs hl hq)
  | hand ha hp hc hs hl hq =>
    subst ha
    -- the socket in hand is the one that is written since it was opened
    have hw := (hm _ _ hp).2 _ rfl
    rw [hc] at hw
    exact Or.inl (h.hand ho hp hc (Option.some.inj hw) hs hl)

theorem paired_steps {endpoint : Endpoint} {config : Config} {es : List Event}
    (h : (new endpoint config).Spares Phase.bears es) : Paired ((new endpoint config).steps es) := by
  have hi : Manned (new endpoint config) ∧ Paired (new endpoint config) :=
    ⟨manned_new endpoint config, paired_new endpoint config⟩
  refine (invariant_of_spared (I := fun p => Manned p ∧ Paired p) (fun p a q ho ⟨hm, hp⟩ hc => ?_)
    (fun p q ho ⟨hm, hp⟩ hu => ?_) (fun _ => rfl) (orderly_new endpoint config) hi h).2
  · have others := calm_others hc
    have hw := calm_works ho.ledger.known hc
    exact (hp.step ho.guarded hm others hw).imp_left (And.intro (hm.step ho.guarded others hw))
  · obtain ⟨a, hw, others, stays⟩ := upheaval_works hu
    exact ⟨hm.step ho.guarded others hw, (hp.step ho.guarded hm others hw).resolve_right
      fun ⟨c, _, ha, _, _, hn⟩ => stays c ha hn⟩

lemma Phase.apart_of_parts (h : ph.parts = some l) : ph.apart := by
  cases ph <;> first | rfl | cases h

lemma Paired.one (h : Paired p) (hg : Guarded p) {k : ListenerId} {lj : Listener}
    (hl : p.listeners.get? l = some li) (hf : li.isFinished = false) (hk : p.listeners.get? k = some lj)
    (hj : lj.isFinished = false) : l = k := by
  have apart : ∀ {c ph k}, p.phaseOf c = some ph → ph.parts = some k → p.listening = none :=
    fun hc hk => hg.empty _ _ hc (Phase.apart_of_parts hk)
  rcases h.attached l li hl hf with hl | ⟨b, ph, hb, hl⟩
  · rcases h.attached k lj hk hj with hk | ⟨c, ph', hc, hk⟩
    · exact Option.some.inj (hl.symm.trans hk)
    · cases hl.symm.trans (apart hc hk)
  · rcases h.attached k lj hk hj with hk | ⟨c, ph', hc, hk⟩
    · cases hk.symm.trans (apart hb hl)
    · cases hg.alone (hg.holds b ph hb (Phase.guarded_of_parts hl)) hc (Phase.guarded_of_parts hk)
      cases hb.symm.trans hc
      exact Option.some.inj (hl.symm.trans hk)

def Phase.underway : Phase → Bool
  | .done _ => false
  | _ => true

/-- Where no call is dropped before it is over, at most one listener goes on. While nobody holds the lock it
is the listener of the connection, and the last socket it has been handed is the one that is written. -/
theorem one_listener {endpoint : Endpoint} {config : Config} {es : List Event}
    (h : (new endpoint config).Spares Phase.underway es) :
    let p := (new endpoint config).steps es
    (∀ k l lk ll, p.listeners.get? k = some lk → p.listeners.get? l = some ll → lk.isFinished = false →
      ll.isFinished = false → k = l) ∧
    (p.lock.holder = none →
      (p.slot = none → ∀ l li, p.listeners.get? l = some li → li.isFinished = true) ∧
      ∀ conn, p.slot = some conn → ∃ li, p.listeners.get? conn.listener = some li ∧
        (li.isFinished = true ∨ li.newest = conn.writer)) := by
  intro p
  have hg : Guarded p := (guarded_steps endpoint config es).2
  have hp : Paired p := paired_steps (h.mono fun ph hu => by cases ph <;> first | rfl | cases hu)
  refine ⟨fun k l lk ll hk hl hfk hfl => hp.one hg hk hfk hl hfl, fun hh => ?_⟩
  have idle : ∀ c ph, p.phaseOf c = some ph → ph.guarded = false := fun c ph hc =>
    Bool.eq_false_iff.mpr fun hgu => absurd (hh.symm.trans (hg.holds c ph hc hgu)) nofun
  refine ⟨fun hs l li hl => ?_, fun conn hs => ?_⟩
  · by_contra hf
    rcases hp.attached l li hl (Bool.eq_false_iff.mpr hf) with hl' | ⟨c, ph, hc, hl'⟩
    · have hn : p.listening = none := congrArg (Option.map Connection.listener) hs
      cases hn.symm.trans hl'
    · cases (idle c ph hc).symm.trans (Phase.guarded_of_parts hl')
  · obtain ⟨li, hl⟩ := Option.isSome_iff_exists.mp (hp.known conn hs)
    refine ⟨li, hl, or_iff_not_imp_left.mpr fun hf => ?_⟩
    refine (hp.paired conn li hs hl (Bool.eq_false_iff.mpr hf)).resolve_right fun ⟨c, ph, hc, hn⟩ => ?_
    cases (idle c ph hc).symm.trans (Phase.guarded_of_uses (Phase.uses_of_hands hn))

def repaired : List Event := overlapped ++ [.sink 2 .flushed, .turn 2, .collect 2, .drop 2]

theorem one_listener_repaired :
    let p := (new here {}).steps repaired
    (new here {}).Spares Phase.underway repaired ∧ p.lock.holder = none ∧ p.slot = some ⟨1, 0⟩ ∧
      (∀ k l lk ll, p.listeners.get? k = some lk → p.listeners.get? l = some ll → lk.isFinished = false →
        ll.isFinished = false → k = l) ∧
      ∃ li, p.listeners.get? 0 = some li ∧ (li.isFinished = true ∨ li.newest = 1) := by
  intro p
  have h : (new here {}).Spares Phase.underway repaired := by decide +kernel
  obtain ⟨hone, hnewest⟩ := one_listener h
  exact ⟨h, rfl, rfl, hone, (hnewest rfl).2 ⟨1, 0⟩ rfl⟩

end SocketRpc.Provider
