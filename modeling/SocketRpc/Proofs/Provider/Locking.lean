import SocketRpc.Proofs.Provider.Ledger

/-! One call at a time works on the connection, and no listener but that of the connection goes on. -/

namespace SocketRpc.Provider

variable {F : Failure → Prop} {a : Option CallId} {p q m : Provider} {b c : CallId} {l : ListenerId}
  {ph ph' : Phase}

def Phase.guarded : Phase → Bool
  | .closing _ _ | .joining _ _ | .opening _ | .pausing _ _ | .resetClosing _ _ | .resetOpening _ _
  | .handing _ _ _ | .writing _ _ _ => true
  | _ => false

def Phase.apart : Phase → Bool
  | .closing _ _ | .joining _ _ | .opening _ | .pausing _ _ => true
  | _ => false

def Listener.Live (li : Listener) : Prop :=
  li.isFinished = false ∧ li.released = false ∧ li.aborted = false

lemma Listener.Attentive.live {li : Listener} (h : li.Attentive) : li.Live :=
  ⟨h.unfinished, h.2.2⟩

def listening (p : Provider) : Option ListenerId := p.slot.map Connection.listener

structure Guarded (p : Provider) : Prop where
  holds : ∀ c ph, p.phaseOf c = some ph → ph.guarded → p.lock.holder = some c
  empty : ∀ c ph, p.phaseOf c = some ph → ph.apart → p.listening = none
  heard : ∀ l li, p.listeners.get? l = some li → li.Live →
    p.listening = some l ∨ ∃ c conn next, p.phaseOf c = some (.closing conn next) ∧ conn.listener = l

lemma guarded_new (endpoint : Endpoint) (config : Config) : Guarded (new endpoint config) where
  holds c ph h := by cases h
  empty c ph h := by cases h
  heard l li h := by cases h

lemma Phase.guarded_of_apart (h : ph.apart) : ph.guarded := by
  cases ph <;> first | rfl | cases h

def Quietens (p q : Provider) : Prop :=
  ∀ l li, q.listeners.get? l = some li → li.Live →
    ∃ lj, p.listeners.get? l = some lj ∧ lj.Live

lemma quietens_of_eq (h : q.listeners = p.listeners) : Quietens p q :=
    fun _ li hl hv => ⟨li, h ▸ hl, hv⟩

lemma quietens_setListener {g : Listener → Listener}
    (hg : ∀ li, p.listeners.get? l = some li → (g li).Live → li.Live)
    (h : q.listeners = p.listeners.modify l g) : Quietens p q := by
  intro k li hl hv
  rw [h, Table.get?_modify] at hl
  split at hl
  · rename_i he
    subst he
    obtain ⟨lj, hj, rfl⟩ := Option.map_eq_some_iff.mp hl
    exact ⟨lj, hj, hg lj hj hv⟩
  · exact ⟨li, hl, hv⟩

lemma Frame.phaseOf {ns : List Note} (f : Frame a p q ns) (h : a ≠ some b) :
    q.phaseOf b = p.phaseOf b := by
  simp only [Provider.phaseOf, f.others b h]

lemma calm_others (hm : Calm F p a q) : ∀ b, a ≠ some b → q.phaseOf b = p.phaseOf b := by
  obtain ⟨ns, f⟩ := entries_frame (calm_entries hm)
  exact fun _ => f.phaseOf

lemma Guarded.own (h : Guarded p) (ho : ∀ b, c ≠ b → q.phaseOf b = p.phaseOf b)
    (hlock : ∀ b, c ≠ b → p.lock.holder = some b → q.lock.holder = some b)
    (hl : q.listening = p.listening) (hq : Quietens p q)
    (hc : ∀ conn next, p.phaseOf c ≠ some (.closing conn next))
    (own : ∀ ph, q.phaseOf c = some ph → ph.guarded →
      q.lock.holder = some c ∧ (ph.apart → p.listening = none)) : Guarded q where
  holds b ph hb hg := by
    by_cases he : c = b
    · subst he
      exact (own ph hb hg).1
    · exact hlock b he (h.holds b ph (ho b he ▸ hb) hg)
  empty b ph hb ha := by
    rw [hl]
    by_cases he : c = b
    · subst he
      exact (own ph hb (Phase.guarded_of_apart ha)).2 ha
    · exact h.empty b ph (ho b he ▸ hb) ha
  heard l li hli hv := by
    rw [hl]
    obtain ⟨lj, hlj, hvj⟩ := hq l li hli hv
    refine (h.heard l lj hlj hvj).imp_right fun ⟨b, conn, next, hb, he⟩ => ?_
    have hne : c ≠ b := by
      rintro rfl
      exact hc conn next hb
    exact ⟨b, conn, next, (ho b hne).trans hb, he⟩

lemma Guarded.listen (h : Guarded p) (ho : q.calls = p.calls) (hlock : q.lock = p.lock)
    (hs : q.slot = p.slot) (hq : Quietens p q) : Guarded q where
  holds b ph hb hg := by
    rw [hlock]
    exact h.holds b ph (phaseOf_of_calls ho b ▸ hb) hg
  empty b ph hb ha := by
    rw [listening, hs]
    exact h.empty b ph (phaseOf_of_calls ho b ▸ hb) ha
  heard l li hli hv := by
    rw [listening, hs]
    obtain ⟨lj, hlj, hvj⟩ := hq l li hli hv
    refine (h.heard l lj hlj hvj).imp_right fun ⟨b, conn, next, hb, he⟩ => ?_
    exact ⟨b, conn, next, (phaseOf_of_calls ho b).trans hb, he⟩

lemma Guarded.rest (h : Guarded p) (ho : ∀ b, c ≠ b → q.phaseOf b = p.phaseOf b)
    (hlock : ∀ b, c ≠ b → p.lock.holder = some b → q.lock.holder = some b) (hs : q.slot = p.slot)
    (hl : q.listeners = p.listeners) (hc : ∀ conn next, p.phaseOf c ≠ some (.closing conn next))
    (hg : ∀ ph, q.phaseOf c = some ph → ph.guarded = false) : Guarded q :=
  h.own ho hlock (congrArg (Option.map Connection.listener) hs) (quietens_of_eq hl) hc fun ph hp hg' => by
    rw [hg ph hp] at hg'
    cases hg'

lemma Guarded.work (h : Guarded p) (ho : ∀ b, c ≠ b → q.phaseOf b = p.phaseOf b)
    (hlock : q.lock = p.lock) (hl : q.listening = p.listening) (hq : Quietens p q)
    (hc : ∀ conn next, p.phaseOf c ≠ some (.closing conn next)) (hh : p.lock.holder = some c)
    (ha : ∀ ph, q.phaseOf c = some ph → ph.apart → p.listening = none) : Guarded q :=
  h.own ho (fun _ _ hb => hlock ▸ hb) hl hq hc fun ph hp _ => ⟨hlock ▸ hh, ha ph hp⟩

lemma phaseOf_moved (hm : m.calls = p.calls) (ph : Phase) (hb : c ≠ b) :
    (m.setPhase c ph).phaseOf b = p.phaseOf b :=
  ((phaseOf_setPhase m c b ph).trans (if_neg hb)).trans (phaseOf_of_calls hm b)

lemma not_closing (h : p.phaseOf c = some ph) (hc : ∀ conn next, ph ≠ .closing conn next) :
    ∀ conn next, p.phaseOf c ≠ some (.closing conn next) := fun conn next he =>
  hc conn next (Option.some.inj (h.symm.trans he))

lemma Guarded.setsTo (h : Guarded p) {e : Errand} (hh : p.Holds c e) (hm : m.calls = p.calls)
    (hlock : m.lock = p.lock) (hs : m.slot = p.slot) (hl : m.listeners = p.listeners)
    (ha : ph.apart → p.slot = none) : Guarded (m.setPhase c ph) := by
  refine h.work (fun b hb => phaseOf_moved hm ph hb) hlock (congrArg (Option.map Connection.listener) hs)
    (quietens_of_eq hl) (not_closing hh.1 (by simp)) hh.2 fun ph' hp ha' => ?_
  cases eq_of_setPhase hp
  rw [listening, ha ha']
  rfl

lemma Guarded.goesOn (h : Guarded p) (hp : p.phaseOf c = some ph) (hg : ph.guarded)
    (hc : ∀ conn next, ph ≠ .closing conn next) (hm : m.calls = p.calls) (hlock : m.lock = p.lock)
    (hl : m.listening = p.listening) (hq : Quietens p m) (ha : ph'.apart → ph.apart) :
    Guarded (m.setPhase c ph') := by
  refine h.work (fun b hb => phaseOf_moved hm ph' hb) hlock hl hq (not_closing hp hc) (h.holds c ph hp hg)
    fun ph'' hp' ha' => ?_
  cases eq_of_setPhase hp'
  exact h.empty c ph hp (ha ha')

lemma holder_ask {k : Lock} (h : k.holder = some b) (c : CallId) : (k.ask c).holder = some b := by
  simp [Lock.ask, h]

lemma unguarded_setPhase (hg : ph.guarded = false) :
    ∀ ph', (p.setPhase c ph).phaseOf c = some ph' → ph'.guarded = false := fun _ hp =>
  eq_of_setPhase hp ▸ hg

lemma Guarded.retires (h : Guarded p) (hp : p.phaseOf c = some ph) (hc : ∀ conn next, ph ≠ .closing conn next)
    (hm : m.calls = p.calls) (hlock : ∀ b, c ≠ b → p.lock.holder = some b → m.lock.holder = some b)
    (hs : m.slot = p.slot) (hl : m.listeners = p.listeners) (hg : ph'.guarded = false) :
    Guarded (m.setPhase c ph') :=
  h.rest (fun _ hb => phaseOf_moved hm ph' hb) hlock hs hl (not_closing hp hc) (unguarded_setPhase hg)

lemma Guarded.settle (h : Guarded p) {y : Request} {r : Except Failure Response} (hp : p.phaseOf c = some ph)
    (hc : ∀ conn next, ph ≠ .closing conn next) (hm : m.calls = p.calls)
    (hlock : ∀ b, c ≠ b → p.lock.holder = some b → m.lock.holder = some b) (hs : m.slot = p.slot)
    (hl : m.listeners = p.listeners) : Guarded (m.settle c y r) := by
  obtain ⟨k, x, -, -, he⟩ := settle_eq m c y r
  rw [he]
  exact h.retires (m := { m.note _ with correlator := k }) hp hc hm hlock hs hl rfl

lemma givesUp_holder (h : Guarded p) {d : Dispatch} {f : Failure} (hg : GivesUp F p c d f) :
    p.lock.holder = some c ∧ ∃ ph, p.phaseOf c = some ph ∧ ∀ conn next, ph ≠ .closing conn next := by
  cases hg with
  | unconnected hh _ | ended hh _ _ => exact ⟨hh.2, _, hh.1, by simp⟩
  | unopened hp _ | unheard hp | unwritten hp _ => exact ⟨h.holds c _ hp rfl, _, hp, by simp⟩

lemma readNotification_rest (p : Provider) (c : CallId) (s : SubscriptionId) (epoch : Nat) :
    (p.readNotification c s epoch).lock = p.lock ∧ (p.readNotification c s epoch).slot = p.slot ∧
      (p.readNotification c s epoch).listeners = p.listeners ∧
      ∀ ph, (p.readNotification c s epoch).phaseOf c = some ph → ph.guarded = false := by
  rw [readNotification]
  split
  · exact ⟨rfl, rfl, rfl, unguarded_setPhase (p := { p with correlator := _ }) rfl⟩
  · exact ⟨rfl, rfl, rfl, unguarded_setPhase rfl⟩

lemma Guarded.setListener (h : Guarded p) (hc : q.calls = p.calls) (hlock : q.lock = p.lock)
    (hs : q.slot = p.slot) {li : Listener} (hl : p.listeners.get? l = some li)
    (hf : li.isFinished = false) {g : Listener → Listener}
    (hq : q.listeners = p.listeners.modify l g)
    (hr : (g li).released = li.released) (ha : (g li).aborted = li.aborted) : Guarded q := by
  refine h.listen hc hlock hs (quietens_setListener (fun lj hj hv => ?_) hq)
  cases hl.symm.trans hj
  exact ⟨hf, hr ▸ hv.2.1, ha ▸ hv.2.2⟩

variable {conn : Connection} {next : AfterTeardown}

lemma Guarded.alone (h : Guarded p) (hh : p.lock.holder = some c) (hb : p.phaseOf b = some ph)
    (hg : ph.guarded) : c = b :=
  Option.some.inj (hh.symm.trans (h.holds b ph hb hg))

lemma Guarded.takeOut (h : Guarded p) {e : Errand} (hh : p.Holds c e) (hs : p.slot = some conn)
    (hm : m.calls = p.calls) (hlock : m.lock = p.lock) (hn : m.slot = none) (hl : m.listeners = p.listeners) :
    Guarded (m.setPhase c (.closing conn next)) where
  holds b ph hb hg := by
    refine (congrArg Lock.holder hlock).trans ?_
    by_cases he : c = b
    · exact he ▸ hh.2
    · exact h.holds b ph (phaseOf_moved hm _ he ▸ hb) hg
  empty b ph hb ha := congrArg (Option.map Connection.listener) hn
  heard l li hli hv := by
    have hc : p.phaseOf c = m.phaseOf c := (phaseOf_of_calls hm c).symm
    refine Or.inr ⟨c, conn, next, phaseOf_setPhase_self (hc.symm.trans hh.1), ?_⟩
    rcases h.heard l li (hl ▸ hli) hv with hl | ⟨b, other, next, hb, -⟩
    · rw [listening, hs] at hl
      exact Option.some.inj hl
    · cases h.alone hh.2 hb rfl
      cases hh.1.symm.trans hb

lemma live_letGo {li : Listener} (hl : (p.letGo l).listeners.get? b = some li) (hv : li.Live) :
    l ≠ b ∧ p.listeners.get? b = some li := by
  have hl : (p.listeners.modify l fun li => { li with released := true }).get? b = some li := hl
  rw [Table.get?_modify] at hl
  split at hl
  · obtain ⟨lj, -, rfl⟩ := Option.map_eq_some_iff.mp hl
    exact absurd hv.2.1 (by simp)
  · exact ⟨‹_›, hl⟩

lemma Guarded.part (h : Guarded p) (hp : p.phaseOf c = some (.closing conn next))
    (ho : ∀ b, c ≠ b → q.phaseOf b = p.phaseOf b) (hs : q.slot = p.slot)
    (hq : Quietens (p.letGo conn.listener) q)
    (own : ∀ ph, q.phaseOf c = some ph → q.lock.holder = some c) : Guarded q := by
  have hh : p.lock.holder = some c := h.holds c _ hp rfl
  have none : q.listening = none := by
    rw [listening, hs]
    exact h.empty c _ hp rfl
  refine ⟨fun b ph hb hg => ?_, fun b ph hb ha => none, fun l li hli hv => ?_⟩
  · by_cases he : c = b
    · subst he
      exact own ph hb
    · exact absurd (h.alone hh (ho b he ▸ hb) hg) he
  · obtain ⟨lj, hlj, hvj⟩ := hq l li hli hv
    obtain ⟨hne, hlj⟩ := live_letGo hlj hvj
    rcases h.heard l lj hlj hvj with hl' | ⟨b, other, next, hb, rfl⟩
    · rw [h.empty c _ hp rfl] at hl'
      cases hl'
    · cases h.alone hh hb rfl
      cases hp.symm.trans hb
      exact absurd rfl hne

lemma Guarded.connect (h : Guarded p) (hp : p.phaseOf c = some ph) (ha : ph.apart)
    (hc : ∀ conn next, p.phaseOf c ≠ some (.closing conn next))
    (ho : ∀ b, c ≠ b → q.phaseOf b = p.phaseOf b) {li : Listener}
    (hl : q.listeners = p.listeners.set l li) (hs : q.listening = some l)
    (hg : ∀ ph, q.phaseOf c = some ph → ph.guarded = false) : Guarded q := by
  have hh : p.lock.holder = some c := h.holds c _ hp (Phase.guarded_of_apart ha)
  have rest : ∀ b ph, q.phaseOf b = some ph → ph.guarded = false := fun b ph hb => by
    by_cases he : c = b
    · exact hg ph (he ▸ hb)
    · exact Bool.eq_false_iff.mpr fun hgb => he (h.alone hh (ho b he ▸ hb) hgb)
  refine ⟨fun b ph hb hgb => ?_, fun b ph hb hab => ?_, fun k lk hk hv => Or.inl ?_⟩
  · rw [rest b ph hb] at hgb
    cases hgb
  · have hgb := Phase.guarded_of_apart hab
    rw [rest b ph hb] at hgb
    cases hgb
  · rw [hl, Table.get?_set] at hk
    split at hk
    · exact ‹l = k› ▸ hs
    · rcases h.heard k lk hk hv with hk' | ⟨b, other, next, hb, -⟩
      · rw [h.empty c _ hp ha] at hk'
        cases hk'
      · cases h.alone hh hb rfl
        exact absurd hb (hc other next)

lemma unlock_rest (p : Provider) (c : CallId) :
    (p.unlock c).slot = p.slot ∧ (p.unlock c).listeners = p.listeners ∧
      ∀ b, c ≠ b → p.lock.holder = some b → (p.unlock c).lock.holder = some b := by
  rw [unlock]
  split
  · rename_i hc
    exact ⟨slot_release p, listeners_release p,
      fun b hb he => absurd (Option.some.inj (hc.symm.trans he)) hb⟩
  · exact ⟨rfl, rfl, fun b _ he => he⟩

lemma Guarded.drop (h : Guarded p) (hp : p.phaseOf c = some ph)
    (ho : ∀ b, c ≠ b → (p.drop c).phaseOf b = p.phaseOf b) : Guarded (p.drop c) := by
  have gone : ∀ ph, (p.drop c).phaseOf c ≠ some ph := fun ph hc => by
    rw [phaseOf, calls_drop hp, Table.get?_erase, if_pos rfl] at hc
    cases hc
  have hd : p.drop c = ({ p.giveBack ph with calls := (p.giveBack ph).calls.erase c }.unlock c) := by
    simp only [Provider.drop, hp]
  obtain ⟨hs, hl, hlock⟩ := unlock_rest { p.giveBack ph with calls := (p.giveBack ph).calls.erase c } c
  rw [← hd] at hs hl hlock
  by_cases hc : ∃ conn next, ph = .closing conn next
  · obtain ⟨conn, next, rfl⟩ := hc
    exact h.part hp ho hs (quietens_of_eq hl) fun ph hc => absurd hc (gone ph)
  · have hg : (p.giveBack ph).lock = p.lock ∧ (p.giveBack ph).slot = p.slot ∧
        (p.giveBack ph).listeners = p.listeners := by
      simp only [giveBack]
      split
      · exact ⟨rfl, rfl, rfl⟩
      · exact absurd ⟨_, _, rfl⟩ hc
      · exact ⟨rfl, rfl, rfl⟩
    refine h.rest ho (fun b hb he => hlock b hb (hg.1 ▸ he)) (hs.trans hg.2.1) (hl.trans hg.2.2)
      (not_closing hp fun conn next he => hc ⟨conn, next, he⟩) fun ph hc => absurd hc (gone ph)

theorem Guarded.calm (h : Guarded p) (hk : ∀ c, (p.calls.get? c).isSome → c < p.nextCall)
    (hm : Calm F p a q) : Guarded q := by
  have others : ∀ c, a = some c → ∀ b, c ≠ b → q.phaseOf b = p.phaseOf b := fun c ha b hb =>
    calm_others hm b (ha ▸ fun he => hb (Option.some.inj he))
  have keeps : ∀ b c : CallId, c ≠ b → p.lock.holder = some b → p.lock.holder = some b := fun _ _ _ hb => hb
  have asks : ∀ b c : CallId, c ≠ b → p.lock.holder = some b → (p.lock.ask c).holder = some b :=
    fun _ c _ hb => holder_ask hb c
  -- who gives the lock away holds it
  have passed : ∀ {c : CallId} {k : Lock}, p.lock.holder = some c → ∀ b, c ≠ b →
      p.lock.holder = some b → k.holder = some b :=
    fun hh b hb he => absurd (Option.some.inj (hh.symm.trans he)) hb
  cases hm with
  | call op =>
    refine h.rest (others _ rfl) (keeps · _) rfl rfl (fun conn next he => ?_) fun ph hp => ?_
    · cases (phaseOf_nextCall hk).symm.trans he
    · have : ph = .start := by simpa [newCall, phaseOf, eq_comm] using hp
      rw [this]
      rfl
  | seek hs | claim hs =>
    exact h.retires (phaseOf_of_call hs) (by simp) rfl (asks · _) rfl rfl rfl
  | refuse hs =>
    exact h.settle (phaseOf_of_call hs) (by simp) rfl (keeps · _) rfl rfl
  | collect hp =>
    refine h.rest (others _ rfl) (keeps · _) rfl rfl (not_closing hp (by simp)) fun ph hq => ?_
    simp [phaseOf] at hq
  | drop hp => exact h.drop hp (others _ rfl)
  | read hp =>
    rename_i c s epoch
    obtain ⟨hlock, hslot, hl, hg⟩ := readNotification_rest p c s epoch
    refine h.rest (others _ rfl) (fun _ _ hb => hlock ▸ hb) hslot hl ?_ hg
    rcases hp with ⟨hs, -⟩ | hp
    · exact not_closing (phaseOf_of_call hs) (by simp)
    · exact not_closing hp (by simp)
  | leave hh | yield hh =>
    exact h.retires hh.1 (by simp) (calls_release p) (passed hh.2) (slot_release p) (listeners_release p) rfl
  | attempt hh hs => exact h.setsTo hh rfl rfl rfl rfl fun _ => hs
  | replace hh hs | disconnect hh hs => exact h.takeOut hh hs rfl rfl rfl rfl
  | giveUp hg =>
    obtain ⟨hh, ph, hp, hc⟩ := givesUp_holder h hg
    exact h.settle hp hc (calls_release p) (passed hh) (slot_release p) (listeners_release p)
  | reset hh | write hh => exact h.setsTo hh rfl rfl rfl rfl fun ha => by cases ha
  | letGo hp =>
    rename_i c conn next
    refine h.part hp (others _ rfl) rfl (quietens_setListener (fun li _ hv => ?_) rfl) fun _ _ =>
      h.holds c _ hp rfl
    exact absurd hv.2.2 (by simp)
  | connect hp =>
    rename_i c t
    refine h.connect hp rfl (not_closing hp (by simp)) (others _ rfl) (l := p.nextListener)
      (listeners_release _) ?_ (unguarded_setPhase rfl)
    rw [listening, show (releaseAndFinish _ c (.ok .nothing)).slot = _ from slot_release _]
    rfl
  | pause hp | retry hp => exact h.goesOn hp rfl (by simp) rfl rfl rfl (quietens_of_eq rfl) fun _ => rfl
  | resetClosed hp | progress _ hp | breakPipe hp =>
    exact h.goesOn hp rfl (by simp) rfl rfl rfl (quietens_of_eq rfl) fun ha => by cases ha
  | resetOpened hp =>
    exact h.goesOn hp rfl (by simp) rfl rfl (Option.map_map _ _ _) (quietens_of_eq rfl) fun ha => by cases ha
  | hand hp hs hf hr =>
    rename_i c d cause s conn
    exact h.goesOn hp rfl (by simp) rfl rfl rfl (quietens_setListener (l := conn.listener)
      (g := fun li => { li with replacement := some s }) (fun li _ hv => hv) rfl) fun ha => by cases ha
  | exhaust hp =>
    exact h.retires hp (by simp) (calls_release _) (passed (h.holds _ _ hp rfl)) (slot_release _)
      (listeners_release _) rfl
  | written hp =>
    exact h.retires hp (by simp) (calls_release p) (passed (h.holds _ _ hp rfl)) (slot_release p)
      (listeners_release p) rfl
  | reclaim hp => exact h.retires hp (by simp) rfl (keeps · _) rfl rfl rfl
  | reclaimRefused hp | receive hp | closedOut hp | timeOut hp =>
    exact h.settle hp (by simp) rfl (keeps · _) rfl rfl
  | take | elapse | pop => exact h.listen rfl rfl rfl (quietens_of_eq rfl)
  | deposit hr v =>
    rename_i l
    obtain ⟨ms, he⟩ := p.leave_eq l v
    rw [he]
    exact h.listen rfl rfl rfl (quietens_of_eq rfl)
  | work hl hf g ph hp => exact h.setListener rfl rfl rfl hl hf rfl rfl rfl
  | resume hl hf ha hs =>
    unfold resume
    dsimp only
    split <;> exact h.setListener rfl rfl rfl hl hf rfl rfl rfl
  | retire hl hf ha => exact h.setListener rfl rfl rfl hl hf rfl rfl rfl

lemma Guarded.upheaval (h : Guarded p) (hu : Upheaval p q) : Guarded q := by
  cases hu with
  | tear hp hf =>
    rename_i c l next
    cases next with
    | connect => exact h.goesOn hp rfl (by simp) rfl rfl rfl (quietens_of_eq rfl) fun _ => rfl
    | disconnect =>
      refine h.retires hp (by simp) (calls_release _) (fun b hb he => ?_) (slot_release _) (listeners_release _) rfl
      exact absurd (Option.some.inj ((h.holds c _ hp rfl).symm.trans he)) hb
  | orphan hr =>
    obtain ⟨li, hl, ha⟩ := hr
    refine h.listen rfl rfl rfl (quietens_setListener (fun lj hj hv => ?_) rfl)
    cases hl.symm.trans hj
    exact ha.live
  | fail hr hs f =>
    simp only [fault, hs]
    refine h.listen rfl rfl rfl (quietens_setListener (fun lj hj hv => ?_) rfl)
    exact absurd hv.1 (by simp [Listener.isFinished])

lemma guarded_run (h : Ledger p ∧ Guarded p) (es : List Event) :
    Ledger (p.steps es) ∧ Guarded (p.steps es) :=
  invariant_of_moves (F := fun _ => True) (I := fun p => Ledger p ∧ Guarded p)
    (fun _ _ _ ⟨hl, hg⟩ hm => ⟨hl.calm hm, hg.calm hl.known hm⟩)
    (fun _ _ ⟨hl, hg⟩ hu => ⟨hl.upheaval hu, hg.upheaval hu⟩) h fun _ _ _ _ => trivial

theorem guarded_steps (endpoint : Endpoint) (config : Config) (es : List Event) :
    Ledger ((new endpoint config).steps es) ∧ Guarded ((new endpoint config).steps es) :=
  guarded_run ⟨ledger_new endpoint config, guarded_new endpoint config⟩ es

end SocketRpc.Provider
