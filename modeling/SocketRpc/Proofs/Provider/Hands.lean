import SocketRpc.Proofs.Provider.Sockets

namespace SocketRpc.Provider

variable {F : Failure → Prop} {a : Option CallId} {p q m : Provider} {b c : CallId} {l : ListenerId}
  {li lj : Listener} {ph : Phase} {s : SocketId}

inductive Keeper where
  | reader (l : ListenerId)
  | next (l : ListenerId)
  | call (c : CallId)
deriving DecidableEq

def kept (p : Provider) : Keeper → Option SocketId
  | .reader l => (p.listeners.get? l).map Listener.reader
  | .next l => (p.listeners.get? l).bind Listener.replacement
  | .call c => (p.phaseOf c).bind Phase.hands

inductive Passes (p q : Provider) : Prop where
  | rest (hn : q.nextSocket = p.nextSocket) (h : ∀ k s, q.kept k = some s → p.kept k = some s)
  | gain {k : Keeper} (hn : q.nextSocket = p.nextSocket + 1)
      (h : ∀ j s, q.kept j = some s → p.kept j = some s ∨ j = k ∧ s = p.nextSocket)
  | pass {k n : Keeper} {s : SocketId} (hn : q.nextSocket = p.nextSocket) (hk : ∀ l, k ≠ .reader l)
      (hp : p.kept k = some s) (hq : q.kept k ≠ some s)
      (h : ∀ j t, q.kept j = some t → p.kept j = some t ∨ j = n ∧ t = s)

structure Allotted (p : Provider) : Prop where
  distinct : ∀ k k' s, p.kept k = some s → p.kept k' = some s → k = k'
  given : ∀ k s, p.kept k = some s → s < p.nextSocket

lemma allotted_new (endpoint : Endpoint) (config : Config) : Allotted (new endpoint config) where
  distinct k k' s h := by cases k <;> cases h
  given k s h := by cases k <;> cases h

lemma Allotted.pass (h : Allotted p) (hp : Passes p q) : Allotted q := by
  cases hp with
  | rest hn hs =>
    exact ⟨fun k k' s hk hk' => h.distinct k k' s (hs k s hk) (hs k' s hk'),
      fun k s hk => hn ▸ h.given k s (hs k s hk)⟩
  | gain hn hs =>
    refine ⟨fun k k' s hk hk' => ?_, fun k s hk => ?_⟩
    · rcases hs k s hk with hk | ⟨hj, he⟩ <;> rcases hs k' s hk' with hk' | ⟨hj', he'⟩
      · exact h.distinct k k' s hk hk'
      · exact absurd (h.given k s hk) (he' ▸ Nat.lt_irrefl _)
      · exact absurd (h.given k' s hk') (he ▸ Nat.lt_irrefl _)
      · exact hj.trans hj'.symm
    · rw [hn]
      rcases hs k s hk with hk | ⟨-, rfl⟩
      · exact Nat.lt_succ_of_lt (h.given k s hk)
      · exact Nat.lt_succ_self _
  | pass hn hr hp hq hs =>
    rename_i k₁ k₂ t
    -- whoever still has the socket that was passed on would have been its keeper before
    have gone : ∀ j, q.kept j = some t → p.kept j ≠ some t := fun j hj hj' =>
      hq (h.distinct j k₁ t hj' hp ▸ hj)
    refine ⟨fun k k' s hk hk' => ?_, fun k s hk => ?_⟩
    · rcases hs k s hk with hold | ⟨hj, he⟩ <;> rcases hs k' s hk' with hold' | ⟨hj', he'⟩
      · exact h.distinct k k' s hold hold'
      · exact absurd (he' ▸ hold) (gone k (he' ▸ hk))
      · exact absurd (he ▸ hold') (gone k' (he ▸ hk'))
      · exact hj.trans hj'.symm
    · rw [hn]
      rcases hs k s hk with hk | ⟨-, rfl⟩
      · exact h.given k s hk
      · exact h.given _ _ hp

structure Listener.Keeps (li lj : Listener) : Prop where
  reader : lj.reader = li.reader
  replacement : lj.replacement = li.replacement
  buffer : lj.isFinished = false → li.isFinished = false ∧ (lj.framer = {} ∨ lj.framer = li.framer)

lemma Listener.Keeps.refl (li : Listener) : li.Keeps li := ⟨rfl, rfl, fun h => ⟨h, Or.inr rfl⟩⟩

structure Aside (p : Provider) (a : Option CallId) (q : Provider) : Prop where
  nextSocket : q.nextSocket = p.nextSocket
  listeners : ∀ l lj, q.listeners.get? l = some lj → ∃ li, p.listeners.get? l = some li ∧ li.Keeps lj
  others : ∀ b, a ≠ some b → q.phaseOf b = p.phaseOf b
  hands : ∀ c ph, a = some c → q.phaseOf c = some ph → ph.hands = none

lemma Listener.Keeps.trans {lk : Listener} (h : li.Keeps lj) (g : lj.Keeps lk) : li.Keeps lk where
  reader := g.reader.trans h.reader
  replacement := g.replacement.trans h.replacement
  buffer hf := by
    obtain ⟨hj, he | he⟩ := g.buffer hf
    · exact ⟨(h.buffer hj).1, Or.inl he⟩
    · exact he ▸ h.buffer hj

lemma keeps_of_eq (h : q.listeners = p.listeners) :
    ∀ l lj, q.listeners.get? l = some lj → ∃ li, p.listeners.get? l = some li ∧ li.Keeps lj :=
  fun _ lj hl => ⟨lj, h ▸ hl, .refl lj⟩

lemma keeps_modify {g : Listener → Listener} (h : q.listeners = p.listeners.modify l g)
    (hg : ∀ li, p.listeners.get? l = some li → li.Keeps (g li)) :
    ∀ k lj, q.listeners.get? k = some lj → ∃ li, p.listeners.get? k = some li ∧ li.Keeps lj := by
  intro k lj hk
  rw [h, Table.get?_modify] at hk
  split at hk
  · rename_i he
    subst he
    obtain ⟨li, hl, rfl⟩ := Option.map_eq_some_iff.mp hk
    exact ⟨li, hl, hg li hl⟩
  · exact ⟨lj, hk, .refl lj⟩

def Retains (p q : Provider) : Prop :=
  ∀ l lj, q.listeners.get? l = some lj → lj.isFinished = false →
    lj.framer = {} ∨ ∃ li, p.listeners.get? l = some li ∧ li.isFinished = false ∧
      lj.reader = li.reader ∧ lj.framer = li.framer

lemma kept_call (others : ∀ b, a ≠ some b → q.phaseOf b = p.phaseOf b)
    (hands : ∀ c ph, a = some c → q.phaseOf c = some ph → ph.hands = none)
    (hk : q.kept (.call b) = some s) : p.kept (.call b) = some s := by
  obtain ⟨ph, hb, hs⟩ := Option.bind_eq_some_iff.mp hk
  by_cases ha : a = some b
  · cases (hands b ph ha hb).symm.trans hs
  · exact Option.bind_eq_some_iff.mpr ⟨ph, others b ha ▸ hb, hs⟩

lemma Aside.passes (h : Aside p a q) : Passes p q := by
  refine .rest h.nextSocket fun k s hk => ?_
  cases k with
  | reader l =>
    obtain ⟨lj, hl, rfl⟩ := Option.map_eq_some_iff.mp hk
    obtain ⟨li, hl', hr⟩ := h.listeners l lj hl
    exact Option.map_eq_some_iff.mpr ⟨li, hl', hr.reader.symm⟩
  | next l =>
    obtain ⟨lj, hl, hs⟩ := Option.bind_eq_some_iff.mp hk
    obtain ⟨li, hl', hr⟩ := h.listeners l lj hl
    exact Option.bind_eq_some_iff.mpr ⟨li, hl', hr.replacement ▸ hs⟩
  | call b => exact kept_call h.others h.hands hk

lemma Aside.retains (h : Aside p a q) : Retains p q := fun l lj hl hf => by
  obtain ⟨li, hl', hk⟩ := h.listeners l lj hl
  obtain ⟨hf', hb⟩ := hk.buffer hf
  exact hb.imp_right fun hb => ⟨li, hl', hf', hk.reader, hb⟩

lemma aside_setPhase (hl : m.listeners = p.listeners) (hn : m.nextSocket = p.nextSocket)
    (hc : m.calls = p.calls) (hh : ph.hands = none) : Aside p (some c) (m.setPhase c ph) where
  nextSocket := hn
  listeners := keeps_of_eq hl
  others b hb := by
    rw [phaseOf_setPhase, if_neg fun h => hb (congrArg some h)]
    exact phaseOf_of_calls hc b
  hands := by
    rintro _ ph' ⟨⟩ hp
    rwa [eq_of_setPhase hp]

lemma aside_settle {y : Request} {r : Except Failure Response} (hl : m.listeners = p.listeners)
    (hn : m.nextSocket = p.nextSocket) (hc : m.calls = p.calls) : Aside p (some c) (m.settle c y r) := by
  obtain ⟨k, x, -, -, he⟩ := settle_eq m c y r
  rw [he]
  exact aside_setPhase hl hn hc rfl

lemma aside_settleDispatch {d : Dispatch} {r : Except Failure Response} (hl : m.listeners = p.listeners)
    (hn : m.nextSocket = p.nextSocket) (hc : m.calls = p.calls) :
    Aside p (some c) (m.settleDispatch c d r) :=
  aside_settle (m := { m with correlator := _ }) hl hn hc

@[simp] lemma nextSocket_release (p : Provider) : p.release.nextSocket = p.nextSocket := by
  obtain ⟨k, ns, h⟩ := release_eq p
  rw [h]

lemma aside_release (hl : m.listeners = p.listeners) (hn : m.nextSocket = p.nextSocket) (hc : m.calls = p.calls)
    (hh : ph.hands = none) : Aside p (some c) (m.release.setPhase c ph) :=
  aside_setPhase ((listeners_release m).trans hl) ((nextSocket_release m).trans hn)
    ((calls_release m).trans hc) hh

lemma aside_failSend (p : Provider) (c : CallId) (d : Dispatch) (f : Failure) :
    Aside p (some c) (p.failSend c d f) :=
  aside_settleDispatch (m := p.release.withdrawing d.request.id _) (listeners_release p)
    (nextSocket_release p) (calls_release p)

lemma nextSocket_unlock (p : Provider) (c : CallId) : (p.unlock c).nextSocket = p.nextSocket := by
  rw [unlock]
  split
  · exact nextSocket_release p
  · rfl

lemma aside_drop (hp : p.phaseOf c = some ph) : Aside p (some c) (p.drop c) where
  nextSocket := by
    have hg : (p.giveBack ph).nextSocket = p.nextSocket := by
      simp only [giveBack]
      split <;> rfl
    simp only [drop, hp]
    exact (nextSocket_unlock _ c).trans hg
  listeners := by
    obtain ⟨-, hl, -⟩ := unlock_rest { p.giveBack ph with calls := (p.giveBack ph).calls.erase c } c
    simp only [drop, hp]
    rw [hl]
    show ∀ l lj, (p.giveBack ph).listeners.get? l = some lj → _
    simp only [giveBack]
    split
    · exact keeps_of_eq rfl
    · exact keeps_modify rfl fun li _ => ⟨rfl, rfl, fun h => ⟨h, Or.inr rfl⟩⟩
    · exact keeps_of_eq rfl
  others b hb := by
    rw [phaseOf, calls_drop hp, Table.get?_erase, if_neg fun h => hb (congrArg some h)]
    rfl
  hands := by
    rintro _ ph' ⟨⟩ hc
    cases (phaseOf_drop hp).symm.trans hc

lemma aside_read (p : Provider) (c : CallId) (s : SubscriptionId) (epoch : Nat) :
    Aside p (some c) (p.readNotification c s epoch) := by
  rw [readNotification]
  split
  · exact aside_setPhase rfl rfl rfl rfl
  · exact aside_setPhase rfl rfl rfl rfl

lemma aside_letGo {conn : Connection} {next : AfterTeardown} :
    Aside p (some c) (((p.letGo conn.listener).abortListener conn.listener).setPhase c
      (.joining conn.listener next)) := by
  have h : Aside ((p.letGo conn.listener).abortListener conn.listener) (some c) _ :=
    aside_setPhase (c := c) rfl rfl rfl (rfl : (Phase.joining conn.listener next).hands = none)
  refine { h with listeners := fun l lk hl => ?_ }
  obtain ⟨lj, hj, hk⟩ := keeps_modify (p := p.letGo conn.listener) (g := fun li => { li with aborted := true })
    rfl (fun li _ => ⟨rfl, rfl, fun h => ⟨h, Or.inr rfl⟩⟩) l lk hl
  obtain ⟨li, hi, hk'⟩ := keeps_modify (p := p) (g := fun li => { li with released := true })
    rfl (fun li _ => ⟨rfl, rfl, fun h => ⟨h, Or.inr rfl⟩⟩) l lj hj
  exact ⟨li, hi, hk'.trans hk⟩

lemma passes_spawn (hn : q.nextSocket = p.nextSocket + 1)
    (hl : q.listeners = p.listeners.set l { reader := p.nextSocket })
    (others : ∀ b, some c ≠ some b → q.phaseOf b = p.phaseOf b)
    (hands : ∀ b ph, some c = some b → q.phaseOf b = some ph → ph.hands = none) :
    Passes p q ∧ Retains p q := by
  refine ⟨.gain (k := .reader l) hn fun j s hk => ?_, fun k lj hk hf => ?_⟩
  · cases j with
    | reader k =>
      simp only [kept, hl, Table.get?_set] at hk ⊢
      split at hk
      · rename_i he
        exact Or.inr ⟨congrArg Keeper.reader he.symm, (Option.some.inj hk).symm⟩
      · exact Or.inl hk
    | next k =>
      simp only [kept, hl, Table.get?_set] at hk ⊢
      split at hk
      · cases hk
      · exact Or.inl hk
    | call b => exact Or.inl (kept_call others hands hk)
  · rw [hl, Table.get?_set] at hk
    split at hk
    · cases hk
      exact Or.inl rfl
    · exact Or.inr ⟨lj, hk, hf, rfl, rfl⟩

lemma passes_renew (hn : q.nextSocket = p.nextSocket + 1) (hl : q.listeners = p.listeners)
    (others : ∀ b, some c ≠ some b → q.phaseOf b = p.phaseOf b)
    (hp : q.phaseOf c = some ph) (hh : ph.hands = some p.nextSocket) : Passes p q ∧ Retains p q := by
  refine ⟨.gain (k := .call c) hn fun j s hk => ?_, fun l lj hj hf => Or.inr ⟨lj, hl ▸ hj, hf, rfl, rfl⟩⟩
  cases j with
  | reader k | next k => exact Or.inl (by simpa only [kept, hl] using hk)
  | call b =>
    by_cases hb : c = b
    · subst hb
      simp only [kept, hp, Option.bind_some, hh] at hk
      exact Or.inr ⟨rfl, (Option.some.inj hk).symm⟩
    · exact Or.inl (by simpa only [kept, others b fun h => hb (Option.some.inj h)] using hk)

lemma passes_hand (hn : q.nextSocket = p.nextSocket)
    (hl : q.listeners = p.listeners.modify l fun li => { li with replacement := some s })
    (others : ∀ b, some c ≠ some b → q.phaseOf b = p.phaseOf b)
    (hands : ∀ b ph, some c = some b → q.phaseOf b = some ph → ph.hands = none)
    (hp : p.phaseOf c = some ph) (hh : ph.hands = some s) : Passes p q ∧ Retains p q := by
  have hq : q.kept (.call c) ≠ some s := fun h => by
    obtain ⟨ph, hc, hs⟩ := Option.bind_eq_some_iff.mp h
    cases (hands c ph rfl hc).symm.trans hs
  refine ⟨.pass (k := .call c) (n := .next l) hn nofun (by simp only [kept, hp, Option.bind_some, hh]) hq
    fun j t hk => ?_, fun k lj hk hf => Or.inr ?_⟩
  · cases j with
    | reader k =>
      simp only [kept, hl, Table.get?_modify] at hk ⊢
      split at hk
      · rw [Option.map_map] at hk
        exact Or.inl hk
      · exact Or.inl hk
    | next k =>
      simp only [kept, hl, Table.get?_modify] at hk ⊢
      split at hk
      · rename_i he
        obtain ⟨lj, hj, ht⟩ := Option.bind_eq_some_iff.mp hk
        obtain ⟨li, -, rfl⟩ := Option.map_eq_some_iff.mp hj
        exact Or.inr ⟨congrArg Keeper.next he.symm, (Option.some.inj ht).symm⟩
      · exact Or.inl hk
    | call b => exact Or.inl (kept_call others hands hk)
  · rw [hl, Table.get?_modify] at hk
    split at hk
    · rename_i he
      obtain ⟨li, hi, rfl⟩ := Option.map_eq_some_iff.mp hk
      exact ⟨li, he ▸ hi, hf, rfl, rfl⟩
    · exact ⟨lj, hk, hf, rfl, rfl⟩

lemma passes_resume (h : p.listeners.get? l = some li) (hs : li.replacement = some s) :
    Passes p (p.resume l s) ∧ Retains p (p.resume l s) := by
  have hq : ∃ q : Provider, p.resume l s = q ∧ q.nextSocket = p.nextSocket ∧ q.calls = p.calls ∧
      q.listeners = p.listeners.modify l fun li =>
        { li with reader := s, framer := {}, replacement := none, phase := .resting } := by
    refine ⟨_, rfl, ?_⟩
    unfold resume
    dsimp only
    split <;> exact ⟨rfl, rfl, rfl⟩
  obtain ⟨q, he, hn, hc, hl⟩ := hq
  rw [he]
  have hgone : q.kept (.next l) ≠ some s := by
    simp [kept, hl, h]
  refine ⟨.pass (k := .next l) (n := .reader l) hn (by simp) (by simp [kept, h, hs]) hgone fun j t hk => ?_,
    fun k lj hk hf => ?_⟩
  · cases j with
    | reader k =>
      simp only [kept, hl, Table.get?_modify] at hk ⊢
      split at hk
      · rename_i he
        obtain ⟨lj, -, rfl⟩ := Option.map_eq_some_iff.mp ((Option.map_map _ _ _).symm.trans hk)
        exact Or.inr ⟨congrArg Keeper.reader he.symm, rfl⟩
      · exact Or.inl hk
    | next k =>
      simp only [kept, hl, Table.get?_modify] at hk ⊢
      split at hk
      · obtain ⟨lj, hj, ht⟩ := Option.bind_eq_some_iff.mp hk
        obtain ⟨li, -, rfl⟩ := Option.map_eq_some_iff.mp hj
        cases ht
      · exact Or.inl hk
    | call b => exact Or.inl (by simpa only [kept, phaseOf, hc] using hk)
  · rw [hl, Table.get?_modify] at hk
    split at hk
    · obtain ⟨li, -, rfl⟩ := Option.map_eq_some_iff.mp hk
      exact Or.inl rfl
    · exact Or.inr ⟨lj, hk, hf, rfl, rfl⟩

lemma call_passes (hm : Calm F p (some c) q) : Passes p q ∧ Retains p q := by
  have aside : Aside p (some c) q → Passes p q ∧ Retains p q := fun h => ⟨h.passes, h.retains⟩
  cases hm with
  | call op =>
    refine aside ⟨rfl, keeps_of_eq rfl, calm_others (F := F) (.call op), ?_⟩
    rintro _ ph ⟨⟩ hp
    obtain rfl : ph = .start := by simpa [newCall, phaseOf, eq_comm] using hp
    rfl
  | seek => exact aside (aside_setPhase rfl rfl rfl rfl)
  | refuse => exact aside (aside_settle rfl rfl rfl)
  | claim => exact aside (aside_setPhase rfl rfl rfl rfl)
  | collect hp =>
    refine aside ⟨rfl, keeps_of_eq rfl, calm_others (F := F) (.collect hp), ?_⟩
    rintro _ ph ⟨⟩ hq
    simp [phaseOf] at hq
  | drop hp => exact aside (aside_drop hp)
  | read => exact aside (aside_read p c _ _)
  | leave => exact aside (aside_release rfl rfl rfl rfl)
  | yield =>
    exact aside (aside_setPhase (listeners_release p) (nextSocket_release p) (calls_release p) rfl)
  | attempt | replace | disconnect | reset | write | pause | retry | resetClosed | progress | breakPipe
  | reclaim => exact aside (aside_setPhase rfl rfl rfl rfl)
  | giveUp => exact aside (aside_failSend p c _ _)
  | letGo => exact aside aside_letGo
  | exhaust => exact aside (aside_release rfl rfl rfl rfl)
  | written => exact aside (aside_release rfl rfl rfl rfl)
  | reclaimRefused | receive | closedOut | timeOut => exact aside (aside_settleDispatch rfl rfl rfl)
  | connect hp =>
    refine passes_spawn (nextSocket_release _) (listeners_release _) (calm_others (F := F) (.connect hp)) ?_
    rintro _ ph ⟨⟩ hq
    rw [eq_of_setPhase hq]
    rfl
  | resetOpened hp =>
    exact passes_renew rfl rfl (calm_others (F := F) (.resetOpened hp))
      (phaseOf_setPhase_self (p := { p.takeSocket.2 with slot := _ }) hp) rfl
  | hand hp hs hf hr =>
    refine passes_hand rfl rfl (calm_others (F := F) (.hand hp hs hf hr)) ?_ hp rfl
    rintro _ ph ⟨⟩ hq
    rw [eq_of_setPhase hq]
    rfl

lemma aside_listener {g : Listener → Listener} (hc : q.calls = p.calls) (hn : q.nextSocket = p.nextSocket)
    (hl : q.listeners = p.listeners.modify l g) (hg : ∀ li, p.listeners.get? l = some li → li.Keeps (g li)) :
    Aside p none q :=
  ⟨hn, keeps_modify hl hg, fun b _ => phaseOf_of_calls hc b, nofun⟩

lemma aside_same (hn : q.nextSocket = p.nextSocket) (hl : q.listeners = p.listeners) (hc : q.calls = p.calls) :
    Aside p none q :=
  ⟨hn, keeps_of_eq hl, fun b _ => phaseOf_of_calls hc b, nofun⟩

lemma Listener.keeps_finished (li : Listener) (r : ListenerEnd) : li.Keeps { li with phase := .finished r } :=
  ⟨rfl, rfl, nofun⟩

lemma aside_fault (h : p.Reads l) (f : Failure) : Aside p none (p.fault l f) := by
  obtain ⟨li, hl, ha⟩ := h
  cases hc : p.config.policy with
  | strict =>
    simp only [fault, hc]
    exact aside_listener (g := fun li => { li with phase := .finished (.failed f) }) rfl rfl rfl
      fun li _ => li.keeps_finished _
  | lenient =>
    simp only [fault, hc]
    refine aside_listener (g := fun li => { li with framer := {}, phase := .resting }) rfl rfl rfl
      fun lj hj => ⟨rfl, rfl, fun _ => ⟨?_, Or.inl rfl⟩⟩
    exact Option.some.inj (hl.symm.trans hj) ▸ ha.unfinished

lemma aside_orphan (h : p.Reads l) : Aside p none (p.orphan l) := by
  obtain ⟨li, hl, ha⟩ := h
  refine aside_listener (g := fun li => { li with phase := .orphaned }) rfl rfl rfl
    fun lj hj => ⟨rfl, rfl, fun _ => ⟨?_, Or.inr rfl⟩⟩
  exact Option.some.inj (hl.symm.trans hj) ▸ ha.unfinished

lemma upheaval_passes (hu : Upheaval p q) : Passes p q ∧ Retains p q := by
  have aside : ∀ {a}, Aside p a q → Passes p q ∧ Retains p q := fun h => ⟨h.passes, h.retains⟩
  cases hu with
  | tear hp hf =>
    rename_i c l next
    cases next with
    | connect => exact aside (aside_setPhase (p := p) (c := c) rfl rfl rfl rfl)
    | disconnect => exact aside (aside_release (p := p) (c := c) rfl rfl rfl rfl)
  | orphan hr => exact aside (aside_orphan hr)
  | fail hr hs f => exact aside (aside_fault hr f)

lemma aside_turn {lp : ListenerPhase} (hl : p.listeners.get? l = some li) (hf : li.isFinished = false) :
    Aside p none (p.setListener l fun li => { li with phase := lp }) :=
  aside_listener (g := fun li => { li with phase := lp }) rfl rfl rfl fun _ hj =>
    ⟨rfl, rfl, fun _ => ⟨Option.some.inj (hl.symm.trans hj) ▸ hf, Or.inr rfl⟩⟩

lemma aside_endListener (p : Provider) (l : ListenerId) (r : ListenerEnd) :
    Aside p none (p.endListener l r) :=
  aside_listener (g := fun li => { li with phase := .finished r }) rfl rfl rfl fun li _ => li.keeps_finished r

lemma listen_passes (p : Provider) (l : ListenerId) :
    Passes p (p.listen l) ∧ Retains p (p.listen l) := by
  have aside : ∀ {q}, Aside p none q → Passes p q ∧ Retains p q := fun h => ⟨h.passes, h.retains⟩
  have stay : Aside p none p := aside_same rfl rfl rfl
  rw [listen]
  split
  · exact aside stay
  · rename_i li hl
    split
    · exact aside stay
    · rename_i hf
      have hf : li.isFinished = false := Bool.eq_false_iff.mpr hf
      split
      · exact aside (aside_endListener p l _)
      · split
        · exact aside (aside_turn hl hf)
        · exact passes_resume hl ‹_›
        · exact aside (aside_endListener p l _)
        · exact aside (aside_turn hl hf)
        · exact aside stay

end SocketRpc.Provider
