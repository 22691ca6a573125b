import SocketRpc.Proofs.Provider.Attempts
import SocketRpc.Proofs.Provider.Correlation
import SocketRpc.Proofs.Provider.Renewals

namespace SocketRpc.Provider

variable {p q m : Provider} {b c : CallId} {ph : Phase} {e : Event} {conn : Connection}

lemma isLive_iff : p.isLive = true ↔ ∃ conn, p.Up conn := by
  refine ⟨fun h => ?_, fun ⟨conn, hs, hl, hc⟩ => by simp [isLive, usable, hs, hl, hc]⟩
  rw [isLive] at h
  cases hs : p.slot with
  | none => simp [hs] at h
  | some conn =>
    simp only [hs, Option.map_some, Option.getD_some, usable, Bool.and_eq_true, Bool.not_eq_true'] at h
    exact ⟨conn, hs, h.1, h.2⟩

lemma isLive_of_vacant (hs : p.slot = none) : p.isLive = false := by rw [isLive, hs]; rfl

lemma unaltered_of_not_live (h : p.isLive = false) (hp : p.isLive = true) : Unaltered p q := by
  cases h.symm.trans hp

lemma isFinished_same (h : q.listeners = p.listeners) (l : ListenerId) : q.isFinished l = p.isFinished l := by
  rw [isFinished, isFinished, h]

lemma Unaltered.trans (h : Unaltered p m) (g : Unaltered m q) : Unaltered p q :=
  ⟨g.correlator.trans h.correlator, g.state.trans h.state, g.slot.trans h.slot, g.listeners.trans h.listeners⟩

lemma Unaltered.up (h : Unaltered p q) : q.Up conn ↔ p.Up conn := by
  have same : q.slot = some conn ∧ q.isFinished conn.listener = false ∧ q.correlator.peerClosed = false ↔
      p.slot = some conn ∧ p.isFinished conn.listener = false ∧ p.correlator.peerClosed = false := by
    rw [h.slot, h.correlator, isFinished_same h.listeners]
  exact ⟨fun hq => have ⟨a, b, c⟩ := same.mp ⟨hq.1, hq.2, hq.3⟩; ⟨a, b, c⟩,
    fun hp => have ⟨a, b, c⟩ := same.mpr ⟨hp.1, hp.2, hp.3⟩; ⟨a, b, c⟩⟩

lemma Unaltered.isLive (h : Unaltered p q) : q.isLive = p.isLive := by
  rw [Bool.eq_iff_iff, isLive_iff, isLive_iff]
  exact exists_congr fun _ => h.up

lemma phase_kept (hk : c < p.nextCall) (hp : p.phaseOf c = some ph) (hn : ∀ r, ph ≠ .done r) (hd : e ≠ .drop c) :
    (p.step e).phaseOf c ≠ none := by
  intro hq
  by_cases ht : e = .collect c
  · subst ht
    have hh : ph.heeds (.collect c) = false := by
      cases ph <;> first | rfl | exact absurd rfl (hn _)
    rw [step_unheeded (e := .collect c) hk hp rfl hh, hp] at hq
    cases hq
  · obtain ⟨op, hc⟩ := call_of_phase hp
    have hs := known_step (Option.isSome_of_mem hc) hd ht
    rw [Option.map_eq_none_iff.mp hq] at hs
    cases hs

inductive Approaches (p : Provider) (c : CallId) : Prop where
  | looks (h : p.calls.get? c = some { op := .ensureConnected } ∨ p.phaseOf c = some (.locking .ensureConnected))
  | seeks (h : p.Seeks c)
  | replaces (h : p.Replaces c)
  | opens {t : Backoff.Progress} (h : p.phaseOf c = some (.opening t))
  | pauses {wake : Nat} {t : Backoff.Progress} (h : p.phaseOf c = some (.pausing wake t))

inductive Arrives (p q : Provider) : Except Failure Reply → Prop where
  | usable (hl : q.isLive = true) (hu : p.isLive = true → Unaltered p q) : Arrives p q (.ok .nothing)
  | exhausted (hl : p.isLive = false) (endpoint : String) (n : Nat) (reason : String) :
      Arrives p q (.error (.connectionFailed endpoint n reason))

inductive Nears (p : Provider) (c : CallId) (q : Provider) : Prop where
  | goesOn (h : q.Approaches c) (hu : p.isLive = true → Unaltered p q)
  | returns {r : Except Failure Reply} (h : q.phaseOf c = some (.done r)) (ha : Arrives p q r)

lemma nears_same (h : p.Approaches c) (he : q = p) : Nears p c q := by
  rw [he]
  exact .goesOn h fun _ => .refl p

lemma Nears.of_unaltered (h : Nears m c q) (hm : Unaltered p m) : Nears p c q := by
  have hl := hm.isLive
  cases h with
  | goesOn h hu => exact .goesOn h fun hp => hm.trans (hu (hl.trans hp))
  | returns h ha =>
    refine .returns h ?_
    cases ha with
    | usable hq hu => exact .usable hq fun hp => hm.trans (hu (hl.trans hp))
    | exhausted hp => exact .exhausted (hl.symm.trans hp) _ _ _

lemma Sees.nears (h : Sees p c q) : Nears p c q := by
  cases h with
  | usable hl hq hu => exact .returns hq (.usable (hu.isLive.trans hl) fun _ => hu)
  | vacant hl hq => exact .goesOn (.opens hq) (unaltered_of_not_live hl)
  | stale hl hq => exact .goesOn (.replaces (Or.inl ⟨_, hq⟩)) (unaltered_of_not_live hl)

lemma unaltered_askLock (p : Provider) (c : CallId) (r : Errand) : Unaltered p (p.askLock c r) := ⟨rfl, rfl, rfl, rfl⟩

lemma nears_ensureLocked (h : p.Holds c .ensureConnected) : Nears p c (p.ensureLocked c) := by
  have hr := unaltered_release p
  have hp : p.release.phaseOf c = some (.locking .ensureConnected) := (phaseOf_release p c).trans h.1
  rw [ensureLocked]
  split
  · rename_i hl
    have hu : Unaltered p (p.releaseAndFinish c (.ok .nothing)) := ⟨hr.1, hr.2, hr.3, hr.4⟩
    exact .returns (phaseOf_setPhase_self hp) (.usable (hu.isLive.trans hl) fun _ => hu)
  -- another call may have waited for the lock
  · rw [withLock]
    split
    · exact (sees_connectLocked (holds_askLock hp ‹_›)).nears.of_unaltered
        (hr.trans (unaltered_askLock _ c .connect))
    · refine .goesOn (.seeks (Or.inr ?_)) fun _ => hr.trans (unaltered_askLock _ c .connect)
      exact phaseOf_setPhase_self (p := { p.release with lock := p.release.lock.ask c }) hp

lemma nears_looks (h : p.calls.get? c = some { op := .ensureConnected } ∨
      p.phaseOf c = some (.locking .ensureConnected)) (hk : c < p.nextCall) (hs : p.subject e = some c)
    (hd : e ≠ .drop c) : Nears p c (p.step e) := by
  obtain ⟨ph, hp, hy⟩ : ∃ ph, p.phaseOf c = some ph ∧ ph.yields :=
    h.elim (fun h => ⟨_, phaseOf_of_call h, rfl⟩) fun h => ⟨_, h, rfl⟩
  by_cases ht : e = .turn c
  · subst ht
    obtain ⟨m, hm, hl, hq | ⟨hh, hq⟩⟩ := turn_errand rfl h <;> rw [Provider.step, hq]
    all_goals
      have hu : Unaltered p m := by
        rcases hm with rfl | rfl
        · exact .refl _
        · exact unaltered_askLock _ _ _
    · exact .goesOn (.looks (Or.inr hl)) fun _ => hu
    · exact (nears_ensureLocked hh).of_unaltered hu
  · exact nears_same (.looks h) (step_yields hk hp hy hs ht hd)

lemma Guarded.not_live (h : Guarded p) (hp : p.phaseOf c = some ph) (ha : ph.apart) : p.isLive = false :=
  isLive_of_vacant (slot_of_listening (h.empty c ph hp ha))

lemma up_connected (h : Whole p) {t : Backoff.Progress} (hp : p.phaseOf c = some (.opening t)) :
    (((p.takeSocket.2.spawn p.takeSocket.1).publish .connected).releaseAndFinish c (.ok .nothing)).Up
      ⟨p.nextSocket, p.nextListener⟩ := by
  obtain ⟨hc, -, hs, hl⟩ := unaltered_release ((p.takeSocket.2.spawn p.takeSocket.1).publish .connected)
  refine ⟨hs, ?_, (congrArg Correlator.peerClosed hc).trans (h.entire fun l => h.orderly.guarded.detached hp)⟩
  have hg : (((p.takeSocket.2.spawn p.takeSocket.1).publish .connected).releaseAndFinish c
      (.ok .nothing)).listeners.get? p.nextListener = some { reader := p.nextSocket } := by
    rw [show (releaseAndFinish _ c (.ok .nothing)).listeners = _ from hl]
    exact (Table.get?_set _ _ _ _).trans (if_pos rfl)
  exact isFinished_eq hg

lemma nears_opened (h : Whole p) {t : Backoff.Progress} (hp : p.phaseOf c = some (.opening t))
    (r : Except Failure Unit) : Nears p c (p.opened c r) := by
  have hl := h.orderly.guarded.not_live hp rfl
  cases r with
  | ok =>
    have hq : p.opened c (.ok ()) = ((p.takeSocket.2.spawn p.takeSocket.1).publish .connected).releaseAndFinish c
        (.ok .nothing) := by simp only [opened, hp]
    rw [hq]
    exact .returns (phaseOf_setPhase_self ((phaseOf_release _ c).trans hp))
      (.usable (isLive_iff.mpr ⟨_, up_connected h hp⟩) (unaltered_of_not_live hl))
  | error f =>
    simp only [opened, hp]
    split
    · exact .goesOn (.pauses (phaseOf_setPhase_self hp)) (unaltered_of_not_live hl)
    · exact .returns (phaseOf_setPhase_self ((phaseOf_release _ c).trans hp)) (.exhausted hl _ _ _)

lemma nears_pausing (h : Whole p) {wake : Nat} {t : Backoff.Progress}
    (hp : p.phaseOf c = some (.pausing wake t)) : Nears p c (p.turn c) := by
  obtain ⟨op, hc⟩ := call_of_phase hp
  simp only [turn, hc]
  split
  · exact .goesOn (.opens (phaseOf_setPhase_self hp)) (unaltered_of_not_live (h.orderly.guarded.not_live hp rfl))
  · exact nears_same (.pauses hp) rfl

theorem Approaches.step (h : p.Approaches c) (hw : Whole p) (hk : c < p.nextCall) (hs : p.subject e = some c)
    (hd : e ≠ .drop c) : Nears p c (p.step e) := by
  have stays : ∀ {ph}, p.phaseOf c = some ph → ph.heeds e = false → Nears p c (p.step e) := fun hp hh =>
    nears_same h (step_unheeded hk hp hs hh)
  cases h with
  | looks h => exact nears_looks h hk hs hd
  | seeks h =>
    rcases h.step hk hs with ⟨h, hu⟩ | h | hn
    · exact .goesOn (.seeks h) fun _ => hu
    · exact h.nears
    · rcases h.phase with hp | hp
      · exact absurd hn (phase_kept hk hp nofun hd)
      · exact absurd hn (phase_kept hk hp nofun hd)
  | replaces h =>
    obtain ⟨ph, hp, ha, -⟩ := h.phase
    have hl := hw.orderly.guarded.not_live hp ha
    rcases h.step hk e with h | hq | hn
    · exact .goesOn (.replaces h) (unaltered_of_not_live hl)
    · exact .goesOn (.opens hq) (unaltered_of_not_live hl)
    · refine absurd hn (phase_kept hk hp ?_ hd)
      rintro r rfl
      cases ha
  | opens h =>
    cases hh : Phase.heeds (.opening _) e with
    | false => exact stays h hh
    | true =>
      cases e with
      | opened b r =>
        cases hs
        exact nears_opened hw h r
      | drop b =>
        cases hs
        exact absurd rfl hd
      | _ => cases hh
  | pauses h =>
    cases hh : Phase.heeds (.pausing _ _) e with
    | false => exact stays h hh
    | true =>
      cases e with
      | turn b =>
        cases hs
        exact nears_pausing hw h
      | drop b =>
        cases hs
        exact absurd rfl hd
      | _ => cases hh

lemma Approaches.other (h : p.Approaches c) (hs : p.subject e ≠ some c) : (p.step e).Approaches c := by
  have hp := phaseOf_other hs
  have hc := calls_other p hs
  cases h with
  | looks h => exact .looks (by rwa [hc, hp])
  | seeks h => exact .seeks (by rwa [Seeks, hc, hp])
  | replaces h => exact .replaces (by rwa [Replaces, hp])
  | opens h => exact .opens (hp.trans h)
  | pauses h => exact .pauses (hp.trans h)

lemma turn_live (hc : p.calls.get? c = some { op := .ensureConnected }) (hl : p.lock.holder = none)
    (hv : p.isLive = true) : (p.turn c).phaseOf c = some (.done (.ok .nothing)) ∧ Unaltered p (p.turn c) := by
  have hp : p.phaseOf c = some .start := phaseOf_of_call hc
  have hm := holds_askLock (e := .ensureConnected) hp hl
  have hu := unaltered_askLock p c .ensureConnected
  have hq : p.turn c = (p.askLock c .ensureConnected).releaseAndFinish c (.ok .nothing) := by
    simp only [turn, hc, begin, run, withLock, hl, perform, ensureLocked, hu.isLive.trans hv, if_true]
  rw [hq]
  refine ⟨phaseOf_setPhase_self ((phaseOf_release _ c).trans hm.1), hu.trans ?_⟩
  obtain ⟨hk, hst, hs, hls⟩ := unaltered_release (p.askLock c .ensureConnected)
  exact ⟨hk, hst, hs, hls⟩

def Departs (p : Provider) (c : CallId) : Prop := p.Asks c ∨ ∃ conn, p.TakesDown c conn

theorem Departs.step (h : p.Departs c) (ho : Orderly p) (hk : c < p.nextCall) (hs : p.subject e = some c)
    (hd : e ≠ .drop c) : (p.step e).Departs c ∨
      (p.step e).phaseOf c = some (.done (.ok .nothing)) ∧ (p.step e).slot = none := by
  rcases h with h | ⟨conn, h⟩
  · rcases h.step hk hs with h | hn
    · cases h with
      | waits h => exact Or.inl (Or.inl h)
      | finds hs hq => exact Or.inl (Or.inr ⟨_, Or.inl hq⟩)
      | misses hn hh hq hu => exact Or.inr ⟨hq, hu.slot.trans hn⟩
    · rcases h with h | h
      · exact absurd hn (phase_kept hk (phaseOf_of_call h) nofun hd)
      · exact absurd hn (phase_kept hk h nofun hd)
  · obtain ⟨ph, hp, ha⟩ := h.apart
    rcases h.step hk hs with ⟨h, -⟩ | h | hn
    · exact Or.inl (Or.inr ⟨conn, h⟩)
    · exact Or.inr ⟨h.done, h.slot.trans (slot_of_listening (ho.guarded.empty c ph hp ha))⟩
    · refine absurd hn (phase_kept hk hp ?_ hd)
      rintro r rfl
      cases ha

lemma Departs.other (h : p.Departs c) (hs : p.subject e ≠ some c) : (p.step e).Departs c := by
  have hp := phaseOf_other hs
  rcases h with h | ⟨conn, h⟩
  · exact Or.inl (by rwa [Asks, calls_other p hs, hp])
  · exact Or.inr ⟨conn, by rwa [TakesDown, hp]⟩

end SocketRpc.Provider
