import SocketRpc.Proofs.Listener.Faults
import SocketRpc.Proofs.Provider.Farewell

/-!
A call to connect, from its beginning to its return. Where it finds a usable connection it changes nothing; else
it opens sockets, pausing in between as configured, until one is open or the attempts are used up.
-/

namespace SocketRpc

def Config.attempts (config : Config) : Nat := max 1 config.maxConnectionRetries

lemma Backoff.delayAfter_le {b : Backoff} {k : Nat} {d : Duration} (h : b.delayAfter k = some d) :
    d.nanos ≤ b.cap.nanos := by
  rw [delayAfter] at h
  split at h
  · cases h
  · split at h <;> cases h
    · rw [Duration.min]
      split
      · exact Nat.le_refl _
      · omega
    · exact Nat.le_refl _

lemma Config.delayAfter_lt {config : Config} {k : Nat} {d : Duration}
    (h : config.backoff.delayAfter k = some d) : k < config.attempts := by
  have := ((Backoff.delayAfter_isSome _ k).mp (Option.isSome_of_eq_some h)).2
  exact Nat.lt_of_lt_of_le this (Nat.le_max_right 1 _)

lemma Config.le_of_delayAfter {config : Config} {k : Nat} (hk : 0 < k) (h : config.backoff.delayAfter k = none) :
    config.attempts ≤ k := by
  refine Nat.max_le.mpr ⟨hk, Nat.le_of_not_lt fun hlt => ?_⟩
  have := (Backoff.delayAfter_isSome config.backoff k).mpr ⟨hk, hlt⟩
  rw [h] at this
  cases this

namespace Provider

variable {p q m : Provider} {c : CallId} {l : ListenerId} {ph : Phase} {e : Event} {es : List Event}
  {endpoint : Endpoint} {config : Config} {ts : List Nat}

section Along

variable {α : Type} (f : Provider → Event → Option α)

def along (p : Provider) : List Event → List α
  | [] => []
  | e :: es => (f p e).toList ++ (p.step e).along es

lemma along_append (p : Provider) (es ds : List Event) :
    p.along f (es ++ ds) = p.along f es ++ (p.steps es).along f ds := by
  induction es generalizing p with
  | nil => rfl
  | cons e es ih =>
    rw [List.cons_append, along, ih, along, List.append_assoc]
    rfl

lemma along_snoc (p : Provider) (es : List Event) (e : Event) :
    p.along f (es ++ [e]) = p.along f es ++ (f (p.steps es) e).toList := by
  rw [along_append, along, along, List.append_nil]

end Along

structure Attempt where
  outcome : Except Failure Unit
  time : Nat
  wake : Option Nat
deriving DecidableEq

variable {as : List Attempt}

def opening (p : Provider) (c : CallId) : Bool :=
  match p.phaseOf c with
  | some (.opening _) => true
  | _ => false

def waking (p : Provider) (c : CallId) : Option Nat :=
  match p.phaseOf c with
  | some (.pausing wake _) => some wake
  | _ => none

def begin? (p : Provider) (c : CallId) (e : Event) : Option Nat :=
  if p.opening c then none else if (p.step e).opening c then some (p.step e).now else none

def attempt? (p : Provider) (c : CallId) : Event → Option Attempt
  | .opened b r =>
    if b = c ∧ p.opening c then some { outcome := r, time := p.now, wake := (p.opened b r).waking c } else none
  | _ => none

def begun (p : Provider) (c : CallId) (es : List Event) : List Nat := p.along (begin? · c) es

def attempts (p : Provider) (c : CallId) (es : List Event) : List Attempt := p.along (attempt? · c) es

lemma opening_of_phase (h : p.phaseOf c = some ph) (hn : ∀ t, ph ≠ .opening t) : p.opening c = false := by
  rw [opening, h]
  cases ph <;> first | rfl | exact absurd rfl (hn _)

lemma opening_of_opening {t : Backoff.Progress} (h : p.phaseOf c = some (.opening t)) : p.opening c = true := by
  rw [opening, h]

def Unseen (p : Provider) (c : CallId) (e : Event) : Prop := p.begin? c e = none ∧ p.attempt? c e = none

lemma attempt?_eq_none (h : ∀ r, e = .opened c r → p.opening c = false) : p.attempt? c e = none := by
  cases e with
  | opened b r =>
    refine if_neg fun ⟨hb, ho⟩ => ?_
    subst hb
    rw [h r rfl] at ho
    cases ho
  | _ => rfl

lemma unseen (ho : (p.step e).opening c = p.opening c) (hn : ∀ r, e = .opened c r → p.opening c = false) :
    p.Unseen c e := by
  refine ⟨?_, attempt?_eq_none hn⟩
  rw [begin?, ho]
  cases p.opening c <;> rfl

lemma unheeded (hk : c < p.nextCall) (hp : p.phaseOf c = some ph) (hn : ¬ (p.subject e = some c ∧ ph.heeds e)) :
    (p.step e).phaseOf c = p.phaseOf c ∧ p.Unseen c e := by
  by_cases hs : p.subject e = some c
  · have hh : ph.heeds e = false := Bool.eq_false_iff.mpr fun hh => hn ⟨hs, hh⟩
    have he : p.step e = p := step_unheeded hk hp hs hh
    refine ⟨by rw [he], unseen (by rw [he]) fun r hr => opening_of_phase hp ?_⟩
    rintro t rfl
    subst hr
    cases hh
  · have hq := phaseOf_other hs
    refine ⟨hq, unseen ?_ fun r he => absurd (he ▸ rfl) hs⟩
    rw [opening, hq, opening]

lemma unseen_closed (ho : p.opening c = false) (hq : (p.step e).opening c = false) : p.Unseen c e :=
  unseen (hq.trans ho.symm) fun _ _ => ho

lemma unseen_begins (ho : p.opening c = false) (hq : (p.step e).opening c = true) :
    p.begin? c e = some (p.step e).now ∧ p.attempt? c e = none := by
  refine ⟨?_, attempt?_eq_none fun _ _ => ho⟩
  rw [begin?, ho, hq]
  rfl

def Paced (config : Config) (ts : List Nat) (as : List Attempt) : Prop :=
  ∀ i a, as[i]? = some a → ∃ f d, a.outcome = .error f ∧ config.backoff.delayAfter (i + 1) = some d ∧
    d.nanos ≤ (Duration.ofMillis config.backoffMaxMs).nanos ∧ a.wake = some (a.time + d.millisUp) ∧
    ∀ t, ts[i + 1]? = some t → a.time + d.millisUp ≤ t

lemma paced_nil (config : Config) (ts : List Nat) : Paced config ts [] := fun i a h => by simp at h

lemma Paced.fail (h : Paced config ts as) (ht : ts.length = as.length + 1) {a : Attempt} {f : Failure}
    {d : Duration} (ho : a.outcome = .error f) (hd : config.backoff.delayAfter (as.length + 1) = some d)
    (hw : a.wake = some (a.time + d.millisUp)) : Paced config ts (as ++ [a]) := by
  intro i b hb
  rw [List.getElem?_append] at hb
  split at hb
  · exact h i b hb
  · have hi : i = as.length := by
      have := (List.getElem?_eq_some_iff.mp hb).1
      rw [List.length_singleton] at this
      omega
    subst hi
    rw [Nat.sub_self] at hb
    cases hb
    refine ⟨f, d, ho, hd, Backoff.delayAfter_le hd, hw, fun t hn => ?_⟩
    rw [List.getElem?_eq_none (Nat.le_of_eq ht)] at hn
    cases hn

lemma Paced.again (h : Paced config ts as) (ht : ts.length = as.length) {wake t : Nat}
    (ha : ∀ a ∈ as.getLast?, a.wake = some wake) (hw : wake ≤ t) : Paced config (ts ++ [t]) as := by
  intro i a hi
  obtain ⟨f, d, ho, hd, hc, hwa, hs⟩ := h i a hi
  refine ⟨f, d, ho, hd, hc, hwa, fun u hu => ?_⟩
  rw [List.getElem?_append] at hu
  split at hu
  · exact hs u hu
  · -- the attempt that begins is the next after the last one
    have hl : i + 1 = as.length := by
      have := (List.getElem?_eq_some_iff.mp hi).1
      omega
    have hlast : as.getLast? = some a := by rw [List.getLast?_eq_getElem?, ← hl, Nat.add_sub_cancel, hi]
    cases hwa.symm.trans (ha a hlast)
    rw [ht, ← hl, Nat.sub_self] at hu
    cases hu
    exact hw

structure Opens (config : Config) (q : Provider) (c : CallId) (ts : List Nat) (as : List Attempt) : Prop where
  phase : q.phaseOf c = some (.opening ⟨config.backoff, as.length + 1⟩)
  begun : ts.length = as.length + 1
  left : as.length < config.attempts
  paced : Paced config ts as

structure Pauses (config : Config) (q : Provider) (c : CallId) (ts : List Nat) (as : List Attempt) (wake : Nat) :
    Prop where
  phase : q.phaseOf c = some (.pausing wake ⟨config.backoff, as.length⟩)
  begun : ts.length = as.length
  left : as.length < config.attempts
  paced : Paced config ts as
  last : ∀ a ∈ as.getLast?, a.wake = some wake

/-- What comes of attempts: the last one has opened a socket, or as many have failed as there may be. -/
inductive Tried (endpoint : Endpoint) (config : Config) (q : Provider) (ts : List Nat) :
    List Attempt → Except Failure Reply → Prop where
  | connected {fs : List Attempt} {last : Attempt} (hl : fs.length < config.attempts)
      (ht : ts.length = fs.length + 1) (hf : Paced config ts fs) (ho : last.outcome = .ok ())
      (hw : last.wake = none) (hq : q.state = .connected) (hs : q.slot.isSome) :
      Tried endpoint config q ts (fs ++ [last]) (.ok .nothing)
  | exhausted {fs : List Attempt} {last : Attempt} {f : Failure} (hl : fs.length + 1 = config.attempts)
      (ht : ts.length = fs.length + 1) (hf : Paced config ts fs) (ho : last.outcome = .error f)
      (hw : last.wake = none) (hq : q.state = .failed) (hs : q.slot = none) :
      Tried endpoint config q ts (fs ++ [last])
        (.error (.connectionFailed endpoint.address config.attempts f.message))

lemma attempt?_opened (ho : q.opening c = true) (r : Except Failure Unit) : q.attempt? c (.opened c r) =
    some { outcome := r, time := q.now, wake := (q.opened c r).waking c } := by
  rw [attempt?, if_pos ⟨rfl, ho⟩]

lemma waking_done {r : Except Failure Reply} (h : q.phaseOf c = some (.done r)) : q.waking c = none := by
  rw [waking, h]

lemma Opens.succeeds (endpoint : Endpoint) (h : Opens config q c ts as) :
    let q' := q.opened c (.ok ())
    q'.phaseOf c = some (.done (.ok .nothing)) ∧
      Tried endpoint config q' ts (as ++ [{ outcome := .ok (), time := q.now, wake := q'.waking c }])
        (.ok .nothing) := by
  intro q'
  have he : q' = ((q.takeSocket.2.spawn q.takeSocket.1).publish .connected).releaseAndFinish c
      (.ok .nothing) := by
    simp only [q', opened, h.phase]
  have hp : q'.phaseOf c = some (.done (.ok .nothing)) := by
    rw [he]
    exact phaseOf_setPhase_self ((phaseOf_release _ c).trans h.phase)
  obtain ⟨-, hst, hsl, -⟩ := unaltered_release ((q.takeSocket.2.spawn q.takeSocket.1).publish .connected)
  refine ⟨hp, .connected h.left h.begun h.paced rfl (waking_done hp) ?_ ?_⟩ <;> rw [he]
  · exact hst
  · exact congrArg Option.isSome hsl

lemma Opens.fails (h : Opens config q c ts as) (hset : q.settings = (endpoint, config)) (hs : q.slot = none)
    (f : Failure) :
    let q' := q.opened c (.error f)
    let as' := as ++ [{ outcome := .error f, time := q.now, wake := q'.waking c }]
    (∃ x, q'.phaseOf c = some (.done x) ∧ Tried endpoint config q' ts as' x) ∨
      ∃ wake, Pauses config q' c ts as' wake := by
  intro q' as'
  obtain ⟨rfl, rfl⟩ := Prod.mk.inj hset
  -- a pause is defined exactly while there are attempts left
  have hlen : as'.length = as.length + 1 := List.length_append
  cases hd : q.config.backoff.delayAfter (as.length + 1) with
  | some d =>
    have hp : q'.phaseOf c = some (.pausing (q.now + d.millisUp) ⟨q.config.backoff, as.length + 1⟩) := by
      have he : q' = q.setPhase c (.pausing (q.now + d.millisUp) ⟨q.config.backoff, as.length + 1⟩) := by
        simp only [q', opened, h.phase, Backoff.Progress.nextDelay, hd]
      rw [he]
      exact phaseOf_setPhase_self h.phase
    have hw : q'.waking c = some (q.now + d.millisUp) := by rw [waking, hp]
    refine Or.inr ⟨q.now + d.millisUp, hlen ▸ hp, hlen ▸ h.begun, ?_, h.paced.fail h.begun rfl hd hw,
      fun a ha => ?_⟩
    · rw [hlen]
      exact Config.delayAfter_lt hd
    · rw [List.getLast?_concat] at ha
      cases ha
      exact hw
  | none =>
    have hl : as.length + 1 = q.config.attempts :=
      Nat.le_antisymm h.left (Config.le_of_delayAfter (Nat.succ_pos _) hd)
    have he : q' = (q.publish .failed).releaseAndFinish c
        (.error (.connectionFailed q.endpoint.address (as.length + 1) f.message)) := by
      simp only [q', opened, h.phase, Backoff.Progress.nextDelay, hd]
    have hp : q'.phaseOf c =
        some (.done (.error (.connectionFailed q.endpoint.address q.config.attempts f.message))) := by
      rw [he, ← hl]
      exact phaseOf_setPhase_self ((phaseOf_release _ c).trans h.phase)
    obtain ⟨-, hst, hsl, -⟩ := unaltered_release (q.publish .failed)
    refine Or.inl ⟨_, hp, .exhausted hl h.begun h.paced rfl (waking_done hp) ?_ ?_⟩ <;> rw [he]
    · exact hst
    · exact hsl.trans hs

lemma Opens.answered (h : Opens config q c ts as) (hset : q.settings = (endpoint, config)) (hs : q.slot = none)
    (r : Except Failure Unit) :
    let q' := q.opened c r
    let as' := as ++ (q.attempt? c (.opened c r)).toList
    (∃ x, q'.phaseOf c = some (.done x) ∧ Tried endpoint config q' ts as' x) ∨
      ∃ wake, Pauses config q' c ts as' wake := by
  rw [attempt?_opened (opening_of_opening h.phase)]
  cases r with
  | ok =>
    obtain ⟨hp, ht⟩ := h.succeeds endpoint
    exact Or.inl ⟨_, hp, ht⟩
  | error f => exact h.fails hset hs f

lemma Pauses.resumed {wake : Nat} (h : Pauses config q c ts as wake) (hw : wake ≤ q.now) :
    (q.turn c).now = q.now ∧ Opens config (q.turn c) c (ts ++ [q.now]) as := by
  obtain ⟨op, hc⟩ := call_of_phase h.phase
  have he : q.turn c = q.setPhase c (.opening ⟨config.backoff, as.length + 1⟩) := by
    simp only [turn, hc, if_pos hw, Backoff.Progress.begin]
  rw [he]
  refine ⟨rfl, phaseOf_setPhase_self h.phase, ?_, h.left, h.paced.again h.begun h.last hw⟩
  rw [List.length_append, h.begun, List.length_singleton]

def Tries (config : Config) (q : Provider) (c : CallId) (ts : List Nat) (as : List Attempt) : Prop :=
  Opens config q c ts as ∨ ∃ wake, Pauses config q c ts as wake

lemma Opens.of_phase (h : Opens config p c ts as) (hp : q.phaseOf c = p.phaseOf c) : Opens config q c ts as :=
  ⟨hp.trans h.phase, h.begun, h.left, h.paced⟩

lemma Pauses.of_phase {wake : Nat} (h : Pauses config p c ts as wake) (hp : q.phaseOf c = p.phaseOf c) :
    Pauses config q c ts as wake :=
  ⟨hp.trans h.phase, h.begun, h.left, h.paced, h.last⟩

lemma Tries.of_phase (h : Tries config p c ts as) (hp : q.phaseOf c = p.phaseOf c) : Tries config q c ts as :=
  h.imp (·.of_phase hp) fun ⟨wake, h⟩ => ⟨wake, h.of_phase hp⟩

lemma Tries.phase (h : Tries config q c ts as) : ∃ ph, q.phaseOf c = some ph ∧ ph.apart := by
  rcases h with h | ⟨wake, h⟩
  · exact ⟨_, h.phase, rfl⟩
  · exact ⟨_, h.phase, rfl⟩

lemma Pauses.opening {wake : Nat} (h : Pauses config q c ts as wake) : q.opening c = false :=
  opening_of_phase h.phase nofun

def Continues (endpoint : Endpoint) (config : Config) (q : Provider) (c : CallId) (ts : List Nat)
    (as : List Attempt) (e : Event) : Prop :=
  let ts' := ts ++ (q.begin? c e).toList
  let as' := as ++ (q.attempt? c e).toList
  Tries config (q.step e) c ts' as' ∨
    (∃ x, (q.step e).phaseOf c = some (.done x) ∧ Tried endpoint config (q.step e) ts' as' x) ∨
    (q.step e).phaseOf c = none

lemma Tries.unheeded (h : Tries config q c ts as) (hp : (q.step e).phaseOf c = q.phaseOf c)
    (hu : q.Unseen c e) : Continues endpoint config q c ts as e := by
  left
  simp only [hu.1, hu.2, Option.toList_none, List.append_nil]
  exact h.of_phase hp

lemma Opens.step (h : Opens config q c ts as) (hset : q.settings = (endpoint, config)) (hs : q.slot = none)
    (hk : c < q.nextCall) (e : Event) : Continues endpoint config q c ts as e := by
  by_cases hh : q.subject e = some c ∧ Phase.heeds (.opening ⟨config.backoff, as.length + 1⟩) e
  · obtain ⟨hc, hh⟩ := hh
    cases e with
    | opened b r =>
      cases hc
      have hb : q.begin? c (.opened c r) = none := if_pos (opening_of_opening h.phase)
      rw [Continues, hb, Option.toList_none, List.append_nil]
      rcases h.answered hset hs r with hx | hx
      · exact Or.inr (Or.inl hx)
      · exact Or.inl (Or.inr hx)
    | drop b =>
      cases hc
      exact Or.inr (Or.inr (phaseOf_drop h.phase))
    | _ => cases hh
  · obtain ⟨hp, hu⟩ := unheeded hk h.phase hh
    exact Tries.unheeded (Or.inl h) hp hu

lemma Pauses.step {wake : Nat} (h : Pauses config q c ts as wake) (hk : c < q.nextCall) (e : Event) :
    Continues endpoint config q c ts as e := by
  by_cases hh : q.subject e = some c ∧ Phase.heeds (.pausing wake ⟨config.backoff, as.length⟩) e
  · obtain ⟨hc, hh⟩ := hh
    cases e with
    | turn b =>
      cases hc
      by_cases hw : wake ≤ q.now
      · obtain ⟨hn, ho⟩ := h.resumed hw
        obtain ⟨hb, ha⟩ := unseen_begins (e := .turn c) h.opening (opening_of_opening ho.phase)
        left
        rw [hb, ha, Option.toList_none, List.append_nil]
        exact Or.inl (hn ▸ ho)
      · obtain ⟨op, hcall⟩ := call_of_phase h.phase
        have he : q.step (.turn c) = q := by
          simp only [Provider.step, turn, hcall, if_neg hw]
        have ho := h.opening
        exact Tries.unheeded (Or.inr ⟨wake, h⟩) (by rw [he]) (unseen_closed ho (he.symm ▸ ho))
    | drop b =>
      cases hc
      exact Or.inr (Or.inr (phaseOf_drop h.phase))
    | _ => cases hh
  · obtain ⟨hp, hu⟩ := unheeded hk h.phase hh
    exact Tries.unheeded (Or.inr ⟨wake, h⟩) hp hu

def Seeks (p : Provider) (c : CallId) : Prop :=
  p.calls.get? c = some { op := .connect } ∨ p.phaseOf c = some (.locking .connect)

lemma Seeks.phase (h : p.Seeks c) : p.phaseOf c = some .start ∨ p.phaseOf c = some (.locking .connect) :=
  h.imp_left phaseOf_of_call

lemma Seeks.opening (h : p.Seeks c) : p.opening c = false := by
  rcases h.phase with h | h
  · exact opening_of_phase h nofun
  · exact opening_of_phase h nofun

inductive Sees (p : Provider) (c : CallId) (q : Provider) : Prop where
  | usable (hl : p.isLive = true) (hq : q.phaseOf c = some (.done (.ok .nothing))) (hu : Unaltered p q)
  | vacant (hl : p.isLive = false) (hq : q.phaseOf c = some (.opening p.config.backoff.start.begin))
  | stale {conn : Connection} (hl : p.isLive = false) (hq : q.phaseOf c = some (.closing conn .connect))

lemma sees_connectLocked (h : p.Holds c .connect) : Sees p c (p.connectLocked c) := by
  rw [connectLocked]
  split
  · rename_i hs
    exact .vacant (by rw [isLive, hs]; rfl) (phaseOf_setPhase_self (p := p.publish .connecting) h.1)
  · rename_i conn hs
    have hl : p.isLive = p.usable conn := by rw [isLive, hs]; rfl
    split
    · rename_i hu
      obtain ⟨hc, hst, hsl, hls⟩ := unaltered_release p
      exact .usable (hl.trans hu) (phaseOf_setPhase_self ((phaseOf_release p c).trans h.1)) ⟨hc, hst, hsl, hls⟩
    · rename_i hu
      have hq : ({ p with slot := none }.setPhase c (.closing conn .connect)).phaseOf c =
          some (.closing conn .connect) := phaseOf_setPhase_self (p := { p with slot := none }) h.1
      exact .stale (hl.trans (Bool.eq_false_iff.mpr hu)) hq

lemma Sees.of_asked (h : Sees m c q) (hm : m = p ∨ m = p.askLock c .connect) : Sees p c q := by
  rcases hm with rfl | rfl
  · exact h
  · cases h with
    | usable hl hq hu => exact .usable hl hq ⟨hu.1, hu.2, hu.3, hu.4⟩
    | vacant hl hq => exact .vacant hl hq
    | stale hl hq => exact .stale hl hq

lemma Seeks.turn (h : p.Seeks c) :
    (p.turn c).Seeks c ∧ Unaltered p (p.turn c) ∨ Sees p c (p.turn c) := by
  obtain ⟨m, hm, hl, hq | ⟨hh, hq⟩⟩ := turn_errand rfl h <;> rw [hq]
  · refine Or.inl ⟨Or.inr hl, ?_⟩
    rcases hm with rfl | rfl <;> exact ⟨rfl, rfl, rfl, rfl⟩
  · exact Or.inr ((sees_connectLocked hh).of_asked hm)

def Replaces (p : Provider) (c : CallId) : Prop :=
  (∃ conn, p.phaseOf c = some (.closing conn .connect)) ∨ ∃ l, p.phaseOf c = some (.joining l .connect)

lemma Replaces.phase (h : p.Replaces c) : ∃ ph, p.phaseOf c = some ph ∧ ph.apart ∧ p.opening c = false := by
  rcases h with ⟨conn, h⟩ | ⟨l, h⟩
  · exact ⟨_, h, rfl, opening_of_phase h nofun⟩
  · exact ⟨_, h, rfl, opening_of_phase h nofun⟩

lemma phaseOf_join (h : p.phaseOf c = some (.joining l .connect)) :
    (p.join c l .connect).phaseOf c =
      some (if p.isFinished l then .opening p.config.backoff.start.begin else .joining l .connect) := by
  rw [join]
  split
  · exact phaseOf_setPhase_self (p := ((p.dismissing Correlator.clear).note .cleared).publish .connecting) h
  · exact h

def Vacates (config : Config) (q : Provider) (c : CallId) (l : ListenerId) : Prop :=
  q.phaseOf c = some (.joining l .connect) ∨ q.phaseOf c = some (.opening config.backoff.start.begin)

lemma turn_joining (h : p.phaseOf c = some (.joining l .connect)) : p.turn c = p.join c l .connect := by
  obtain ⟨op, hc⟩ := call_of_phase h
  simp only [turn, hc]

lemma join_connect (h : p.phaseOf c = some (.joining l .connect)) :
    Vacates p.config (p.join c l .connect) c l := by
  have hq := phaseOf_join h
  split at hq
  · exact Or.inr hq
  · exact Or.inl hq

lemma closed_connect {conn : Connection} (h : p.phaseOf c = some (.closing conn .connect)) :
    Vacates p.config (p.closed c) c conn.listener := by
  have joins : ∀ m : Provider, m.config = p.config → m.phaseOf c = p.phaseOf c → Vacates p.config
      ((m.setPhase c (.joining conn.listener .connect)).join c conn.listener .connect) c conn.listener :=
    fun m hm hp => hm ▸ join_connect (phaseOf_setPhase_self (hp.trans h))
  rw [closed, h]
  exact joins _ rfl rfl

lemma Vacates.replaces (h : Vacates config q c l) :
    q.Replaces c ∨ q.phaseOf c = some (.opening config.backoff.start.begin) :=
  h.imp_left fun h => Or.inr ⟨l, h⟩

lemma Replaces.step (h : p.Replaces c) (hk : c < p.nextCall) (e : Event) :
    (p.step e).Replaces c ∨ (p.step e).phaseOf c = some (.opening p.config.backoff.start.begin) ∨
      (p.step e).phaseOf c = none := by
  rcases h with ⟨conn, h⟩ | ⟨l, h⟩
  · by_cases hh : p.subject e = some c ∧ Phase.heeds (.closing conn .connect) e
    · obtain ⟨hc, hh⟩ := hh
      cases e with
      | closed b =>
        cases hc
        exact or_assoc.mp (Or.inl (closed_connect h).replaces)
      | drop b =>
        cases hc
        exact Or.inr (Or.inr (phaseOf_drop h))
      | _ => cases hh
    · exact Or.inl (Or.inl ⟨conn, (unheeded hk h hh).1.trans h⟩)
  · by_cases hh : p.subject e = some c ∧ Phase.heeds (.joining l .connect) e
    · obtain ⟨hc, hh⟩ := hh
      cases e with
      | turn b =>
        cases hc
        rw [Provider.step, turn_joining h]
        exact or_assoc.mp (Or.inl (join_connect h).replaces)
      | drop b =>
        cases hc
        exact Or.inr (Or.inr (phaseOf_drop h))
      | _ => cases hh
    · exact Or.inl (Or.inr ⟨l, (unheeded hk h hh).1.trans h⟩)

lemma Seeks.step (h : p.Seeks c) (hk : c < p.nextCall) (hs : p.subject e = some c) :
    (p.step e).Seeks c ∧ Unaltered p (p.step e) ∨ Sees p c (p.step e) ∨ (p.step e).phaseOf c = none := by
  obtain ⟨ph, hp, hy⟩ : ∃ ph, p.phaseOf c = some ph ∧ ph.yields :=
    h.phase.elim (fun h => ⟨_, h, rfl⟩) fun h => ⟨_, h, rfl⟩
  by_cases hd : e = .drop c
  · exact Or.inr (Or.inr (hd ▸ phaseOf_drop hp))
  by_cases ht : e = .turn c
  · subst ht
    exact h.turn.imp_right Or.inl
  · rw [step_yields hk hp hy hs ht hd]
    exact Or.inl ⟨h, .refl p⟩

lemma opens_first (hp : q.phaseOf c = some (.opening config.backoff.start.begin)) (t : Nat) :
    Opens config q c [t] [] :=
  ⟨hp, rfl, Nat.lt_of_lt_of_le Nat.zero_lt_one (Nat.le_max_left 1 _), paced_nil config [t]⟩

def Seeking (p : Provider) (c : CallId) (es : List Event) : Prop := ∀ ds, ds <+: es → (p.steps ds).Seeks c

lemma Seeking.snoc (h : p.Seeking c es) (hq : (p.steps (es ++ [e])).Seeks c) : p.Seeking c (es ++ [e]) := by
  intro ds hd
  rcases List.prefix_concat_iff.mp hd with rfl | hd
  · exact hq
  · exact h ds hd

def Looked (p : Provider) (c : CallId) (es : List Event) (live : Bool) : Prop :=
  ∃ ds d, ds ++ [d] <+: es ∧ p.Seeking c ds ∧ ¬ (p.steps (ds ++ [d])).Seeks c ∧ (p.steps ds).isLive = live

lemma Looked.snoc {live : Bool} (h : p.Looked c es live) (e : Event) : p.Looked c (es ++ [e]) live := by
  obtain ⟨ds, d, hd, hs⟩ := h
  exact ⟨ds, d, hd.trans (List.prefix_append es [e]), hs⟩

lemma Seeking.looked {live : Bool} (h : p.Seeking c es) (hl : (p.steps es).isLive = live)
    (hp : ((p.steps es).step e).phaseOf c = some ph) (hn : ph ≠ .start ∧ ∀ r, ph ≠ .locking r) :
    p.Looked c (es ++ [e]) live := by
  refine ⟨es, e, List.prefix_rfl, h, fun hs => ?_, hl⟩
  rw [← steps_snoc] at hp
  rcases hs.phase with h | h <;> cases hp.symm.trans h
  · exact hn.1 rfl
  · exact hn.2 _ rfl

def Untried (p : Provider) (c : CallId) (es : List Event) : Prop := p.begun c es = [] ∧ p.attempts c es = []

lemma begun_snoc (p : Provider) (c : CallId) (es : List Event) (e : Event) :
    p.begun c (es ++ [e]) = p.begun c es ++ ((p.steps es).begin? c e).toList := along_snoc _ p es e

lemma attempts_snoc (p : Provider) (c : CallId) (es : List Event) (e : Event) :
    p.attempts c (es ++ [e]) = p.attempts c es ++ ((p.steps es).attempt? c e).toList := along_snoc _ p es e

lemma Untried.snoc (h : p.Untried c es) (hu : (p.steps es).Unseen c e) : p.Untried c (es ++ [e]) := by
  rw [Untried, begun_snoc, attempts_snoc, h.1, h.2, hu.1, hu.2]
  exact ⟨rfl, rfl⟩

lemma Untried.first (h : p.Untried c es) (ho : (p.steps es).opening c = false)
    (hc : (p.steps es).config = config)
    (hq : ((p.steps es).step e).phaseOf c = some (.opening (p.steps es).config.backoff.start.begin)) :
    Tries config (p.steps (es ++ [e])) c (p.begun c (es ++ [e])) (p.attempts c (es ++ [e])) := by
  obtain ⟨hb, ha⟩ := unseen_begins ho (opening_of_opening hq)
  rw [hc] at hq
  rw [begun_snoc, attempts_snoc, h.1, h.2, hb, ha, steps_snoc]
  exact Or.inl (opens_first hq _)

inductive Pursuit (config : Config) (p : Provider) (c : CallId) (es : List Event) : Prop where
  | seeks (h : p.Seeking c es) (hu : p.Untouched c es) (ht : p.Untried c es)
  | replaces (hl : p.Looked c es false) (h : (p.steps es).Replaces c) (ht : p.Untried c es)
  | tries (hl : p.Looked c es false) (h : Tries config (p.steps es) c (p.begun c es) (p.attempts c es))
  | gone (h : (p.steps es).calls.get? c = none)

/-- How a call to connect returns. -/
inductive Concludes (endpoint : Endpoint) (config : Config) (p : Provider) (c : CallId) (es : List Event) :
    Except Failure Reply → Prop where
  | usable (hl : p.Looked c es true) (hu : p.Untouched c es) (ht : p.Untried c es) :
      Concludes endpoint config p c es (.ok .nothing)
  | tried {r : Except Failure Reply} (hl : p.Looked c es false)
      (h : Tried endpoint config (p.steps es) (p.begun c es) (p.attempts c es) r) :
      Concludes endpoint config p c es r

structure Proper (endpoint : Endpoint) (config : Config) (q : Provider) (c : CallId) : Prop where
  settings : q.settings = (endpoint, config)
  orderly : Orderly q
  known : c < q.nextCall

lemma Proper.step (h : Proper endpoint config q c) (e : Event) : Proper endpoint config (q.step e) c where
  settings := (settings_step q e).1.trans h.settings
  orderly := h.orderly.steps [e]
  known := Nat.lt_of_lt_of_le h.known (nextCall_le q e)

lemma Proper.config_eq (h : Proper endpoint config q c) : q.config = config := congrArg Prod.snd h.settings

lemma Proper.vacant (h : Proper endpoint config q c) (hp : q.phaseOf c = some ph) (ha : ph.apart) :
    q.slot = none := slot_of_listening (h.orderly.guarded.empty c ph hp ha)

lemma Concludes.tried_of_begun {r : Except Failure Reply} (h : Concludes endpoint config p c es r)
    (hb : p.begun c es ≠ []) : Tried endpoint config (p.steps es) (p.begun c es) (p.attempts c es) r := by
  cases h with
  | usable _ _ ht => exact absurd ht.1 hb
  | tried _ h => exact h

lemma Pursuit.step (h : Pursuit config p c es) (hr : Proper endpoint config (p.steps es) c) (e : Event) :
    Pursuit config p c (es ++ [e]) ∨
      ∃ r, (p.steps (es ++ [e])).phaseOf c = some (.done r) ∧ Concludes endpoint config p c (es ++ [e]) r := by
  have hk := hr.known
  have gone : ((p.steps es).step e).phaseOf c = none → Pursuit config p c (es ++ [e]) := fun hq =>
    .gone (steps_snoc p es e ▸ Option.map_eq_none_iff.mp hq)
  cases h with
  | seeks h hu ht =>
    have hnow : (p.steps es).Seeks c := h es List.prefix_rfl
    by_cases hs : (p.steps es).subject e = some c
    · rcases hnow.step hk hs with ⟨h', hsame⟩ | hsee | hn
      · exact Or.inl (.seeks (h.snoc (steps_snoc p es e ▸ h')) (hu.snoc fun _ => hsame)
          (ht.snoc (unseen_closed hnow.opening h'.opening)))
      · cases hsee with
        | usable hl hq hsame =>
          have hn : ((p.steps es).step e).opening c = false := opening_of_phase hq nofun
          exact Or.inr ⟨_, steps_snoc p es e ▸ hq, .usable (h.looked hl hq ⟨nofun, nofun⟩)
            (hu.snoc fun _ => hsame) (ht.snoc (unseen_closed hnow.opening hn))⟩
        | vacant hl hq =>
          exact Or.inl (.tries (h.looked hl hq ⟨nofun, nofun⟩) (ht.first hnow.opening hr.config_eq hq))
        | stale hl hq =>
          have hn : ((p.steps es).step e).opening c = false := opening_of_phase hq nofun
          exact Or.inl (.replaces (h.looked hl hq ⟨nofun, nofun⟩) (steps_snoc p es e ▸ Or.inl ⟨_, hq⟩)
            (ht.snoc (unseen_closed hnow.opening hn)))
      · exact Or.inl (gone hn)
    · have hseeks : ((p.steps es).step e).Seeks c := by
        rwa [Seeks, calls_other _ hs, phaseOf_other hs]
      exact Or.inl (.seeks (h.snoc (steps_snoc p es e ▸ hseeks)) (hu.snoc fun he => absurd he hs)
        (ht.snoc (unseen_closed hnow.opening hseeks.opening)))
  | replaces hl h ht =>
    obtain ⟨ph, hp, -, hn⟩ := h.phase
    rcases h.step hk e with h' | hq | hn
    · obtain ⟨ph', -, -, hn'⟩ := h'.phase
      exact Or.inl (.replaces (hl.snoc e) (steps_snoc p es e ▸ h') (ht.snoc (unseen_closed hn hn')))
    · exact Or.inl (.tries (hl.snoc e) (ht.first hn hr.config_eq hq))
    · exact Or.inl (gone hn)
  | tries hl h =>
    obtain ⟨ph, hp, ha⟩ := h.phase
    have go : Continues endpoint config (p.steps es) c (p.begun c es) (p.attempts c es) e := by
      rcases h with h | ⟨wake, h⟩
      · exact h.step hr.settings (hr.vacant hp ha) hk e
      · exact h.step hk e
    rw [Continues, ← begun_snoc, ← attempts_snoc] at go
    rcases go with h | ⟨r, hq, h⟩ | hn
    · exact Or.inl (.tries (hl.snoc e) (steps_snoc p es e ▸ h))
    · exact Or.inr ⟨r, steps_snoc p es e ▸ hq, .tried (hl.snoc e) (steps_snoc p es e ▸ h)⟩
    · exact Or.inl (gone hn)
  | gone h => exact Or.inl (.gone (steps_snoc p es e ▸ gone_step hk h))

lemma result?_of_apart (hp : p.phaseOf c = some ph) (ha : ph.apart) : p.result? c = none :=
  result?_of_phase hp fun r hr => by
    rw [hr] at ha
    cases ha

lemma Pursuit.result? (h : Pursuit config p c es) : (p.steps es).result? c = none := by
  cases h with
  | seeks h =>
    rcases (h es List.prefix_rfl).phase with h | h
    · exact result?_of_phase h nofun
    · exact result?_of_phase h nofun
  | replaces _ h =>
    obtain ⟨ph, hp, ha, -⟩ := h.phase
    exact result?_of_apart hp ha
  | tries _ h =>
    obtain ⟨ph, hp, ha⟩ := h.phase
    exact result?_of_apart hp ha
  | gone h => simp [Provider.result?, phaseOf, h]

lemma pursuit_new (config : Config) (p : Provider) : Pursuit config (p.step (.call .connect)) p.nextCall [] := by
  refine .seeks (fun ds hd => ?_) (fun ds d hd _ => ?_) ⟨rfl, rfl⟩
  · obtain rfl := List.prefix_nil.mp hd
    exact Or.inl (get?_newCall p _)
  · simp at hd

lemma Proper.steps (h : Proper endpoint config p c) (es : List Event) :
    Proper endpoint config (p.steps es) c := by
  induction es generalizing p with
  | nil => exact h
  | cons e es ih => exact ih (h.step e)

lemma pursuit_run (h : Pursuit config p c []) (hr : Proper endpoint config p c) (es : List Event) :
    Pursuit config p c es ∨ ∃ r, (p.steps es).phaseOf c = some (.done r) :=
  (until_done hr.orderly hr.known h (fun es h _ _ e => (h.step (hr.steps es) e).imp_right fun ⟨r, hq, _⟩ =>
    ⟨r, hq⟩) (fun _ => .gone) es).2

def Event.awaited (c : CallId) : Event → Bool
  | .turn b | .opened b _ | .closed b => b = c
  | .listen _ | .elapse _ => true
  | _ => false

def CanReturn (q : Provider) (c : CallId) (o : ℕ → Except Failure Unit) : Prop :=
  ∃ ds r n, (∀ d ∈ ds, d.awaited c) ∧ (q.steps ds).result? c = some r ∧
    (q.attempts c ds).map Attempt.outcome = (List.range n).map o

variable {o : ℕ → Except Failure Unit}

lemma canReturn_done {r : Except Failure Reply} (h : q.phaseOf c = some (.done r)) : q.CanReturn c o :=
  ⟨[], r, 0, nofun, by rw [Provider.steps, List.foldl_nil, result?, h], rfl⟩

lemma CanReturn.after (h : (q.step e).CanReturn c o) (he : e.awaited c) (hn : q.attempt? c e = none) :
    q.CanReturn c o := by
  obtain ⟨ds, r, n, hd, hr, ho⟩ := h
  refine ⟨e :: ds, r, n, List.forall_mem_cons.mpr ⟨he, hd⟩, hr, ?_⟩
  rw [attempts, along, hn]
  exact ho

lemma CanReturn.answered (h : (q.step (.opened c (o 0))).CanReturn c fun i => o (i + 1))
    (hq : q.opening c = true) : q.CanReturn c o := by
  obtain ⟨ds, r, n, hd, hr, ho⟩ := h
  refine ⟨.opened c (o 0) :: ds, r, n + 1, List.forall_mem_cons.mpr ⟨decide_eq_true rfl, hd⟩, hr, ?_⟩
  rw [attempts, along, attempt?_opened hq, List.range_succ_eq_map, List.map_cons, List.map_map]
  exact congrArg (o 0 :: ·) ho

lemma Pauses.returns {wake : Nat} (h : Pauses config q c ts as wake) (hr : Proper endpoint config q c)
    (go : ∀ q' ts', Opens config q' c ts' as → Proper endpoint config q' c → q'.CanReturn c o) :
    q.CanReturn c o := by
  have hp := h.of_phase (q := q.step (.elapse wake)) rfl
  obtain ⟨-, ho⟩ := hp.resumed (Nat.le_add_left wake q.now)
  refine .after (e := .elapse wake) (.after (e := .turn c) ?_ (decide_eq_true rfl) rfl) rfl rfl
  exact go _ _ ho ((hr.step _).step _)

lemma Opens.returns (h : Opens config q c ts as) (hr : Proper endpoint config q c) : q.CanReturn c o := by
  generalize hn : config.attempts - as.length = n
  induction n using Nat.strong_induction_on generalizing q ts as o with
  | _ n ih =>
    refine .answered ?_ (opening_of_opening h.phase)
    rcases h.answered hr.settings (hr.vacant h.phase rfl) (o 0) with ⟨x, hx, -⟩ | ⟨wake, hw⟩
    · exact canReturn_done hx
    · refine hw.returns (hr.step (.opened c (o 0))) fun q' ts' ho hr' => ih _ ?_ ho hr' rfl
      have := h.left
      rw [attempt?_opened (opening_of_opening h.phase), Option.toList_some, List.length_append,
        List.length_singleton]
      omega

variable {li : Listener}

def Listener.pending (li : Listener) : Nat :=
  (if li.phase = .starting then 1 else 0) + if li.replacement.isSome then 1 else 0

lemma listen_released (hl : p.listeners.get? l = some li) (hf : li.isFinished = false) (hv : ¬ li.Live) :
    (p.listen l).isFinished l = true ∨
      ∃ lj, (p.listen l).listeners.get? l = some lj ∧ ¬ lj.Live ∧ lj.pending < li.pending := by
  have modified : ∀ g : Listener → Listener, (p.listeners.modify l g).get? l = some (g li) := fun g => by
    rw [Table.get?_modify, if_pos rfl, hl]
    rfl
  by_cases ha : li.aborted
  · left
    simp only [listen, hl, hf, ha, if_true, Bool.false_eq_true, if_false]
    exact isFinished_endListener p l _
  have hr : li.released = true := Bool.of_not_eq_false fun hr => hv ⟨hf, hr, Bool.eq_false_iff.mpr ha⟩
  have still : ∀ {lj : Listener}, lj.released = li.released → ¬ lj.Live := fun h hlive => by
    cases (h.trans hr).symm.trans hlive.2.1
  simp only [listen, hl, hf, ha, hr, Bool.false_eq_true, if_false]
  split
  · rename_i hp
    exact Or.inr ⟨_, modified _, still rfl, by simp [Listener.pending, hp]⟩
  · rename_i s hs hp
    refine Or.inr ⟨{ li with reader := s, framer := {}, replacement := none, phase := .resting }, ?_,
      still rfl, ?_⟩
    · rw [resume]
      split <;> exact modified _
    · simp [Listener.pending, hs]
  · exact Or.inl (isFinished_endListener p l _)
  · contradiction
  · contradiction

lemma listener_ends (hl : p.listeners.get? l = some li) (hv : ¬ li.Live) :
    ∃ n, (p.steps (List.replicate n (.listen l))).isFinished l = true := by
  generalize hn : li.pending = n
  induction n using Nat.strong_induction_on generalizing p li with
  | _ n ih =>
    cases hf : li.isFinished with
    | true => exact ⟨0, by rw [List.replicate_zero, steps, List.foldl_nil, isFinished_eq hl, hf]⟩
    | false =>
      rcases listen_released hl hf hv with he | ⟨lj, hj, hvj, hlt⟩
      · exact ⟨1, he⟩
      · obtain ⟨k, hk⟩ := ih _ (hn ▸ hlt) hj hvj rfl
        exact ⟨k + 1, hk⟩

lemma CanReturn.listens {n : Nat} (h : (q.steps (List.replicate n (.listen l))).CanReturn c o) :
    q.CanReturn c o := by
  induction n generalizing q with
  | zero => exact h
  | succ n ih => exact .after (e := .listen l) (ih h) rfl rfl

lemma phaseOf_listens (q : Provider) (c : CallId) (l : ListenerId) (n : Nat) :
    (q.steps (List.replicate n (.listen l))).phaseOf c = q.phaseOf c := by
  induction n generalizing q with
  | zero => rfl
  | succ n ih => exact (ih (q.step (.listen l))).trans (phaseOf_other (e := .listen l) nofun)

lemma opens_of_phase (h : Proper endpoint config p c)
    (hp : q.phaseOf c = some (.opening p.config.backoff.start.begin)) : Opens config q c [q.now] [] := by
  obtain ⟨-, rfl⟩ := Prod.mk.inj h.settings
  exact opens_first hp _

lemma joining_not_live (hg : Guarded p) {next : AfterTeardown} (hp : p.phaseOf c = some (.joining l next))
    (hl : p.listeners.get? l = some li) : ¬ li.Live := fun hv => by
  rcases hg.heard l li hl hv with hs | ⟨b, conn, next', hb, -⟩
  · cases (hg.empty c _ hp rfl).symm.trans hs
  · cases hg.alone (hg.holds c _ hp rfl) hb rfl
    cases hp.symm.trans hb

lemma joined_ends (hg : Guarded p) {next : AfterTeardown} (hp : p.phaseOf c = some (.joining l next)) :
    ∃ n, (p.steps (List.replicate n (.listen l))).isFinished l = true := by
  cases hl : p.listeners.get? l with
  | none => exact ⟨0, by simp [Provider.steps, isFinished, hl]⟩
  | some li => exact listener_ends hl (joining_not_live hg hp hl)

lemma joining_returns (h : Proper endpoint config q c) (hp : q.phaseOf c = some (.joining l .connect)) :
    q.CanReturn c o := by
  obtain ⟨n, hn⟩ := joined_ends h.orderly.guarded hp
  have hr := h.steps (List.replicate n (.listen l))
  have hq := phaseOf_listens q c l n
  refine .listens (n := n) (l := l) ?_
  generalize q.steps (List.replicate n (.listen l)) = m at *
  have hm : m.phaseOf c = some (.joining l .connect) := hq.trans hp
  have ho := phaseOf_join hm
  rw [hn, if_pos rfl, ← turn_joining hm] at ho
  exact .after (e := .turn c) ((opens_of_phase hr ho).returns (hr.step (.turn c))) (decide_eq_true rfl) rfl

lemma Replaces.returns (h : q.Replaces c) (hr : Proper endpoint config q c) : q.CanReturn c o := by
  rcases h with ⟨conn, h⟩ | ⟨l, h⟩
  · refine .after (e := .closed c) ?_ (decide_eq_true rfl) rfl
    rcases closed_connect h with hj | ho
    · exact joining_returns (hr.step (.closed c)) hj
    · exact (opens_of_phase hr ho).returns (hr.step (.closed c))
  · exact joining_returns hr h

def Free (p : Provider) (c : CallId) : Prop :=
  p.phaseOf c = some .start ∧ p.lock.holder = none ∨ p.Holds c .connect ∨ ∃ ph, p.phaseOf c = some ph ∧ ph.apart

lemma Seeks.sees (h : p.Seeks c) (hf : p.Free c) : Sees p c (p.turn c) := by
  rcases hf with ⟨hp, hl⟩ | hh | ⟨ph, hp, ha⟩
  · rcases h with h | h
    · have hq : p.turn c = (p.askLock c .connect).connectLocked c := by
        simp only [Provider.turn, h, begin, run, withLock, hl, perform]
      rw [hq]
      exact (sees_connectLocked (holds_askLock hp hl)).of_asked (Or.inr rfl)
    · cases hp.symm.trans h
  · obtain ⟨op, hc⟩ := call_of_phase hh.1
    have hq : p.turn c = p.connectLocked c := by
      simp only [Provider.turn, hc, if_pos hh.2, perform]
    rw [hq]
    exact sees_connectLocked hh
  · rcases h.phase with h | h <;> cases hp.symm.trans h <;> cases ha

lemma Seeks.returns (h : q.Seeks c) (hf : q.Free c) (hr : Proper endpoint config q c) : q.CanReturn c o := by
  refine .after (e := .turn c) ?_ (decide_eq_true rfl) rfl
  cases h.sees hf with
  | usable _ hq => exact canReturn_done hq
  | vacant _ ho => exact (opens_of_phase hr ho).returns (hr.step (.turn c))
  | stale _ hq =>
    refine Replaces.returns ?_ (hr.step (.turn c))
    exact Or.inl ⟨_, hq⟩

lemma Pursuit.returns (h : Pursuit config p c es) (hf : (p.steps es).Free c)
    (hr : Proper endpoint config (p.steps es) c) : (p.steps es).CanReturn c o := by
  cases h with
  | seeks h => exact (h es List.prefix_rfl).returns hf hr
  | replaces _ h => exact h.returns hr
  | tries _ h =>
    rcases h with h | ⟨wake, h⟩
    · exact h.returns hr
    · exact h.returns hr fun q' ts' ho hr' => ho.returns hr'
  | gone h =>
    have hn : (p.steps es).phaseOf c = none := by rw [phaseOf, h]; rfl
    rcases hf with ⟨hp, -⟩ | hh | ⟨ph, hp, -⟩
    · cases hn.symm.trans hp
    · cases hn.symm.trans hh.1
    · cases hn.symm.trans hp

def counter (p : Provider) (c : CallId) : Nat :=
  match p.phaseOf c with
  | some (.opening t) | some (.pausing _ t) => t.attempt
  | _ => 0

lemma Pursuit.counted (h : Pursuit config p c es) : (p.steps es).counter c ≤ config.attempts := by
  have uncounted : (∀ t, (p.steps es).phaseOf c ≠ some (.opening t)) →
      (∀ wake t, (p.steps es).phaseOf c ≠ some (.pausing wake t)) → (p.steps es).counter c ≤ config.attempts :=
    fun ho hp => by
      rw [counter]
      split
      · exact absurd ‹_› (ho _)
      · exact absurd ‹_› (hp _ _)
      · exact Nat.zero_le _
  cases h with
  | seeks h => rcases (h es List.prefix_rfl).phase with h | h <;> exact uncounted (by simp [h]) (by simp [h])
  | replaces _ h => rcases h with ⟨_, h⟩ | ⟨_, h⟩ <;> exact uncounted (by simp [h]) (by simp [h])
  | tries _ h =>
    rcases h with h | ⟨wake, h⟩
    · rw [counter, h.phase]
      exact h.left
    · rw [counter, h.phase]
      exact Nat.le_of_lt h.left
  | gone h => exact uncounted (by simp [phaseOf, h]) (by simp [phaseOf, h])

/-- A call to connect that finds a usable connection changes nothing. Else it opens sockets with the configured
pauses in between, until one is open or the attempts are used up, and it does return if no other call keeps it
waiting, whatever comes of each attempt. -/
theorem connect_attempts (endpoint : Endpoint) (config : Config) (es₀ es : List Event) :
    let p := (new endpoint config).steps es₀
    let c := p.nextCall
    let s := p.step (.call .connect)
    let q := s.steps es
    (∀ e r, q.result? c = none → (q.step e).result? c = some r → Concludes endpoint config s c (es ++ [e]) r) ∧
    (q.Free c → ∀ o, q.CanReturn c o) ∧ q.counter c ≤ config.attempts := by
  intro p c s q
  have ho : Orderly p := (orderly_new endpoint config).steps es₀
  have hs : Proper endpoint config s c :=
    ⟨(settings_step p _).1.trans (settings_steps (new endpoint config) es₀), ho.steps [.call .connect],
      Nat.lt_succ_self _⟩
  have hq : Proper endpoint config q c := hs.steps es
  rcases pursuit_run (pursuit_new config p) hs es with h | ⟨x, hx⟩
  · refine ⟨fun e r _ hr => ?_, fun hf o => h.returns hf hq, h.counted⟩
    rcases h.step hq e with h | ⟨x, hx, h⟩
    · have hn := h.result?
      rw [steps_snoc] at hn
      cases hn.symm.trans hr
    · rw [steps_snoc] at hx
      cases hx.symm.trans (phaseOf_of_result hr)
      exact h
  · refine ⟨fun e r hn _ => ?_, fun _ o => canReturn_done hx, ?_⟩
    · rw [Provider.result?, show q.phaseOf c = _ from hx] at hn
      cases hn
    · rw [counter, show q.phaseOf c = _ from hx]
      exact Nat.zero_le _

theorem second_attempt_fails :
    let config : Config := { maxConnectionRetries := 2 }
    let p := (new here config).steps []
    let c := p.nextCall
    let s := p.step (.call .connect)
    let refused : Except Failure Unit := .error (.io .noSuchFile)
    let es := [.turn c, .opened c refused, .elapse 1750, .turn c]
    let e := .opened c refused
    let q := (s.steps es).step e
    let r := .error (.connectionFailed "node.ipc" 2 (Failure.io .noSuchFile).message)
    (s.steps es).result? c = none ∧ q.result? c = some r ∧
      Tried here config q [0, 1750] [⟨refused, 0, some 1750⟩, ⟨refused, 1750, none⟩] r ∧
      s.Free c ∧ ∀ o, s.CanReturn c o := by
  intro config p c s refused es e q r
  have hm : (s.steps es).result? c = none := by decide +kernel
  have hr : q.result? c = some r := by decide +kernel
  have hb : s.begun c (es ++ [e]) = [0, 1750] := by decide +kernel
  have ha : s.attempts c (es ++ [e]) = [⟨refused, 0, some 1750⟩, ⟨refused, 1750, none⟩] := by decide +kernel
  have hf : s.Free c := Or.inl ⟨rfl, rfl⟩
  have hc : Concludes here config s c (es ++ [e]) r := (connect_attempts here config [] es).1 e r hm hr
  have ht := hc.tried_of_begun (hb ▸ List.cons_ne_nil 0 [1750])
  rw [ha, hb, steps_snoc] at ht
  exact ⟨hm, hr, ht, hf, (connect_attempts here config [] []).2.1 hf⟩

end Provider

end SocketRpc
