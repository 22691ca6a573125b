import SocketRpc.Proofs.Script.Sessions

namespace SocketRpc

lemma Failure.classes (e : Failure) : e.isConnection = true ∨ e.isTransient = true ∨ e.isFatal = true := by
  cases e <;> simp [isConnection, isTransient, isFatal]

lemma Failure.class_unique (e : Failure) : (e.isConnection && e.isTransient) = false ∧
    (e.isConnection && e.isFatal) = false ∧ (e.isTransient && e.isFatal) = false := by
  cases e <;> exact ⟨rfl, rfl, rfl⟩

lemma Failure.eq_of_isFatal {e : Failure} (h : e.isFatal = true) :
    ∃ endpoint n reason, e = .connectionFailed endpoint n reason := by
  cases e <;> first | exact ⟨_, _, _, rfl⟩ | cases h

def Exit.keeps {ρ : Type} : Exit ρ → Bool
  | .again => true
  | .error e => e.isTransient
  | _ => false

namespace Session

open Provider (Event Reply Whole LetsPart)
open Script (Connections afterRound)

variable {χ α ρ : Type} {P : Provider → Event → Prop} {s s' s₀ : Session χ α ρ} {p q : Provider}
  {body : Nat → Script χ α ρ} {n : Nat} {x : Exit ρ} {conn : Provider.Connection}
  {frames : List (Exit ρ → Script χ α ρ)}

def entering (body : Nat → Script χ α ρ) (n : Nat) : Caller χ α ρ := { code := .attempt (body n) (afterRound body n) }

def ended (body : Nat → Script χ α ρ) (n : Nat) (x : Exit ρ) : Caller χ α ρ :=
  { code := .exit x, frames := [afterRound body n] }

def ensured (body : Nat → Script χ α ρ) (n : Nat) : Except Failure Reply → Script χ α ρ
  | .error e => .error e
  | .ok _ => .attempt (body n) (afterRound body n)

lemma afterRound_keeps (h : x.keeps = true) : afterRound body n x = .rounds body (n + 1) := by
  cases x with
  | again => rfl
  | error e =>
    have hc : e.isConnection = false := by
      have := (e.class_unique).1
      rwa [show e.isTransient = true from h, Bool.and_true] at this
    have ht : e.isTransient = true := h
    simp [afterRound, hc, ht]
  | _ => cases h

inductive Returned (P : Provider → Event → Prop) (body : Nat → Script χ α ρ) (s₀ : Session χ α ρ) : Exit ρ → Prop where
  | broken {n : Nat} {q : Provider} {v : ρ} (h : Runs P s₀ ⟨q, ended body n (.value v)⟩) :
      Returned P body s₀ (.value v)
  | panicked {n : Nat} {q : Provider} (h : Runs P s₀ ⟨q, ended body n .panic⟩) : Returned P body s₀ .panic
  | failed {n k : Nat} {q : Provider} {endpoint reason : String}
      (h : Runs P s₀ ⟨q, ended body n (.error (.connectionFailed endpoint k reason))⟩) :
      Returned P body s₀ (.error (.connectionFailed endpoint k reason))
  | exhausted {n k : Nat} {q : Provider} {c : CallId} {endpoint reason : String}
      (h : Runs P s₀ ⟨q, { code := Script.round body n, call := some c }⟩)
      (hr : q.result? c = some (.error (.connectionFailed endpoint k reason))) :
      Returned P body s₀ (.error (.connectionFailed endpoint k reason))

inductive Loop (P : Provider → Event → Prop) (body : Nat → Script χ α ρ) (s₀ : Session χ α ρ) :
    Session χ α ρ → Prop where
  | turning {p : Provider} (n : Nat) : Loop P body s₀ ⟨p, { code := .rounds body n }⟩
  | ensuring {s : Session χ α ρ} (n : Nat) (h : Waits .ensureConnected (ensured body n) [] (fun _ => True)
      Provider.Approaches Reaches s) : Loop P body s₀ s
  | enters {p : Provider} {conn : Provider.Connection} (n : Nat) (h : p.Up conn) :
      Loop P body s₀ ⟨p, entering body n⟩
  | within {p : Provider} {t : Caller χ α ρ} {xs : List (Exit ρ → Script χ α ρ)} (n : Nat)
      (h : t.frames = xs ++ [afterRound body n]) : Loop P body s₀ ⟨p, t⟩
  | leaving {s : Session χ α ρ} (n : Nat) (h : Waits .disconnect (fun _ => .rounds body (n + 1)) [] (fun _ => True)
      Provider.Departs (fun p r => r = .ok .nothing ∧ p.slot = none) s) : Loop P body s₀ s
  | stopped {p : Provider} {x : Exit ρ} (h : Returned P body s₀ x) : Loop P body s₀ ⟨p, { code := .exit x }⟩

lemma Loop.ended (hr : Runs P s₀ ⟨p, Session.ended body n x⟩) :
    Loop P body s₀ ⟨p, { code := afterRound body n x }⟩ := by
  cases x with
  | value v => exact .stopped (.broken hr)
  | again => exact .turning (n + 1)
  | panic => exact .stopped (.panicked hr)
  | error e =>
    rw [afterRound]
    split
    · exact .leaving n (.begins trivial)
    · split
      · exact .turning (n + 1)
      · obtain ⟨endpoint, k, reason, rfl⟩ := Failure.eq_of_isFatal <|
          (e.classes.resolve_left ‹_›).resolve_left ‹_›
        exact .stopped (.failed hr)

lemma Loop.step (h : Loop P body s₀ s) (hr : Runs P s₀ s) (hs : Sound s) (hst : Step P s s') : Loop P body s₀ s' := by
  cases h with
  | turning n =>
    cases step_eq (e := none) (u := { code := Script.round body n }) rfl hst
    exact .ensuring n (.begins trivial)
  | ensuring n h =>
    rcases h.step (course_connects (Or.inr rfl)) hs hst with h | ⟨hres, ⟨rfl, conn, hu⟩ | ⟨endpoint, k, reason, rfl⟩⟩
    · exact .ensuring n h
    · exact .enters n hu
    · exact .stopped (.exhausted hr hres)
  | enters n h =>
    cases step_eq (e := none) (u := { code := body n, frames := [afterRound body n] }) rfl hst
    exact .within n (List.nil_append _).symm
  | within n h =>
    rename_i p t xs
    rcases step_within h hst with ⟨ys, hy⟩ | ⟨x, hc, hf, rfl⟩
    · exact .within n hy
    · obtain rfl : t = Session.ended body n x := hs.exit_eq hc hf
      exact .ended hr
  | leaving n h =>
    rcases h.step course_departs hs hst with h | ⟨hres, rfl, hn⟩
    · exact .leaving n h
    · exact .turning (n + 1)
  | stopped h =>
    obtain ⟨q, t⟩ := s'
    obtain rfl : t = _ := step_over hst
    exact .stopped h

lemma Loop.runs (hP : ∀ p e, P p e → p.LetsPart e) (hp : Whole p)
    (h : Runs P ⟨p, { code := Script.run body }⟩ s) : Loop P body ⟨p, { code := Script.run body }⟩ s := by
  have hs : Sound (⟨p, { code := Script.run body }⟩ : Session χ α ρ) := ⟨hp, nofun, fun _ => rfl⟩
  induction h with
  | refl => exact .turning 0
  | tail hr hst ih => exact ih.step hr (Runs.sound hP hr hs) hst

lemma Loop.up (h : Loop P body s₀ ⟨q, entering body n⟩) : ∃ conn, q.Up conn := by
  generalize hs : (⟨q, entering body n⟩ : Session χ α ρ) = s at h
  cases h with
  | enters m h =>
    obtain ⟨rfl, -⟩ := Session.mk.inj hs
    exact ⟨_, h⟩
  | ensuring m h | leaving m h => cases hs ▸ h.at.1
  | within m h =>
    cases hs
    exact absurd h (by simp [entering])
  | turning | stopped => cases hs

lemma Loop.returned (h : Loop P body s₀ ⟨q, { code := .exit x }⟩) : Returned P body s₀ x := by
  generalize hs : (⟨q, { code := .exit x }⟩ : Session χ α ρ) = s at h
  cases h with
  | stopped h =>
    cases hs
    exact h
  | ensuring m h | leaving m h => cases hs ▸ h.at.1
  | within m h =>
    cases hs
    exact absurd h (by simp)
  | turning | enters => cases hs

lemma Past.runs (h : Runs P ⟨q, ended body n x⟩ s) : q.Past s.provider := by
  obtain ⟨es, he⟩ := Runs.events h
  rw [he]
  exact .steps q es

lemma renews {e : Failure} (hc : e.isConnection = true) (hP : ∀ p e, P p e → p.LetsPart e)
    (hs : Sound (⟨q, ended body n (.error e)⟩ : Session χ α ρ)) (h : Runs P ⟨q, ended body n (.error e)⟩ s) :
    s = ⟨q, ended body n (.error e)⟩ ∨ Waits .disconnect (fun _ => .rounds body (n + 1)) [] (fun _ => True)
      Provider.Departs (fun p r => r = .ok .nothing ∧ p.slot = none) s ∨ q.BegunSince s.provider := by
  induction h with
  | refl => exact Or.inl rfl
  | tail hr hst ih =>
    rcases ih with rfl | ih | ih
    · refine Or.inr (Or.inl ?_)
      cases step_enter hst
      rw [afterRound, if_pos hc]
      exact .begins trivial
    · refine Or.inr ((ih.step course_departs (Runs.sound hP hr hs) hst).imp_right fun ht => ?_)
      have hpast := Past.runs (hr.tail hst)
      cases ht with
      | intro hres hd => exact hpast.begunSince hd.2
    · refine Or.inr (Or.inr ?_)
      rcases hst.events with he | ⟨e, he, -⟩
      · exact he ▸ ih
      · exact he ▸ ih.steps [e]

def Resumes (body : Nat → Script χ α ρ) (n : Nat) (x : Exit ρ) (t : Caller χ α ρ) : Prop :=
  t = ended body n x ∨ t = { code := .rounds body (n + 1) } ∨ t.code = Script.round body (n + 1) ∧ t.frames = []

lemma keeps_until (hk : x.keeps = true) (hP : ∀ p e, P p e → p.LetsPart e)
    (hkeep : ∀ p e, P p e → p.Up conn → (p.step e).Up conn) (hw : Whole q) (hu : q.Up conn) :
    Until P ⟨q, ended body n x⟩ (fun s => Resumes body n x s.caller)
      (fun s => s.caller = entering body (n + 1) ∧ s.provider.Up conn) := by
  let A : Provider → CallId → Prop := fun p c => p.Approaches c ∧ p.Up conn
  let D : Provider → Except Failure Reply → Prop := fun p r => r = .ok .nothing ∧ p.Up conn
  refine until_of_step (I := fun s => Sound s ∧ (s = ⟨q, ended body n x⟩ ∨
    s = ⟨q, { code := .rounds body (n + 1) }⟩ ∨
      Waits .ensureConnected (ensured body (n + 1)) [] (·.Up conn) A D s))
    ⟨⟨hw, nofun, fun _ => rfl⟩, Or.inl rfl⟩ (fun s h => ?_) fun s s' ⟨hs, h⟩ hst => ?_
  · rcases h.2 with rfl | rfl | h
    · exact Or.inl rfl
    · exact Or.inr (Or.inl rfl)
    · exact Or.inr (Or.inr h.at)
  · have hs' := hst.sound hP hs
    rcases h with rfl | rfl | h
    · cases step_enter hst
      exact Or.inl ⟨hs', Or.inr (Or.inl (by rw [afterRound_keeps hk]))⟩
    · cases step_eq (e := none) (u := { code := Script.round body (n + 1) }) rfl hst
      exact Or.inl ⟨hs', Or.inr (Or.inr (.begins hu))⟩
    · rcases h.step (course_keeps hkeep) hs hst with h | ⟨hres, rfl, hu⟩
      · exact Or.inl ⟨hs', Or.inr (Or.inr h)⟩
      · exact Or.inr ⟨rfl, hu⟩

lemma comes_to (P : Provider → Event → Prop) (body : Nat → Script χ α ρ) (n : Nat) (hu : q.Up conn)
    (hl : q.lock.holder = none) : ∃ r, Runs P ⟨q, { code := .rounds body n }⟩ ⟨r, entering body n⟩ := by
  let c := q.nextCall
  let m := q.step (.call .ensureConnected)
  let code : Script χ α ρ := Script.round body n
  have hc : m.calls.get? c = some { op := .ensureConnected } := Provider.get?_newCall q _
  have hm : m.result? c = none := Provider.result?_of_phase (Provider.phaseOf_of_call hc) nofun
  have hr := (Provider.turn_live hc hl (Provider.isLive_iff.mpr ⟨conn, (unaltered_newCall q _).up.mpr hu⟩)).1
  have begins : Step P ⟨q, { code := .rounds body n }⟩ ⟨q, { code }⟩ := .go (e := none) rfl
  have asks : Step P ⟨q, { code }⟩ ⟨m, { code, call := some c }⟩ := .go (e := some (.call .ensureConnected)) rfl
  have looks : Step P ⟨m, { code, call := some c }⟩ ⟨m.step (.turn c), { code, call := some c }⟩ :=
    .pursue (Option.map_eq_none_iff.mpr hm) rfl rfl nofun
  have takes : Step P ⟨m.step (.turn c), { code, call := some c }⟩
      ⟨(m.step (.turn c)).step (.collect c), entering body n⟩ :=
    .go (e := some (.collect c)) (Option.map_eq_some_iff.mpr ⟨_, result?_of_done hr, rfl⟩)
  exact ⟨_, .head begins (.head asks (.head looks (.single takes)))⟩

structure Reconnects (body : Nat → Script χ α ρ) (p : Provider) : Prop where
  ready : ∀ n q, Runs LetsPart ⟨p, { code := Script.run body }⟩ ⟨q, entering body n⟩ → ∃ conn, q.Up conn
  renewed : ∀ n m q r e, Runs LetsPart ⟨p, { code := Script.run body }⟩ ⟨q, ended body n (.error e)⟩ →
    e.isConnection = true → Runs LetsPart ⟨q, ended body n (.error e)⟩ ⟨r, entering body m⟩ →
      ∃ conn, r.Up conn ∧ q.nextListener ≤ conn.listener ∧ q.nextSocket ≤ conn.writer
  kept : ∀ n q x conn, Runs LetsPart ⟨p, { code := Script.run body }⟩ ⟨q, ended body n x⟩ → x.keeps = true →
    q.Up conn → ∀ P : Provider → Event → Prop,
      (∀ p e, P p e → p.LetsPart e ∧ (p.Up conn → (p.step e).Up conn)) →
        Until P ⟨q, ended body n x⟩ (fun s => Resumes body n x s.caller)
          (fun s => s.caller = entering body (n + 1) ∧ s.provider.Up conn) ∧
        (q.lock.holder = none → ∃ r, Runs P ⟨q, ended body n x⟩ ⟨r, entering body (n + 1)⟩)
  breaks : ∀ n q v, Runs LetsPart ⟨p, { code := Script.run body }⟩ ⟨q, ended body n (.value v)⟩ →
    ∀ s, Step LetsPart ⟨q, ended body n (.value v)⟩ s ↔ s = ⟨q, { code := .exit (.value v) }⟩
  returned : ∀ q x, Runs LetsPart ⟨p, { code := Script.run body }⟩ ⟨q, { code := .exit x }⟩ →
    Returned LetsPart body ⟨p, { code := Script.run body }⟩ x

/-- What a stream of connections yields: a usable one, or a failure to connect and then nothing any more. -/
def Yields (k : Option (Except Failure Unit) → Connections → Script χ α ρ)
    (frames : List (Exit ρ → Script χ α ρ)) (s : Session χ α ρ) : Prop :=
  s.caller = { code := k (some (.ok ())) {}, frames } ∧ (∃ conn, s.provider.Up conn) ∨
    ∃ endpoint n reason last,
      s.caller = { code := k (some (.error (.connectionFailed endpoint n reason))) last, frames } ∧
        ∀ f : Option (Except Failure Unit) → Connections → Script χ α ρ, last.next f = f none last

def Streams (χ α ρ : Type) (p : Provider) : Prop :=
  ∀ (k : Option (Except Failure Unit) → Connections → Script χ α ρ) (frames : List (Exit ρ → Script χ α ρ)),
    Until LetsPart ⟨p, { code := Connections.next {} k, frames }⟩
      (fun s => s.caller.code = Connections.next {} k ∧ s.caller.frames = frames) (Yields k frames)

lemma streams_of_whole (hw : Whole p) : Streams χ α ρ p := by
  intro k frames s hr
  refine ((course_connects (Or.inr rfl)).until (fun _ _ h => h) hw trivial s hr).imp_right ?_
  rintro ⟨m, hm, ⟨m', -, ht⟩, hs⟩
  refine ⟨m, hm, ?_, hs⟩
  cases ht with
  | intro hres hd =>
    rcases hd with ⟨rfl, hu⟩ | ⟨endpoint, n, reason, rfl⟩
    · exact Or.inl ⟨rfl, hu⟩
    · exact Or.inr ⟨endpoint, n, reason, { running := false }, rfl, fun _ => rfl⟩

/-- Every body of a loop begins over a usable connection, which after a connection failure is a new one and else the
one before as long as it is usable. The loop ends with the value of a body, and fails only where it cannot connect or
a body tells so. Streams yield usable connections until there is none to be had. -/
theorem run_reconnects {endpoint : Endpoint} {config : Config} {es : List Event}
    (h : (Provider.new endpoint config).Spares Provider.Phase.parting es) (body : Nat → Script χ α ρ) :
    Reconnects body ((Provider.new endpoint config).steps es) ∧
      Streams χ α ρ ((Provider.new endpoint config).steps es) := by
  have hw : Whole ((Provider.new endpoint config).steps es) := (Provider.whole_new endpoint config).steps h
  have lets : ∀ p e, LetsPart p e → p.LetsPart e := fun _ _ h => h
  have sound : ∀ {s}, Runs LetsPart ⟨_, { code := Script.run body }⟩ s → Sound s := fun hr =>
    Runs.sound lets hr ⟨hw, nofun, fun _ => rfl⟩
  refine ⟨⟨fun n q hr => (Loop.runs lets hw hr).up, fun n m q r e hr hc hn => ?_,
    fun n q x conn hr hk hu P hP => ⟨?_, fun hl => ?_⟩, fun n q v hr s => ?_,
    fun q x hr => (Loop.runs lets hw hr).returned⟩, streams_of_whole hw⟩
  · obtain ⟨conn, hu⟩ := (Loop.runs lets hw (hr.trans hn)).up
    refine ⟨conn, hu, ?_⟩
    rcases renews hc lets (sound hr) hn with he | hd | hb
    · cases he
    · cases hd.at.1
    · exact hb.began conn hu.slot
  · exact keeps_until hk (fun p e h => (hP p e h).1) (fun p e h => (hP p e h).2) (sound hr).whole hu
  · obtain ⟨r, hr⟩ := comes_to P body (n + 1) hu hl
    refine ⟨r, .head (.go (e := none) ?_) hr⟩
    exact congrArg (fun code => some (none, ({ code } : Caller χ α ρ))) (afterRound_keeps hk)
  · refine ⟨step_enter (f := afterRound body n), fun hs => ?_⟩
    rw [hs]
    exact .go (e := none) rfl

def onceConnected : List Event := [.call .connect, .turn 0, .opened 0 (.ok ()), .collect 0]

def twoRounds : Nat → Script Empty Empty Nat
  | 0 => .error .connectionClosed
  | _ => .value 7

theorem two_rounds_reconnect :
    let p := (Provider.new Provider.here {}).steps onceConnected
    (Provider.new Provider.here {}).Spares Provider.Phase.parting onceConnected ∧ Reconnects twoRounds p ∧
      Streams Empty Empty Nat p ∧
      ∃ q, Runs LetsPart ⟨p, { code := Script.run twoRounds }⟩ ⟨q, entering twoRounds 0⟩ ∧ ∃ conn, q.Up conn := by
  intro p
  have h : (Provider.new Provider.here {}).Spares Provider.Phase.parting onceConnected := by decide +kernel
  obtain ⟨hr, hs⟩ := run_reconnects h twoRounds
  have hu : p.Up ⟨0, 0⟩ := by decide +kernel
  obtain ⟨q, hq⟩ := comes_to LetsPart twoRounds 0 hu (by decide +kernel)
  exact ⟨h, hr, hs, q, hq, hr.ready 0 q hq⟩

end Session

end SocketRpc
