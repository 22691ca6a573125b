import SocketRpc.Proofs.Provider.Solitude
import SocketRpc.Proofs.Script.Sessions

namespace SocketRpc.Session

open Provider (Event Operation Reply Whole Clean Lined Vacant)
open Script (afterScope withConnection)

variable {χ α ρ : Type} {s s' : Session χ α ρ} {p q : Provider} {body : Script χ α ρ} {x : Exit ρ}
  {frames : List (Exit ρ → Script χ α ρ)} {c : CallId} {e : Event}

def Unshared (_ : Provider) (e : Event) : Prop := (∀ op, e ≠ .call op) ∧ ∀ c, e ≠ .drop c

lemma Unshared.letsPart (h : Unshared p e) : p.LetsPart e := fun c hc => absurd hc (h.2 c)

structure Solo (s : Session χ α ρ) : Prop extends Sound s where
  lined : Lined s.provider
  own : ∀ b, (s.provider.calls.get? b).isSome → s.caller.call = some b

lemma Solo.sole (h : Solo s) (hc : ∀ b, s.caller.call = some b → b = c) : s.provider.Sole c := fun b hb =>
  Option.not_isSome_iff_eq_none.mp fun hs => hb (hc b (h.own b hs))

lemma Solo.no_call (h : Solo s) (hc : s.caller.call = none) (b : CallId) : s.provider.calls.get? b = none :=
  Option.not_isSome_iff_eq_none.mp fun hs => by cases hc.symm.trans (h.own b hs)

lemma known_before {b : CallId} (hn : ∀ op, e ≠ .call op) (hb : ((p.step e).calls.get? b).isSome) :
    (p.calls.get? b).isSome := by
  by_cases hs : p.subject e = some b
  · by_contra hk
    rw [Provider.step_unknown hs hn (Option.not_isSome_iff_eq_none.mp hk)] at hb
    exact hk hb
  · rwa [Provider.calls_other p hs] at hb

structure Lets (p : Provider) (e : Event) (c : CallId) : Prop where
  sole : p.Sole c
  subject : ∀ b, p.subject e = some b → b = c
  drop : ∀ b, e ≠ .drop b

lemma Solo.lets (h : Solo s) (hst : Step Unshared s s') :
    s'.provider = s.provider ∨ ∃ e c, s'.provider = s.provider.step e ∧ Lets s.provider e c := by
  cases hst with
  | go hn =>
    rcases next?_cases hn with ⟨op, k, ho, hc, rfl, rfl⟩ | ⟨op, k, c, r, ho, hc, hr, rfl, rfl⟩ | ⟨ho, rfl, -⟩
    · exact Or.inr ⟨.call op, _, rfl, fun b _ => h.no_call hc b, fun b hb => (Option.some.inj hb).symm,
        fun _ he => by cases he⟩
    · exact Or.inr ⟨.collect c, c, rfl, h.sole fun b hb => Option.some.inj (hb.symm.trans hc),
        fun b hb => (Option.some.inj hb).symm, fun _ he => by cases he⟩
    · exact Or.inl rfl
  | @pursue p t c e hn hc hs hd =>
    refine Or.inr ⟨e, c, rfl, h.sole fun b hb => Option.some.inj (hb.symm.trans hc),
      fun b hb => Option.some.inj (hb.symm.trans hs), fun b hb => ?_⟩
    subst hb
    cases hs
    exact hd rfl
  | @meanwhile p t e hn hs he =>
    cases hsub : p.subject e with
    | none =>
      refine Or.inr ⟨e, t.call.getD 0, rfl, h.sole fun b hb => ?_, fun b hb => (by cases hsub.symm.trans hb), he.2⟩
      rw [show t.call = some b from hb, Option.getD_some]
    -- nothing is known of a call of another caller
    | some b =>
      have hb : p.calls.get? b = none := Option.not_isSome_iff_eq_none.mp fun hb => hs b (h.own b hb) hsub
      exact Or.inl (Provider.step_unknown hsub he.1 hb)
  | answer a => exact Or.inl rfl
  | lapse hr he => exact absurd rfl (he.2 _)

lemma get?_collect {r : Except Failure Reply} (h : p.result? c = some r) :
    (p.step (.collect c)).calls.get? c = none := by
  simp [Provider.step, Provider.collect, h]

lemma Solo.step (h : Solo s) (hst : Step Unshared s s') : Solo s' := by
  have ho := h.whole.orderly
  refine ⟨hst.sound (fun _ _ => Unshared.letsPart) h.toSound, ?_, fun b hb => ?_⟩
  · rcases h.lets hst with he | ⟨e, c, he, -⟩
    · exact he ▸ h.lined
    · exact he ▸ h.lined.steps ho.ledger ho.guarded [e]
  · cases hst with
    | @go p t u e hn =>
      rcases next?_cases hn with ⟨op, k, ho, hc, rfl, rfl⟩ | ⟨op, k, c, r, ho, hc, hr, rfl, rfl⟩ | ⟨ho, rfl, _, _, -, rfl⟩
      · by_contra hne
        have hb : ((p.step (.call op)).calls.get? b).isSome := hb
        rw [Provider.calls_other (e := .call op) p hne, h.no_call hc b] at hb
        cases hb
      · obtain rfl : c = b := Option.some.inj (hc.symm.trans (h.own b (known_before (e := .collect c) nofun hb)))
        have hb : ((p.step (.collect c)).calls.get? c).isSome := hb
        rw [get?_collect hr] at hb
        cases hb
      · exact h.own b hb
    | pursue hn hc hs hd => exact h.own b (known_before (Provider.not_begins (h.known _ hc) hs) hb)
    | meanwhile hn hs he => exact h.own b (known_before he.1 hb)
    | answer a => exact h.own b hb
    | lapse hr he => exact absurd rfl (he.2 _)

lemma Solo.runs (h : Solo s) (hr : Runs Unshared s s') : Solo s' := by
  induction hr with
  | refl => exact h
  | tail _ hst ih => exact ih.step hst

structure Neat (s : Session χ α ρ) : Prop extends Solo s where
  clean : Clean s.provider

lemma Neat.step (h : Neat s) (hst : Step Unshared s s') : Neat s' := by
  refine ⟨h.toSolo.step hst, ?_⟩
  rcases h.lets hst with he | ⟨e, c, he, hl⟩
  · exact he ▸ h.clean
  · exact he ▸ h.clean.step h.whole.orderly hl.sole hl.subject hl.drop

def scope (body : Script χ α ρ) (frames : List (Exit ρ → Script χ α ρ)) : Caller χ α ρ :=
  { code := withConnection body, frames }

def opened (body : Script χ α ρ) (frames : List (Exit ρ → Script χ α ρ)) : Caller χ α ρ :=
  { code := .attempt body afterScope, frames }

def closing (frames : List (Exit ρ → Script χ α ρ)) (x : Exit ρ) : Caller χ α ρ :=
  { code := .exit x, frames := afterScope :: frames }

def Inside (frames : List (Exit ρ → Script χ α ρ)) (t : Caller χ α ρ) : Prop :=
  (∃ xs, t.frames = xs ++ afterScope :: frames) ∧ ∀ x, t ≠ closing frames x

structure Parted (frames : List (Exit ρ → Script χ α ρ)) (x : Exit ρ) (s : Session χ α ρ) : Prop where
  result : s.caller = { code := .exit x, frames }
  vacant : Vacant s.provider

structure Leaving (frames : List (Exit ρ → Script χ α ρ)) (x : Exit ρ) (s : Session χ α ρ) : Prop where
  here : s.caller = closing frames x ∨ s.caller.code = afterScope x ∧ s.caller.frames = frames
  ends : ∃ s', Runs Unshared s s' ∧ Parted frames x s'

structure Leaves (frames : List (Exit ρ → Script χ α ρ)) (x : Exit ρ) (s : Session χ α ρ) : Prop where
  ended : s.caller = closing frames x
  leaves : Until Unshared s (Leaving frames x) (Parted frames x)

structure Enters (body : Script χ α ρ) (frames : List (Exit ρ → Script χ α ρ)) (s : Session χ α ρ) : Prop where
  opened : s.caller = Session.opened body frames
  up : ∃ conn, s.provider.Up conn
  leaves : Until Unshared s (fun s => s.caller = Session.opened body frames ∨ Inside frames s.caller)
    (fun s => ∃ x, Leaves frames x s)

inductive Begins (body : Script χ α ρ) (frames : List (Exit ρ → Script χ α ρ)) (s₀ : Session χ α ρ) :
    Session χ α ρ → Prop where
  | enters {m s : Session χ α ρ} {c : CallId} {v : Reply} (hm : Runs Unshared s₀ m) (hc : m.caller.call = some c)
      (hr : m.provider.result? c = some (.ok v)) (h : Enters body frames s) : Begins body frames s₀ s
  | refused {m s : Session χ α ρ} {c : CallId} {f : Failure} (hm : Runs Unshared s₀ m)
      (hc : m.caller.call = some c) (hr : m.provider.result? c = some (.error f))
      (h : s.caller = { code := .error f, frames }) : Begins body frames s₀ s

def Scoped (body : Script χ α ρ) (frames : List (Exit ρ → Script χ α ρ)) (p : Provider) : Prop :=
  Until Unshared ⟨p, scope body frames⟩
    (fun s => s.caller.code = withConnection body ∧ s.caller.frames = frames)
    (Begins body frames ⟨p, scope body frames⟩)

inductive Departing (frames : List (Exit ρ → Script χ α ρ)) (x : Exit ρ) : Session χ α ρ → Prop where
  | ended {p : Provider} : Departing frames x ⟨p, closing frames x⟩
  | waits {s : Session χ α ρ} (h : Waits .disconnect (fun _ => .exit x) frames (fun _ => True)
      Provider.Departs (fun p r => r = .ok .nothing ∧ p.slot = none) s) : Departing frames x s

lemma Departing.here (h : Departing frames x s) :
    s.caller = closing frames x ∨ s.caller.code = afterScope x ∧ s.caller.frames = frames := by
  cases h with
  | ended => exact Or.inl rfl
  | waits h => exact Or.inr h.at

lemma Departing.step (h : Departing frames x s) (hs : Neat s) (hst : Step Unshared s s') :
    Departing frames x s' ∨ Parted frames x s' := by
  have hs' := hs.step hst
  cases h with
  | ended =>
    cases step_enter hst
    exact Or.inl (.waits (.begins trivial))
  | waits h =>
    refine (h.step course_departs hs.toSound hst).imp .waits fun ht => ?_
    cases ht with
    | intro hr hd => exact ⟨rfl, hs'.clean.vacant hs'.whole hd.2 (hs'.no_call rfl)⟩

lemma Departing.until (h : Departing frames x s) (hs : Neat s) {before : Session χ α ρ → Prop}
    (hb : ∀ s, Departing frames x s → Neat s → before s) : Until Unshared s before (Parted frames x) :=
  until_of_step (I := fun s => Departing frames x s ∧ Neat s) ⟨h, hs⟩ (fun s h => hb s h.1 h.2)
    fun _ _ ⟨h, hs⟩ hst => (h.step hs hst).imp_left fun h => ⟨h, hs.step hst⟩

lemma runs_awaited {t : Caller χ α ρ} {op : Operation} {k : Except Failure Reply → Script χ α ρ} {ds : List Event}
    {r : Except Failure Reply} (ht : t.code.operation? = some (op, k)) (hc : t.call = some c)
    (hd : ∀ d ∈ ds, d.awaited c) (hr : (p.steps ds).result? c = some r) :
    ∃ q r, Runs Unshared ⟨p, t⟩ ⟨q, t⟩ ∧ q.result? c = some r := by
  induction ds generalizing p with
  | nil => exact ⟨p, r, .refl, hr⟩
  | cons d ds ih =>
    cases hp : p.result? c with
    | some v => exact ⟨p, v, .refl, hp⟩
    | none =>
      have hn : t.next? p = none := by
        rw [Caller.next?, ht, hc]
        exact Option.map_eq_none_iff.mpr hp
      have ha := hd d List.mem_cons_self
      have first : Step Unshared ⟨p, t⟩ ⟨p.step d, t⟩ := by
        cases d with
        | turn b | opened b | closed b =>
          cases of_decide_eq_true ha
          exact .pursue hn hc rfl fun he => by cases he
        | listen | elapse =>
          exact .meanwhile hn (fun _ _ hs => by cases hs) ⟨fun _ he => (by cases he), fun _ he => by cases he⟩
        | _ => cases ha
      obtain ⟨q, v, hq, hv⟩ := ih (fun e he => hd e (List.mem_cons_of_mem _ he)) hr
      exact ⟨q, v, .head first hq, hv⟩

lemma Departing.parts (h : Departing frames x s) (hs : Neat s) : ∃ s', Runs Unshared s s' ∧ Parted frames x s' := by
  let t : Option CallId → Caller χ α ρ := fun call => { code := afterScope x, frames, call }
  -- once the call has returned, the scope hands on how the body ended
  have takes : ∀ {p c r}, Runs Unshared s ⟨p, t (some c)⟩ → p.result? c = some r →
      ∃ s', Runs Unshared s s' ∧ Parted frames x s' := fun {p c r} hr hres => by
    have last : Step Unshared ⟨p, t (some c)⟩ ⟨p.step (.collect c), { code := .exit x, frames }⟩ :=
      .go (e := some (.collect c)) (Option.map_eq_some_iff.mpr ⟨r, hres, rfl⟩)
    rcases h.until hs (fun _ h _ => h.here) _ (hr.tail last) with (he | he) | ⟨m, hm, hp, -⟩
    · exact absurd (congrArg Caller.frames he) List.ne_cons_self
    · cases he.1
    · exact ⟨m, hm, hp⟩
  have waits : ∀ {p c}, Runs Unshared s ⟨p, t (some c)⟩ → p.Departs c →
      ∃ s', Runs Unshared s s' ∧ Parted frames x s' := fun {p c} hr hd => by
    have hm := hs.toSolo.runs hr
    have hsole := hm.sole fun b hb => (Option.some.inj hb).symm
    obtain ⟨ds, r, -, hds, hres, -⟩ := hd.returns (o := fun _ => .ok ()) hm.lined hsole hm.whole.orderly
    obtain ⟨q, r, hq, hres⟩ := runs_awaited (t := t (some c)) rfl rfl hds hres
    exact takes (hr.trans hq) hres
  have begins : ∀ {p}, Runs Unshared s ⟨p, t none⟩ → ∃ s', Runs Unshared s s' ∧ Parted frames x s' :=
    fun {p} hr => waits (hr.tail (.go (e := some (.call .disconnect)) rfl))
      (Or.inl (Or.inl (Provider.get?_newCall p _)))
  cases h with
  | ended => exact begins (.single (.go (e := none) rfl))
  | waits h =>
    cases h with
    | begins => exact begins .refl
    | goesOn h => exact waits .refl h
    | returns h => exact takes .refl (result?_of_done h)

lemma leaves_of_ended (hs : Neat s) (h : s.caller = closing frames x) : Leaves frames x s := by
  obtain ⟨p, t⟩ := s
  obtain rfl : t = closing frames x := h
  exact ⟨rfl, Departing.ended.until hs fun _ h hs => ⟨h.here, h.parts hs⟩⟩

lemma enters_of_opened (hs : Solo s) (h : s.caller = opened body frames) (hu : ∃ conn, s.provider.Up conn) :
    Enters body frames s := by
  obtain ⟨p, t⟩ := s
  obtain rfl : t = opened body frames := h
  obtain ⟨conn, hup⟩ := hu
  refine ⟨rfl, ⟨conn, hup⟩, until_of_step
    (I := fun s => Neat s ∧ (s.caller = opened body frames ∨ Inside frames s.caller))
    ⟨⟨hs, Provider.clean_of_up hup⟩, Or.inl rfl⟩ (fun s h => h.2) fun s s' ⟨hs, h⟩ hst => ?_⟩
  have hs' := hs.step hst
  have stays : (∃ xs, s'.caller.frames = xs ++ afterScope :: frames) →
      Neat s' ∧ (s'.caller = opened body frames ∨ Inside frames s'.caller) ∨ ∃ x, Leaves frames x s' := fun hi => by
    by_cases hx : ∃ x, s'.caller = closing frames x
    · obtain ⟨x, hx⟩ := hx
      exact Or.inr ⟨x, leaves_of_ended hs' hx⟩
    · exact Or.inl ⟨hs', Or.inr ⟨hi, not_exists.mp hx⟩⟩
  obtain ⟨q, t⟩ := s
  rcases h with h | ⟨⟨xs, hi⟩, hx⟩
  · obtain rfl : t = opened body frames := h
    cases step_eq (e := none) (u := { code := body, frames := afterScope :: frames }) rfl hst
    exact stays ⟨[], rfl⟩
  · rcases step_within hi hst with hi | ⟨x, hc, hf, -⟩
    · exact stays hi
    · exact absurd (hs.exit_eq hc hf) (hx x)

lemma solo_of_idle (hw : Whole p) (hl : Lined p) (hc : ∀ c, p.calls.get? c = none) (code : Script χ α ρ)
    (frames : List (Exit ρ → Script χ α ρ)) : Solo ⟨p, { code, frames }⟩ :=
  ⟨⟨hw, nofun, fun _ => rfl⟩, hl, fun b hb => by cases (congrArg Option.isSome (hc b)).symm.trans hb⟩

/-- A scope connects first, and if that fails so does the scope, without its body. Else its body runs, and whatever
it does and however it ends, the scope then disconnects, and when it hands on how the body ended no connection is
held, no listener goes on, and nothing waits for a response or to be picked up. -/
theorem scope_disconnects {endpoint : Endpoint} {config : Config} {es : List Event}
    (h : (Provider.new endpoint config).Spares Provider.Phase.parting es)
    (hc : ∀ c, ((Provider.new endpoint config).steps es).calls.get? c = none) (body : Script χ α ρ)
    (frames : List (Exit ρ → Script χ α ρ)) : Scoped body frames ((Provider.new endpoint config).steps es) := by
  have hw : Whole ((Provider.new endpoint config).steps es) := (Provider.whole_new endpoint config).steps h
  intro s hr
  have connects := (course_connects (Or.inl rfl)).until (fun _ _ => Unshared.letsPart) hw trivial s hr
  refine connects.imp_right ?_
  rintro ⟨m, hm, ⟨n, hn, ht⟩, hs⟩
  refine ⟨m, hm, ?_, hs⟩
  have solo := (solo_of_idle hw (Provider.lined_steps endpoint config es) hc _ _).runs hm
  cases ht with
  | intro hres hd =>
    rcases hd with ⟨rfl, hu⟩ | ⟨address, n, reason, rfl⟩
    · exact .enters hn rfl hres (enters_of_opened solo rfl hu)
    · exact .refused hn rfl hres rfl

theorem panic_disconnects :
    let p := Provider.new Provider.here {}
    let body : Script Empty Empty Nat := .exit .panic
    p.Spares Provider.Phase.parting [] ∧ (∀ c, p.calls.get? c = none) ∧ Scoped body [] p ∧
      ∃ s, Runs Unshared ⟨p, scope body []⟩ s ∧ Parted [] .panic s := by
  intro p body
  have h : p.Spares Provider.Phase.parting [] := trivial
  have hc : ∀ c, p.calls.get? c = none := fun _ => rfl
  refine ⟨h, hc, scope_disconnects h hc body [], ?_⟩
  let t : Caller Empty Empty Nat := { scope body [] with call := some 0 }
  let m : List Event → Provider := p.steps
  have asks : Step Unshared ⟨p, scope body []⟩ ⟨m [.call .connect], t⟩ := .go (e := some (.call .connect)) rfl
  have looks : Step Unshared ⟨m [.call .connect], t⟩ ⟨m [.call .connect, .turn 0], t⟩ :=
    .pursue (c := 0) (e := .turn 0) rfl rfl rfl nofun
  have opens : Step Unshared ⟨m [.call .connect, .turn 0], t⟩ ⟨m [.call .connect, .turn 0, .opened 0 (.ok ())], t⟩ :=
    .pursue (c := 0) (e := .opened 0 (.ok ())) rfl rfl rfl nofun
  let q : Provider := m [.call .connect, .turn 0, .opened 0 (.ok ()), .collect 0]
  have takes : Step Unshared ⟨m [.call .connect, .turn 0, .opened 0 (.ok ())], t⟩ ⟨q, opened body []⟩ :=
    .go (e := some (.collect 0)) rfl
  have enters : Step Unshared ⟨q, opened body []⟩ ⟨q, closing [] .panic⟩ := .go (e := none) rfl
  have run : Runs Unshared ⟨p, scope body []⟩ ⟨q, closing [] .panic⟩ :=
    .head asks (.head looks (.head opens (.head takes (.single enters))))
  have solo : Solo (⟨p, scope body []⟩ : Session Empty Empty Nat) :=
    solo_of_idle (Provider.whole_new _ _) (Provider.lined_new _ _) hc _ _
  have up : q.Up ⟨0, 0⟩ := by decide +kernel
  obtain ⟨s, hs, hp⟩ := Departing.ended.parts ⟨solo.runs run, Provider.clean_of_up up⟩
  exact ⟨s, run.trans hs, hp⟩

end SocketRpc.Session
