import SocketRpc.Proofs.Provider.Upkeep
import SocketRpc.Script

/-!
A caller and the provider it uses, step by step. What an operation comes to is told by the call that is made for it:
how it begins, where it may be, and with what it returns.
-/

namespace SocketRpc

open Provider (Event Operation Reply Whole)
open Relation (ReflTransGen)

structure Session (χ α ρ : Type) where
  provider : Provider
  caller : Caller χ α ρ

namespace Session

variable {χ α ρ : Type} {P : Provider → Event → Prop} {s s' : Session χ α ρ} {p : Provider}
  {t u : Caller χ α ρ} {code : Script χ α ρ} {frames : List (Exit ρ → Script χ α ρ)} {c : CallId} {e : Event}

/-- A caller goes on as soon as it can: nothing comes between the return of a call and what follows. While it waits,
its call takes steps, and others do what `P` allows. Its own steps are answered in any way, and it may give an
operation up at any time, where `P` allows it to drop the call. -/
inductive Step (P : Provider → Event → Prop) : Session χ α ρ → Session χ α ρ → Prop where
  | go {p : Provider} {t u : Caller χ α ρ} {e : Option Event} (h : t.next? p = some (e, u)) :
      Step P ⟨p, t⟩ ⟨p.steps e.toList, u⟩
  | pursue {p : Provider} {t : Caller χ α ρ} {c : CallId} {e : Event} (h : t.next? p = none)
      (hc : t.call = some c) (hs : p.subject e = some c) (hd : e ≠ .drop c) : Step P ⟨p, t⟩ ⟨p.step e, t⟩
  | meanwhile {p : Provider} {t : Caller χ α ρ} {e : Event} (h : t.next? p = none)
      (hs : ∀ c, t.call = some c → p.subject e ≠ some c) (he : P p e) : Step P ⟨p, t⟩ ⟨p.step e, t⟩
  | answer {p : Provider} {x : χ} {k : α → Script χ α ρ} {frames : List (Exit ρ → Script χ α ρ)} (a : α) :
      Step P ⟨p, { code := .aside x k, frames }⟩ ⟨p, { code := k a, frames }⟩
  | lapse {p : Provider} {ms : Nat} {op : Operation} {k : Option (Except Failure Reply) → Script χ α ρ}
      {frames : List (Exit ρ → Script χ α ρ)} {c : CallId} (h : p.result? c = none) (he : P p (.drop c)) :
      Step P ⟨p, { code := .operateWithin ms op k, frames, call := some c }⟩
        ⟨p.step (.drop c), { code := k none, frames }⟩

abbrev Runs (P : Provider → Event → Prop) : Session χ α ρ → Session χ α ρ → Prop := ReflTransGen (Step P)

def Until (P : Provider → Event → Prop) (s : Session χ α ρ) (before goal : Session χ α ρ → Prop) : Prop :=
  ∀ s', Runs P s s' → before s' ∨ ∃ m, Runs P s m ∧ goal m ∧ Runs P m s'

lemma until_of_step {I before goal : Session χ α ρ → Prop} (h : I s) (hb : ∀ s, I s → before s)
    (step : ∀ s s', I s → Step P s s' → I s' ∨ goal s') : Until P s before goal := by
  intro s' hr
  have hi : I s' ∨ ∃ m, Runs P s m ∧ goal m ∧ Runs P m s' := by
    induction hr with
    | refl => exact Or.inl h
    | tail hr hs ih =>
      rcases ih with hi | ⟨m, hm, hg, hr⟩
      · exact (step _ _ hi hs).imp_right fun hg => ⟨_, hr.tail hs, hg, .refl⟩
      · exact Or.inr ⟨m, hm, hg, hr.tail hs⟩
  exact hi.imp_left (hb s')

lemma next?_cases {e : Option Event} (h : t.next? p = some (e, u)) :
    (∃ op k, t.code.operation? = some (op, k) ∧ t.call = none ∧ e = some (.call op) ∧
      u = { t with call := some p.nextCall }) ∨
    (∃ op k c r, t.code.operation? = some (op, k) ∧ t.call = some c ∧ p.result? c = some r ∧
      e = some (.collect c) ∧ u = t.goOn (k r)) ∨
    t.code.operation? = none ∧ e = none ∧ ∃ code frames, t.code.enter? t.frames = some (code, frames) ∧
      u = { t with code, frames } := by
  rw [Caller.next?] at h
  split at h
  · rename_i op k ho hc
    cases h
    exact Or.inl ⟨op, k, ho, hc, rfl, rfl⟩
  · rename_i op k c ho hc
    obtain ⟨r, hr, he⟩ := Option.map_eq_some_iff.mp h
    cases he
    exact Or.inr (Or.inl ⟨op, k, c, r, ho, hc, hr, rfl, rfl⟩)
  · rename_i ho
    obtain ⟨⟨code, frames⟩, hr, he⟩ := Option.map_eq_some_iff.mp h
    cases he
    exact Or.inr (Or.inr ⟨ho, rfl, code, frames, hr, rfl⟩)

lemma step_eq {e : Option Event} (h : t.next? p = some (e, u)) (hst : Step P ⟨p, t⟩ s) : s = ⟨p.steps e.toList, u⟩ := by
  cases hst with
  | go hn =>
    cases h.symm.trans hn
    rfl
  | pursue hn | meanwhile hn => cases h.symm.trans hn
  | answer => cases h
  | lapse hr =>
    rw [Caller.next?] at h
    obtain ⟨r, hr', -⟩ := Option.map_eq_some_iff.mp h
    cases hr.symm.trans hr'

lemma step_enter {call : Option CallId} {f : Exit ρ → Script χ α ρ} {r : Exit ρ}
    (h : Step P ⟨p, { code := .exit r, frames := f :: frames, call }⟩ s) : s = ⟨p, { code := f r, frames, call }⟩ :=
  step_eq (e := none) (u := { code := f r, frames, call }) rfl h

lemma step_over {r : Exit ρ} (h : Step P ⟨p, { code := .exit r }⟩ s) : s.caller = { code := .exit r } := by
  cases h with
  | go h => cases h
  | pursue | meanwhile => rfl

lemma step_within {f : Exit ρ → Script χ α ρ} {xs : List (Exit ρ → Script χ α ρ)} (ht : t.frames = xs ++ f :: frames)
    (h : Step P ⟨p, t⟩ s) : (∃ ys, s.caller.frames = ys ++ f :: frames) ∨
      ∃ r, t.code = .exit r ∧ t.frames = f :: frames ∧ s = ⟨p, { code := f r, frames, call := t.call }⟩ := by
  cases h with
  | go h =>
    rcases next?_cases h with ⟨op, k, -, -, -, rfl⟩ | ⟨op, k, c, r, -, -, -, -, rfl⟩ | ⟨-, rfl, code, top, he, rfl⟩
    · exact Or.inl ⟨xs, ht⟩
    · exact Or.inl ⟨xs, ht⟩
    · rw [Script.enter?.eq_def] at he
      split at he
      · rename_i r g fs hc hf
        cases he
        cases xs with
        | nil =>
          obtain ⟨rfl, rfl⟩ := List.cons.inj (hf.symm.trans ht)
          exact Or.inr ⟨r, hc, hf, rfl⟩
        | cons x xs => exact Or.inl ⟨xs, (List.cons.inj (hf.symm.trans ht)).2⟩
      · cases he
        exact Or.inl ⟨_ :: xs, congrArg (_ :: ·) ht⟩
      · cases he
        exact Or.inl ⟨xs, ht⟩
      · cases he
  | pursue | meanwhile | answer | lapse => exact Or.inl ⟨xs, ht⟩

/-- What holds along every run in which no call is dropped that takes a connection down. -/
structure Sound (s : Session χ α ρ) : Prop where
  whole : Whole s.provider
  known : ∀ c, s.caller.call = some c → c < s.provider.nextCall
  waits : s.caller.code.operation? = none → s.caller.call = none

lemma Sound.exit_eq {x : Exit ρ} (hs : Sound (⟨p, t⟩ : Session χ α ρ)) (hc : t.code = .exit x)
    (hf : t.frames = frames) : t = { code := .exit x, frames } := by
  obtain ⟨code, top, call⟩ := t
  obtain rfl : code = .exit x := hc
  obtain rfl : top = frames := hf
  obtain rfl : call = none := hs.waits rfl
  rfl

lemma Step.events (h : Step P s s') : s'.provider = s.provider ∨
    ∃ e, s'.provider = s.provider.step e ∧ ((∀ c, e ≠ .drop c) ∨ P s.provider e) := by
  cases h with
  | go h =>
    rcases next?_cases h with ⟨op, k, -, -, rfl, -⟩ | ⟨op, k, c, r, -, -, -, rfl, -⟩ | ⟨-, rfl, -⟩
    · exact Or.inr ⟨.call op, rfl, Or.inl fun _ he => by cases he⟩
    · exact Or.inr ⟨.collect c, rfl, Or.inl fun _ he => by cases he⟩
    · exact Or.inl rfl
  | pursue h hc hs hd =>
    refine Or.inr ⟨_, rfl, Or.inl fun b hb => ?_⟩
    subst hb
    cases hs
    exact hd rfl
  | meanwhile h hs he => exact Or.inr ⟨_, rfl, Or.inr he⟩
  | answer a => exact Or.inl rfl
  | lapse h he => exact Or.inr ⟨_, rfl, Or.inr he⟩

lemma Step.nextCall (h : Step P s s') : s.provider.nextCall ≤ s'.provider.nextCall := by
  rcases h.events with he | ⟨e, he, -⟩
  · exact Nat.le_of_eq (congrArg Provider.nextCall he).symm
  · exact he ▸ Provider.nextCall_le _ e

lemma Step.sound (hP : ∀ p e, P p e → p.LetsPart e) (h : Step P s s') (hs : Sound s) : Sound s' := by
  have whole : Whole s'.provider := by
    rcases h.events with he | ⟨e, he, hd⟩
    · exact he ▸ hs.whole
    · refine he ▸ hs.whole.step fun c hc => ?_
      rcases hd with hd | hd
      · exact absurd hc (hd c)
      · exact hP _ _ hd c hc
  have known : ∀ c, s.caller.call = some c → c < s'.provider.nextCall := fun c hc =>
    Nat.lt_of_lt_of_le (hs.known c hc) h.nextCall
  cases h with
  | go h =>
    rcases next?_cases h with ⟨op, k, ho, hc, rfl, rfl⟩ | ⟨op, k, c, r, ho, hc, hr, rfl, rfl⟩ |
      ⟨ho, rfl, code, frames, -, rfl⟩
    · refine ⟨whole, fun c hc => ?_, fun hn => by cases ho.symm.trans hn⟩
      cases hc
      exact Nat.lt_succ_self _
    · exact ⟨whole, nofun, fun _ => rfl⟩
    · exact ⟨whole, known, fun _ => hs.waits ho⟩
  | pursue | meanwhile => exact ⟨whole, known, hs.waits⟩
  | answer | lapse => exact ⟨whole, nofun, fun _ => rfl⟩

lemma Runs.sound (hP : ∀ p e, P p e → p.LetsPart e) (h : Runs P s s') (hs : Sound s) : Sound s' := by
  induction h with
  | refl => exact hs
  | tail _ h ih => exact h.sound hP ih

lemma Runs.events (h : Runs P s s') : ∃ es, s'.provider = s.provider.steps es := by
  induction h with
  | refl => exact ⟨[], rfl⟩
  | tail _ h ih =>
    obtain ⟨es, hes⟩ := ih
    rcases h.events with he | ⟨e, he, -⟩
    · exact ⟨es, he.trans hes⟩
    · exact ⟨es ++ [e], by rw [he, hes, Provider.steps_snoc]⟩

section Operations

variable {op : Operation} {k : Except Failure Reply → Script χ α ρ} {call : Option CallId}

inductive Operates (P : Provider → Event → Prop) (p : Provider) (op : Operation)
    (k : Except Failure Reply → Script χ α ρ) (frames : List (Exit ρ → Script χ α ρ)) :
    Option CallId → Session χ α ρ → Prop where
  | asks : Operates P p op k frames none
      ⟨p.step (.call op), { code := .operate op k, frames, call := some p.nextCall }⟩
  | takes {c : CallId} {r : Except Failure Reply} (hr : p.result? c = some r) :
      Operates P p op k frames (some c) ⟨p.step (.collect c), { code := k r, frames }⟩
  | waits {c : CallId} {e : Event} (hr : p.result? c = none) (hd : e ≠ .drop c)
      (he : p.subject e = some c ∨ p.subject e ≠ some c ∧ P p e) :
      Operates P p op k frames (some c) ⟨p.step e, { code := .operate op k, frames, call := some c }⟩

lemma step_operate (h : Step P ⟨p, { code := .operate op k, frames, call }⟩ s) : Operates P p op k frames call s := by
  cases h with
  | go h =>
    rcases next?_cases h with ⟨op, k, ho, hc, rfl, rfl⟩ | ⟨op, k, c, r, ho, hc, hr, rfl, rfl⟩ | ⟨ho, -⟩
    · cases ho
      cases hc
      exact .asks
    · cases ho
      cases hc
      exact .takes hr
    · cases ho
  | pursue h hc hs hd =>
    cases hc
    exact .waits (Option.map_eq_none_iff.mp h) hd (Or.inl hs)
  | meanwhile h hs he =>
    cases call with
    | none => cases h
    | some c =>
      refine .waits (Option.map_eq_none_iff.mp h) ?_ (Or.inr ⟨hs c rfl, he⟩)
      rintro rfl
      exact hs c rfl rfl

structure Course (P : Provider → Event → Prop) (op : Operation) (B : Provider → Prop)
    (A : Provider → CallId → Prop) (D : Provider → Except Failure Reply → Prop) : Prop where
  begins : ∀ {p}, B p → A (p.step (.call op)) p.nextCall
  goesOn : ∀ {p c e}, A p c → Whole p → c < p.nextCall → e ≠ .drop c →
    p.subject e = some c ∨ p.subject e ≠ some c ∧ P p e →
      A (p.step e) c ∨ ∃ r, (p.step e).phaseOf c = some (.done r) ∧ D (p.step e) r
  pending : ∀ {p c}, A p c → p.result? c = none
  taken : ∀ {p c r}, D p r → p.result? c = some r → D (p.step (.collect c)) r

inductive Waits (op : Operation) (k : Except Failure Reply → Script χ α ρ) (frames : List (Exit ρ → Script χ α ρ))
    (B : Provider → Prop) (A : Provider → CallId → Prop) (D : Provider → Except Failure Reply → Prop) :
    Session χ α ρ → Prop where
  | begins {p : Provider} (h : B p) : Waits op k frames B A D ⟨p, { code := .operate op k, frames }⟩
  | goesOn {p : Provider} {c : CallId} (h : A p c) :
      Waits op k frames B A D ⟨p, { code := .operate op k, frames, call := some c }⟩
  | returns {p : Provider} {c : CallId} {r : Except Failure Reply} (h : p.phaseOf c = some (.done r)) (hd : D p r) :
      Waits op k frames B A D ⟨p, { code := .operate op k, frames, call := some c }⟩

variable {B : Provider → Prop} {A : Provider → CallId → Prop} {D : Provider → Except Failure Reply → Prop}

lemma Waits.at (h : Waits op k frames B A D s) : s.caller.code = .operate op k ∧ s.caller.frames = frames := by
  cases h <;> exact ⟨rfl, rfl⟩

lemma result?_of_done {r : Except Failure Reply} (h : p.phaseOf c = some (.done r)) : p.result? c = some r := by
  rw [Provider.result?, h]

inductive Takes (op : Operation) (k : Except Failure Reply → Script χ α ρ) (frames : List (Exit ρ → Script χ α ρ))
    (D : Provider → Except Failure Reply → Prop) : Session χ α ρ → Session χ α ρ → Prop where
  | intro {p : Provider} {c : CallId} {r : Except Failure Reply} (hr : p.result? c = some r)
      (hd : D (p.step (.collect c)) r) : Takes op k frames D
        ⟨p, { code := .operate op k, frames, call := some c }⟩ ⟨p.step (.collect c), { code := k r, frames }⟩

lemma Waits.step (hc : Course P op B A D) (h : Waits op k frames B A D s) (hs : Sound s) (hst : Step P s s') :
    Waits op k frames B A D s' ∨ Takes op k frames D s s' := by
  cases h with
  | begins h =>
    cases step_operate hst with
    | asks => exact Or.inl (.goesOn (hc.begins h))
  | goesOn h =>
    cases step_operate hst with
    | takes hr => cases (hc.pending h).symm.trans hr
    | waits hr hd he =>
      rcases hc.goesOn h hs.whole (hs.known _ rfl) hd he with h | ⟨r, hp, hr⟩
      · exact Or.inl (.goesOn h)
      · exact Or.inl (.returns hp hr)
  | returns h hr =>
    cases step_operate hst with
    | takes ht =>
      cases (result?_of_done h).symm.trans ht
      exact Or.inr (.intro ht (hc.taken hr ht))
    | waits hn => cases (result?_of_done h).symm.trans hn

theorem Course.until (hc : Course P op B A D) (hP : ∀ p e, P p e → p.LetsPart e) (hp : Whole p) (hb : B p) :
    Until P ⟨p, { code := .operate op k, frames }⟩
      (fun s => s.caller.code = .operate op k ∧ s.caller.frames = frames)
      (fun s => ∃ m, Runs P ⟨p, { code := .operate op k, frames }⟩ m ∧ Takes op k frames D m s) :=
  until_of_step (I := fun s => Runs P _ s ∧ Sound s ∧ Waits op k frames B A D s)
    ⟨.refl, ⟨hp, nofun, fun _ => rfl⟩, .begins hb⟩ (fun _ h => h.2.2.at) fun s _ ⟨hr, hs, h⟩ hst =>
      (h.step hc hs hst).imp (fun h => ⟨hr.tail hst, hst.sound hP hs, h⟩) fun ht => ⟨s, hr, ht⟩

end Operations

variable {conn : Provider.Connection}

def Reaches (p : Provider) (r : Except Failure Reply) : Prop :=
  r = .ok .nothing ∧ (∃ conn, p.Up conn) ∨ ∃ endpoint n reason, r = .error (.connectionFailed endpoint n reason)

lemma unaltered_newCall (p : Provider) (op : Operation) : p.Unaltered (p.step (.call op)) := ⟨rfl, rfl, rfl, rfl⟩

lemma unaltered_collect (p : Provider) (c : CallId) : p.Unaltered (p.step (.collect c)) := by
  simp only [Provider.step, Provider.collect]
  split <;> exact ⟨rfl, rfl, rfl, rfl⟩

lemma approaches_pending (h : p.Approaches c) : p.result? c = none := by
  cases h with
  | looks h =>
    rcases h with h | h
    · exact Provider.result?_of_phase (Provider.phaseOf_of_call h) nofun
    · exact Provider.result?_of_phase h nofun
  | seeks h =>
    rcases h.phase with h | h
    · exact Provider.result?_of_phase h nofun
    · exact Provider.result?_of_phase h nofun
  | replaces h =>
    obtain ⟨ph, hp, ha, -⟩ := h.phase
    exact Provider.result?_of_apart hp ha
  | opens h | pauses h => exact Provider.result?_of_apart h rfl

lemma approaches_new {op : Operation} (h : op = .connect ∨ op = .ensureConnected) (p : Provider) :
    (p.step (.call op)).Approaches p.nextCall := by
  rcases h with rfl | rfl
  · exact .seeks (Or.inl (Provider.get?_newCall p _))
  · exact .looks (Or.inl (Provider.get?_newCall p _))

lemma course_connects {op : Operation} (h : op = .connect ∨ op = .ensureConnected) :
    Course P op (fun _ => True) Provider.Approaches Reaches where
  begins _ := approaches_new h _
  goesOn ha hw hk hd he := by
    rcases he with hs | ⟨hs, -⟩
    · cases ha.step hw hk hs hd with
      | goesOn h => exact Or.inl h
      | returns h ha =>
        refine Or.inr ⟨_, h, ?_⟩
        cases ha with
        | usable hl => exact Or.inl ⟨rfl, Provider.isLive_iff.mp hl⟩
        | exhausted _ endpoint n reason => exact Or.inr ⟨endpoint, n, reason, rfl⟩
    · exact Or.inl (ha.other hs)
  pending := approaches_pending
  taken hd _ := hd.imp_left fun ⟨hr, conn, hu⟩ => ⟨hr, conn, (unaltered_collect _ _).up.mpr hu⟩

lemma course_keeps (hP : ∀ p e, P p e → p.Up conn → (p.step e).Up conn) :
    Course P .ensureConnected (·.Up conn) (fun p c => p.Approaches c ∧ p.Up conn)
      (fun p r => r = .ok .nothing ∧ p.Up conn) where
  begins h := ⟨approaches_new (Or.inr rfl) _, (unaltered_newCall _ _).up.mpr h⟩
  goesOn ha hw hk hd he := by
    obtain ⟨ha, hu⟩ := ha
    have live := Provider.isLive_iff.mpr ⟨_, hu⟩
    rcases he with hs | ⟨hs, he⟩
    · cases ha.step hw hk hs hd with
      | goesOn h hsame => exact Or.inl ⟨h, (hsame live).up.mpr hu⟩
      | returns h ha =>
        refine Or.inr ⟨_, h, ?_⟩
        cases ha with
        | usable _ hsame => exact ⟨rfl, (hsame live).up.mpr hu⟩
        | exhausted hl => cases hl.symm.trans live
    · exact Or.inl ⟨ha.other hs, hP _ _ he hu⟩
  pending ha := approaches_pending ha.1
  taken hd _ := hd.imp_right (unaltered_collect _ _).up.mpr

lemma course_departs : Course P .disconnect (fun _ => True) Provider.Departs
    (fun p r => r = .ok .nothing ∧ p.slot = none) where
  begins _ := Or.inl (Or.inl (Provider.get?_newCall _ _))
  goesOn ha hw hk hd he := by
    rcases he with hs | ⟨hs, -⟩
    · exact (ha.step hw.orderly hk hs hd).imp_right fun ⟨h, hn⟩ => ⟨_, h, rfl, hn⟩
    · exact Or.inl (ha.other hs)
  pending ha := by
    rcases ha with (h | h) | ⟨conn, h⟩
    · exact Provider.result?_of_phase (Provider.phaseOf_of_call h) nofun
    · exact Provider.result?_of_phase h nofun
    · obtain ⟨ph, hp, ha⟩ := h.apart
      exact Provider.result?_of_apart hp ha
  taken hd _ := hd.imp_right (unaltered_collect _ _).slot.trans

end Session

end SocketRpc
