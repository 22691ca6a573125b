import SocketRpc.Proofs.Provider.Ledger
import Mathlib.Logic.Function.Basic

namespace SocketRpc.Provider

variable {F : Failure → Prop} {a : Option CallId} {p q : Provider} {c : CallId} {d : Dispatch}
  {N M ns : List Note} {x : Note} {i j m n : Nat} {r s : Response} {req : Request} {t : Ticket}

def Note.Gives (x : Note) (r : Response) : Prop :=
  (∃ c q, x = .settled c q (.ok r)) ∨ ∃ k, x = .popped k (some r)

def HandsOut (N : List Note) (i : Nat) (r : Response) : Prop := ∃ x, N[i]? = some x ∧ x.Gives r

def LastClaim (N : List Note) (c : CallId) (i m : Nat) (q : Request) (t : Ticket) : Prop :=
  Claimed N m c q t ∧ m < i ∧ ∀ n s u, Claimed N n c s u → n < i → n ≤ m

inductive Holder where
  | parked (k : CacheKey)
  | mailed (t : Ticket)
  | taken (i : Nat)
deriving DecidableEq

def Holder.Has (p : Provider) : Holder → Response → Prop
  | parked k, r => p.correlator.parked.get? k = some r
  | mailed t, r => p.correlator.mail.get? t = some (.filled r)
  | taken i, r => HandsOut p.notes i r

def Holder.Follows (p : Provider) (j : Nat) : Holder → Prop
  | parked _ => True
  | mailed t => ∃ m c r, Claimed p.notes m c r t ∧ j < m
  | taken i => ∃ c q r m t, p.notes[i]? = some (.settled c q (.ok r)) ∧ LastClaim p.notes c i m q t ∧ j < m

structure Traced (p : Provider) (source : Holder → Nat) : Prop where
  brings : ∀ h r, h.Has p r → ∃ x, p.notes[source h]? = some x ∧ x.Brings r
  own : ∀ h g r s, h.Has p r → g.Has p s → source h = source g → h = g
  recent : ∀ h r j, h.Has p r → p.notes[j]? = some .cleared → h.Follows p j → j < source h
  earlier : ∀ i r, HandsOut p.notes i r → source (.taken i) < i

lemma traced_new (endpoint : Endpoint) (config : Config) :
    Traced (new endpoint config) fun _ => 0 := by
  have none : ∀ h r, ¬ Holder.Has (new endpoint config) h r := by
    rintro (k | t | i) r h
    · cases h
    · cases h
    · obtain ⟨x, hx, -⟩ := h
      simp [new] at hx
  exact ⟨fun h r hr => absurd hr (none h r), fun h g r s hr => absurd hr (none h r),
    fun h r j hr => absurd hr (none h r), fun i r hr => absurd hr (none (.taken i) r)⟩

lemma claimed_append_of_lt (h : n < N.length) :
    Claimed (N ++ M) n c req t ↔ Claimed N n c req t := by
  rw [Claimed, Claimed, List.getElem?_append_left h]

lemma lastClaim_append (h : i ≤ N.length) : LastClaim (N ++ M) c i m req t ↔
    LastClaim N c i m req t := by
  constructor
  · rintro ⟨hc, hm, hl⟩
    refine ⟨(claimed_append_of_lt (by omega)).mp hc, hm, fun n s u hn hi => ?_⟩
    exact hl n s u ((claimed_append_of_lt (by omega)).mpr hn) hi
  · rintro ⟨hc, hm, hl⟩
    refine ⟨(claimed_append_of_lt (by omega)).mpr hc, hm, fun n s u hn hi => ?_⟩
    exact hl n s u ((claimed_append_of_lt (by omega)).mp hn) hi

lemma HandsOut.append (h : HandsOut N i r) : HandsOut (N ++ M) i r := by
  obtain ⟨x, hx, hg⟩ := h
  exact ⟨x, place_append hx, hg⟩

lemma HandsOut.lt (h : HandsOut N i r) : i < N.length := by
  obtain ⟨x, hx, -⟩ := h
  exact place_lt hx

lemma HandsOut.of_append (h : HandsOut (N ++ M) i r) (hM : ∀ x ∈ M, ∀ r, ¬ x.Gives r) :
    HandsOut N i r := by
  obtain ⟨x, hx, hg⟩ := h
  rcases place_of_append hx with hx | ⟨-, hx⟩
  · exact ⟨x, hx, hg⟩
  · exact absurd hg (hM x hx r)

lemma follows_taken (hn : q.notes = p.notes ++ ns) (hi : i < p.notes.length)
    (h : Holder.Follows q j (.taken i)) : Holder.Follows p j (.taken i) := by
  obtain ⟨c, req, r, m, t, hs, hl, hj⟩ := h
  rw [hn] at hs hl
  refine ⟨c, req, r, m, t, ?_, (lastClaim_append (Nat.le_of_lt hi)).mp hl, hj⟩
  rwa [List.getElem?_append_left hi] at hs

lemma Note.Plain.not_gives (h : x.Plain F) (r : Response) : ¬ x.Gives r := by
  rintro (⟨c, q, rfl⟩ | ⟨k, rfl⟩) <;> exact h

lemma Note.Plain.not_cleared (h : x.Plain F) : x ≠ .cleared := by
  rintro rfl
  exact h

lemma Traced.along {source : Holder → Nat} (h : Traced p source) (before after : Holder → Holder)
    (hn : q.notes = p.notes ++ ns) (hc : ∀ x ∈ ns, x ≠ .cleared)
    (has : ∀ g r, g.Has q r → (before g).Has p r) (back : ∀ g r, g.Has q r → after (before g) = g)
    (follows : ∀ g r j, g.Has q r → g.Follows q j → (before g).Follows p j)
    (taken : ∀ i r, HandsOut q.notes i r → before (.taken i) = .taken i ∨ p.notes.length ≤ i) :
    Traced q (source ∘ before) where
  brings g r hg := by
    obtain ⟨x, hx, hb⟩ := h.brings _ r (has g r hg)
    exact ⟨x, hn ▸ place_append hx, hb⟩
  own g g' r s hg hg' he := by
    have he := h.own _ _ r s (has g r hg) (has g' s hg') he
    rw [← back g r hg, ← back g' s hg', he]
  recent g r j hg hj hf := by
    rw [hn] at hj
    rcases place_of_append hj with hj | ⟨-, hj⟩
    · exact h.recent _ r j (has g r hg) hj (follows g r j hg hf)
    · exact absurd rfl (hc _ hj)
  earlier i r hi := by
    have hp := has (.taken i) r hi
    rcases taken i r hi with he | hl
    · rw [Function.comp_apply, he]
      rw [he] at hp
      exact h.earlier i r hp
    · obtain ⟨x, hx, -⟩ := h.brings _ r hp
      exact Nat.lt_of_lt_of_le (place_lt hx) hl

lemma Traced.move {source : Holder → Nat} (h : Traced p source) (old new : Holder)
    (hn : q.notes = p.notes ++ ns) (hc : ∀ x ∈ ns, x ≠ .cleared)
    (moved : ∀ r, new.Has q r → old.Has p r ∧ ∀ j, new.Follows q j → old.Follows p j)
    (gone : ∀ r, ¬ old.Has q r)
    (stays : ∀ g r, g ≠ new → g.Has q r → g.Has p r ∧ ∀ j, g.Follows q j → g.Follows p j)
    (taken : ∀ i, new = .taken i → p.notes.length ≤ i) : ∃ source, Traced q source := by
  refine ⟨_, h.along (fun g => if g = new then old else g) (fun g => if g = old then new else g) hn hc
    (fun g r hg => ?_) (fun g r hg => ?_) (fun g r j hg => ?_) fun i r hg => ?_⟩
  · split
    · subst g
      exact (moved r hg).1
    · exact (stays g r ‹_› hg).1
  · have hne : g ≠ old := by
      rintro rfl
      exact gone r hg
    by_cases h : g = new <;> simp [h, hne]
  · split
    · subst g
      exact (moved r hg).2 j
    · exact (stays g r ‹_› hg).2 j
  · by_cases h : new = .taken i
    · exact Or.inr (taken i h)
    · exact Or.inl (if_neg (Ne.symm h))

lemma Traced.stay {source : Holder → Nat} (h : Traced p source) (hu : Unclaimed p q ns)
    (hc : ∀ x ∈ ns, x ≠ .cleared) (hg : ∀ x ∈ ns, ∀ r, ¬ x.Gives r)
    (hp : ∀ k r, q.correlator.parked.get? k = some r → p.correlator.parked.get? k = some r)
    (hm : ∀ t r, q.correlator.mail.get? t = some (.filled r) → p.correlator.mail.get? t = some (.filled r)) :
    Traced q source := by
  have has : ∀ g r, Holder.Has q g r → Holder.Has p g r := by
    rintro (k | t | i) r hr
    · exact hp k r hr
    · exact hm t r hr
    · exact HandsOut.of_append (hu.notes ▸ hr) hg
  refine h.along id id hu.notes hc has (fun _ _ _ => rfl) ?_ fun _ _ _ => Or.inl rfl
  rintro (k | t | i) r j hr hf
  · trivial
  · obtain ⟨m, c, req, hcl, hlt⟩ := hf
    exact ⟨m, c, req, hu.claimed_iff.mp hcl, hlt⟩
  · exact follows_taken hu.notes (has (.taken i) r hr).lt hf

lemma Traced.close {source : Holder → Nat} (h : Traced p source) (f : Frame a p q ns)
    (hn : ∀ x ∈ ns, x.Plain F) {ks : List CacheKey} (hc : p.correlator.Closes q.correlator ks) :
    Traced q source :=
  h.stay (f.unclaimed hn) (fun x hx => (hn x hx).not_cleared) (fun x hx => (hn x hx).not_gives)
    (fun _ _ => hc.ready) fun _ _ => hc.filled

lemma filled_of_discard {k l : Correlator} {u : Ticket} (hc : l.claims = (k.discard u).claims)
    (h : l.mail.get? t = some (.filled r)) : u ≠ t ∧ k.mail.get? t = some (.filled r) := by
  obtain ⟨-, -, -, hm, -⟩ := Correlator.fields_of_claims hc
  rw [hm] at h
  simp only [Correlator.discard, Table.get?_erase] at h
  split at h
  · cases h
  · exact ⟨‹_›, h⟩

lemma parked_of_discard {k l : Correlator} {u : Ticket} (hc : l.claims = (k.discard u).claims) :
    l.parked = k.parked := (Correlator.fields_of_claims hc).2.1

lemma Traced.cleared {source : Holder → Nat} (h : Traced p source) (hp : p.correlator.parked = {}) :
    Traced (p.note .cleared) source := by
  have hn : (p.note .cleared).notes = p.notes ++ [.cleared] := rfl
  have hout : ∀ {i r}, HandsOut (p.note .cleared).notes i r → HandsOut p.notes i r := fun ho => by
    refine HandsOut.of_append ho fun x hx r hg => ?_
    cases List.mem_singleton.mp hx
    rcases hg with ⟨c, q, he⟩ | ⟨k, he⟩ <;> cases he
  have has : ∀ g r, Holder.Has (p.note .cleared) g r → Holder.Has p g r := by
    rintro (k | t | i) r hr
    · exact hr
    · exact hr
    · exact hout hr
  have hu : Unclaimed p (p.note .cleared) [.cleared] := ⟨rfl, by simp⟩
  refine ⟨fun g r hg => ?_, fun g g' r s hg hg' => h.own g g' r s (has g r hg) (has g' s hg'),
    fun g r j hg hj hf => ?_, fun i r hi => h.earlier i r (hout hi)⟩
  · obtain ⟨x, hx, hb⟩ := h.brings g r (has g r hg)
    exact ⟨x, place_append hx, hb⟩
  -- the claim of a holder comes before the clearance
  · have hlt : j < p.notes.length ∧ Holder.Follows p j g := by
      cases g with
      | parked k =>
        have hg : p.correlator.parked.get? k = some r := hg
        rw [hp] at hg
        cases hg
      | mailed t =>
        obtain ⟨m, c, req, hc, hj⟩ := hf
        have hc := hu.claimed_iff.mp hc
        exact ⟨Nat.lt_trans hj (place_lt hc), m, c, req, hc, hj⟩
      | taken i =>
        have hf := follows_taken hn (hout hg).lt hf
        have hlt : i < p.notes.length := (hout hg).lt
        obtain ⟨c, req, s, m, t, hs, hl, hj⟩ := hf
        have hm := hl.2.1
        exact ⟨by omega, c, req, s, m, t, hs, hl, hj⟩
    rw [hn, List.getElem?_append_left hlt.1] at hj
    exact h.recent g r j (has g r hg) hj hlt.2

lemma Traced.register {source : Holder → Nat} (h : Traced p source) {k : Correlator}
    (hn : q.notes = p.notes ++ [.claimed c req t]) (hr : p.correlator.Registers k req.id t)
    (hp : q.correlator.parked = k.parked)
    (hm : ∀ u r, q.correlator.mail.get? u = some (.filled r) → k.mail.get? u = some (.filled r)) :
    ∃ source, Traced q source := by
  have claims := @claimed_of_claim p q c req t hn
  have hout : ∀ {i r}, HandsOut q.notes i r → HandsOut p.notes i r := fun ho => by
    refine HandsOut.of_append (hn ▸ ho) fun x hx r hg => ?_
    cases List.mem_singleton.mp hx
    rcases hg with ⟨c, q, he⟩ | ⟨k, he⟩ <;> cases he
  have hparked : ∀ {j r}, q.correlator.parked.get? j = some r →
      p.correlator.parked.get? j = some r ∧ j ≠ req.id.key := fun hj =>
    (hr.parked _ _).mp (hp ▸ hj)
  refine h.move (.parked req.id.key) (.mailed t) hn (by simp) (fun r hg => ⟨?_, fun _ _ => trivial⟩)
    (fun r hg => (hparked hg).2 rfl) ?_ fun i hi => by cases hi
  · have hk := hm t r hg
    rcases hr.own with ⟨-, ho⟩ | ⟨s, hs, ho⟩ <;> rw [ho] at hk <;> cases hk
    exact hs
  · rintro (j | u | i) r hne hg
    · exact ⟨(hparked hg).1, fun _ _ => trivial⟩
    · have hu : u ≠ t := fun he => hne (he ▸ rfl)
      refine ⟨(hr.mail u hu).symm.trans (hm u r hg), fun j hf => ?_⟩
      obtain ⟨m, b, s, hc, hj⟩ := hf
      rcases claims.mp hc with hc | ⟨-, -, -, he⟩
      · exact ⟨m, b, s, hc, hj⟩
      · exact absurd he hu
    · exact ⟨hout hg, fun j => follows_taken hn (hout hg).lt⟩

lemma handsOut_of_last (hn : q.notes = p.notes ++ [x]) (h : HandsOut q.notes i r) :
    HandsOut p.notes i r ∨ i = p.notes.length ∧ x.Gives r := by
  obtain ⟨y, hy, hg⟩ := h
  rw [hn, List.getElem?_append] at hy
  split at hy
  · exact Or.inl ⟨y, hy, hg⟩
  · obtain ⟨hi, he⟩ := List.getElem?_eq_some_iff.mp hy
    simp only [List.length_singleton] at hi
    simp only [List.getElem_singleton] at he
    exact Or.inr ⟨by omega, he ▸ hg⟩

lemma Traced.settle {source : Holder → Nat} (h : Traced p source) (hl : Ledger p) {s : Response}
    (hn : q.notes = p.notes ++ [.settled c d.request (.ok s)]) (hp : p.dispatch? c = some d)
    (hs : p.correlator.mail.get? d.ticket = some (.filled s))
    (hc : q.correlator.claims = (p.correlator.discard d.ticket).claims) :
    ∃ source, Traced q source := by
  have hu : Unclaimed p q [.settled c d.request (.ok s)] := ⟨hn, by simp⟩
  have hlast : q.notes[p.notes.length]? = some (.settled c d.request (.ok s)) := by simp [hn]
  refine h.move (.mailed d.ticket) (.taken p.notes.length) hn (by simp) (fun r hg => ⟨?_, fun j hf => ?_⟩)
    (fun r hg => (filled_of_discard hc hg).1 rfl) ?_ fun i hi => by cases hi; exact Nat.le_refl _
  · obtain ⟨x, hx, hg⟩ := hg
    cases hlast.symm.trans hx
    rcases hg with ⟨c, q, he⟩ | ⟨k, he⟩ <;> cases he
    exact hs
  · obtain ⟨b, e, y, m, t, hy, hlc, hj⟩ := hf
    cases hlast.symm.trans hy
    -- the last claim of the call is the one it has in hand
    obtain ⟨m', hm', -, hb⟩ := hl.course c d hp
    have hm := hu.claimed_iff.mp hlc.1
    have hle := hlc.2.2 m' _ _ (hu.claimed_iff.mpr hm') (place_lt hm')
    have he : m = m' := by
      by_contra hne
      have := (hb m _ _ hm hne).1
      omega
    exact ⟨m', c, d.request, hm', he ▸ hj⟩
  · rintro (j | u | i) r hne hg
    · exact ⟨by simpa only [Holder.Has, parked_of_discard hc] using hg, fun _ _ => trivial⟩
    · refine ⟨(filled_of_discard hc hg).2, fun j hf => ?_⟩
      obtain ⟨m, b, e, hcl, hj⟩ := hf
      exact ⟨m, b, e, hu.claimed_iff.mp hcl, hj⟩
    · rcases handsOut_of_last hn hg with hg | ⟨rfl, -⟩
      · exact ⟨hg, fun j => follows_taken hn hg.lt⟩
      · exact absurd rfl hne

lemma Traced.pop {source : Holder → Nat} (h : Traced p source) {k : CacheKey} {s : Response}
    (hn : q.notes = p.notes ++ [.popped k (some s)]) (hs : p.correlator.parked.get? k = some s)
    (hc : q.correlator.claims = { p.correlator with parked := p.correlator.parked.erase k }.claims) :
    ∃ source, Traced q source := by
  have hu : Unclaimed p q [.popped k (some s)] := ⟨hn, by simp⟩
  have hlast : q.notes[p.notes.length]? = some (.popped k (some s)) := by simp [hn]
  obtain ⟨-, hpk, -, hm, -⟩ := Correlator.fields_of_claims hc
  have hparked : ∀ {j r}, q.correlator.parked.get? j = some r →
      k ≠ j ∧ p.correlator.parked.get? j = some r := fun hj => by
    rw [hpk] at hj
    simp only [Table.get?_erase] at hj
    split at hj
    · cases hj
    · exact ⟨‹_›, hj⟩
  refine h.move (.parked k) (.taken p.notes.length) hn (by simp) (fun r hg => ⟨?_, fun _ _ => trivial⟩)
    (fun r hg => (hparked hg).1 rfl) ?_ fun i hi => by cases hi; exact Nat.le_refl _
  · obtain ⟨x, hx, hg⟩ := hg
    cases hlast.symm.trans hx
    rcases hg with ⟨c, q, he⟩ | ⟨k, he⟩ <;> cases he
    exact hs
  · rintro (j | u | i) r hne hg
    · exact ⟨(hparked hg).2, fun _ _ => trivial⟩
    · refine ⟨by simpa only [Holder.Has, hm] using hg, fun j hf => ?_⟩
      obtain ⟨m, b, e, hcl, hj⟩ := hf
      exact ⟨m, b, e, hu.claimed_iff.mp hcl, hj⟩
    · rcases handsOut_of_last hn hg with hg | ⟨rfl, -⟩
      · exact ⟨hg, fun j => follows_taken hn hg.lt⟩
      · exact absurd rfl hne

lemma quiet_of_deposited {l : ListenerId} {v : Json.Value} {o : Except Failure Deposit}
    (hp : ∀ x ∈ ns, x.Plain F) (hx : x ∈ Note.deposited l v o :: ns) :
    x ≠ .cleared ∧ ∀ r, ¬ x.Gives r := by
  rcases List.mem_cons.mp hx with rfl | hx
  · refine ⟨by simp, fun r hg => ?_⟩
    rcases hg with ⟨c, q, he⟩ | ⟨k, he⟩ <;> cases he
  · exact ⟨(hp x hx).not_cleared, (hp x hx).not_gives⟩

lemma Traced.deposit {source : Holder → Nat} (h : Traced p source) {l : ListenerId} {v : Json.Value}
    {o : Deposit} {s : Response} (hn : q.notes = p.notes ++ .deposited l v (.ok o) :: ns)
    (hp : ∀ x ∈ ns, x.Plain F) (hv : isPush v = false) (hs : Response.ofValue v = .ok s) (new : Holder)
    (hnew : ∀ i, new ≠ .taken i) (moved : ∀ r, new.Has q r → r = s)
    (stays : ∀ g r, g ≠ new → (∀ i, g ≠ .taken i) → g.Has q r → g.Has p r) :
    ∃ source, Traced q source := by
  have hu := unclaimed_deposited hn hp
  have hclear : ∀ j : Nat, q.notes[j]? = some .cleared → p.notes[j]? = some .cleared := by
    intro j hj
    rw [hn] at hj
    rcases place_of_append hj with hj | ⟨-, hj⟩
    · exact hj
    · exact absurd rfl (quiet_of_deposited hp hj).1
  have has : ∀ g r, g ≠ new → Holder.Has q g r → Holder.Has p g r := by
    rintro (k | t | i) r hne hg
    · exact stays _ r hne (by simp) hg
    · exact stays _ r hne (by simp) hg
    · have hg : HandsOut q.notes i r := hg
      rw [hn] at hg
      exact hg.of_append fun x hx => (quiet_of_deposited hp hx).2
  have follows : ∀ g r j, g ≠ new → Holder.Has q g r → Holder.Follows q j g → Holder.Follows p j g := by
    rintro (k | t | i) r j hne hg hf
    · trivial
    · obtain ⟨m, c, req, hc, hj⟩ := hf
      exact ⟨m, c, req, hu.claimed_iff.mp hc, hj⟩
    · exact follows_taken hn (has _ r hne hg).lt hf
  have older : ∀ g r, g ≠ new → Holder.Has q g r → source g < p.notes.length := fun g r hne hg => by
    obtain ⟨x, hx, -⟩ := h.brings g r (has g r hne hg)
    exact place_lt hx
  refine ⟨Function.update source new p.notes.length, fun g r hg => ?_, fun g g' r r' hg hg' he => ?_,
    fun g r j hg hj hf => ?_, fun i r hi => ?_⟩
  · by_cases hne : g = new
    · subst hne
      cases moved r hg
      exact ⟨.deposited l v (.ok o), by simp [hn], l, v, o, rfl, hv, hs⟩
    · obtain ⟨x, hx, hb⟩ := h.brings g r (has g r hne hg)
      rw [Function.update_of_ne hne]
      exact ⟨x, hn ▸ place_append hx, hb⟩
  · by_cases hne : g = new <;> by_cases hne' : g' = new
    · rw [hne, hne']
    · rw [hne, Function.update_self, Function.update_of_ne hne'] at he
      have := older g' r' hne' hg'
      omega
    · rw [hne', Function.update_self, Function.update_of_ne hne] at he
      have := older g r hne hg
      omega
    · rw [Function.update_of_ne hne, Function.update_of_ne hne'] at he
      exact h.own g g' r r' (has g r hne hg) (has g' r' hne' hg') he
  · have hj := hclear j hj
    by_cases hne : g = new
    · rw [hne, Function.update_self]
      exact place_lt hj
    · rw [Function.update_of_ne hne]
      exact h.recent g r j (has g r hne hg) hj (follows g r j hne hg hf)
  · rw [Function.update_of_ne (hnew i).symm]
    exact h.earlier i r (has (.taken i) r (hnew i).symm hi)

lemma Traced.placed {source : Holder → Nat} (h : Traced p source) (hl : Ledger p) {l : ListenerId}
    {v : Json.Value} {o : Deposit} {s : Response} {k : Correlator}
    (hn : q.notes = p.notes ++ .deposited l v (.ok o) :: ns) (hp : ∀ x ∈ ns, x.Plain F)
    (hv : isPush v = false) (hs : Response.ofValue v = .ok s) (hk : p.correlator.Placed s o k)
    (hc : q.correlator.claims = k.claims) : ∃ source, Traced q source := by
  obtain ⟨-, hpk, -, hm, -⟩ := Correlator.fields_of_claims hc
  cases hk with
  | late _ | unheard _ _ =>
    refine ⟨source, h.stay (unclaimed_deposited hn hp) (fun x hx => (quiet_of_deposited hp hx).1)
      (fun x hx => (quiet_of_deposited hp hx).2) (fun j r hj => ?_) fun t r ht => ?_⟩
    · simpa only [hpk] using hj
    · simpa only [hm] using ht
  | delivered hw hmail =>
    rename_i t
    refine h.deposit hn hp hv hs (.mailed t) (by simp) (fun r hg => ?_) ?_
    · simp only [Holder.Has, hm, Table.get?_set, if_true, Option.some.injEq, Mailbox.filled.injEq] at hg
      exact hg.symm
    · rintro (j | u | i) r hne hnt hg
      · simpa only [Holder.Has, hpk] using hg
      · have hu : t ≠ u := fun he => hne (he ▸ rfl)
        simpa only [Holder.Has, hm, Table.get?_set, if_neg hu] using hg
      · exact absurd rfl (hnt i)
  | parked ha hw hnone =>
    refine h.deposit hn hp hv hs (.parked s.id.key) (by simp) (fun r hg => ?_) ?_
    · simp only [Holder.Has, hpk, Correlator.park, Table.get?_set, if_true, Option.some.injEq] at hg
      exact hg.symm
    · rintro (j | u | i) r hne hnt hg
      · have hj : s.id.key ≠ j := fun he => hne (he ▸ rfl)
        simp only [Holder.Has, hpk, Correlator.park, Table.get?_set, if_neg hj] at hg
        split at hg
        · exact hl.parked.get?_of_tail hg
        · exact hg
      · have hg : q.correlator.mail.get? u = some (.filled r) := hg
        rw [hm] at hg
        exact hg
      · exact absurd rfl (hnt i)

lemma Traced.entry {source : Holder → Nat} (h : Traced p source) (hl : Ledger p) (he : Entry F a p q) :
    ∃ source, Traced q source := by
  cases he with
  | keep hk =>
    obtain ⟨ns, f, hn⟩ := hk.frame
    obtain ⟨-, hp, -, hm, -⟩ := Correlator.fields_of_claims hk.claims
    exact ⟨source, h.stay (f.unclaimed hn) (fun x hx => (hn x hx).not_cleared)
      (fun x hx => (hn x hx).not_gives) (hp ▸ fun _ _ h => h) (hm ▸ fun _ _ h => h)⟩
  | claim ha f hp hr hc hd =>
    have hk := (Correlator.register_ok hr).of_claims hc
    exact h.register f.notes hk rfl fun _ _ hm => hm
  | reclaim ha f hp hm hr hc hd =>
    exact h.register f.notes (Correlator.register_ok hr) (parked_of_discard hc)
      fun u r hu => (filled_of_discard hc hu).2
  | withdraw ha f hn hp hc hs hd => exact ⟨source, h.close f hn hc⟩
  | part ha f hn hp hc hd =>
    exact ⟨source, h.stay (f.unclaimed hn) (fun x hx => (hn x hx).not_cleared)
      (fun x hx => (hn x hx).not_gives) (parked_of_discard hc ▸ fun _ _ h => h)
      fun t r ht => (filled_of_discard hc ht).2⟩
  | settle ha f hp ho hc hd =>
    cases ho with
    | answered hs => exact h.settle hl f.notes hp hs hc
    | expired elapsed hw hm =>
      refine ⟨source, h.stay ⟨f.notes, by simp⟩ (by simp) ?_ (parked_of_discard hc ▸ fun _ _ h => h)
        fun t r ht => (filled_of_discard hc ht).2⟩
      intro x hx r hg
      cases List.mem_singleton.mp hx
      rcases hg with ⟨c, q, he⟩ | ⟨k, he⟩ <;> cases he
  | pop ha f hr hc => exact h.pop f.notes hr hc
  | deposit ha f hv hr hk hc hn => exact h.placed hl f.notes hn hv hr hk hc

lemma Traced.sweep {source : Holder → Nat} (h : Traced p source) (hl : Ledger p) (hs : Sweep p q) :
    Traced q source := by
  obtain ⟨ns, f, hn, -⟩ := hs.frame
  exact h.close f (hn fun _ => True) (hs.closes hl.waiting)

theorem traced_steps (endpoint : Endpoint) (config : Config) (es : List Event) :
    ∃ source, Traced ((new endpoint config).steps es) source :=
  (ledger_steps (F := fun _ => True) (I := fun p => ∃ source, Traced p source)
    (fun _ _ _ hl ⟨_, h⟩ he => h.entry hl he) (fun _ _ hl ⟨source, h⟩ hs => ⟨source, h.sweep hl hs⟩)
    (fun _ _ ⟨source, h⟩ hp => ⟨source, h.cleared hp⟩) ⟨_, traced_new endpoint config⟩
    fun _ _ _ _ => trivial).2

end SocketRpc.Provider
