import SocketRpc.Proofs.Correlator.Claims
import Mathlib.Data.List.Nodup
import Mathlib.Data.Set.Function

namespace SocketRpc.Correlator

variable {log : List Entry} {c d : Correlator} {e : Entry} {k : CacheKey} {t : Ticket} {r : Response}
  {i j m n : Nat}

namespace Entry

def accepts : Entry → Option Response
  | .deposited v false (.ok _) => (Response.ofValue v).toOption
  | _ => none

def hands : Entry → Option Response
  | .popped _ (some r) | .received _ (.filled r) => some r
  | _ => none

lemma hands_of_idle (h : e.idle) : e.hands = none := by
  cases e with
  | popped k r => cases r <;> first | rfl | cases h
  | received t m => cases m <;> first | rfl | cases h
  | _ => rfl

end Entry

inductive Holder where
  | parked (k : CacheKey)
  | mailed (t : Ticket)
  | handed (j : Nat)
deriving DecidableEq

def Holder.Has (log : List Entry) (c : Correlator) : Holder → Response → Prop
  | parked k, r => c.parked.get? k = some r
  | mailed t, r => c.mail.get? t = some (.filled r)
  | handed j, r => (log[j]?).bind Entry.hands = some r

def Claimed (log : List Entry) (i : Nat) (t : Ticket) : Prop := ∃ id, log[i]? = some (.registered id (.ok t))

def Holder.Since (log : List Entry) (m : Nat) : Holder → Prop
  | parked _ => True
  | mailed t => ∃ i, m < i ∧ Claimed log i t
  | handed j => m < j ∧
      ∀ t r, log[j]? = some (.received t (.filled r)) → ∃ i, m < i ∧ i < j ∧ Claimed log i t

structure Traced (log : List Entry) (c : Correlator) (source : Holder → Nat) : Prop where
  accepted : ∀ h r, h.Has log c r → (log[source h]?).bind Entry.accepts = some r
  own : ∀ h g r s, h.Has log c r → g.Has log c s → source h = source g → h = g
  recent : ∀ h r m, h.Has log c r → log[m]? = some (.did .clear) → h.Since log m → m < source h
  earlier : ∀ j r, (Holder.handed j).Has log c r → source (.handed j) < j

lemma traced_new : Traced [] {} fun _ => 0 := by
  have none : ∀ h r, ¬ Holder.Has [] {} h r := by
    rintro (k | t | j) r h <;> cases h
  exact ⟨fun h r hr => absurd hr (none h r), fun h g r s hr => absurd hr (none h r),
    fun h r m hr => absurd hr (none h r), fun j r hr => absurd hr (none (.handed j) r)⟩

lemma bind_snoc {f : Entry → Option Response} (h : (log[i]?).bind f = some r) :
    ((log ++ [e])[i]?).bind f = some r := by
  obtain ⟨a, ha, hf⟩ := Option.bind_eq_some_iff.mp h
  exact Option.bind_eq_some_iff.mpr ⟨a, getElem?_snoc.mpr (Or.inl ha), hf⟩

lemma bind_of_snoc {f : Entry → Option Response} (h : ((log ++ [e])[i]?).bind f = some r) :
    (log[i]?).bind f = some r ∨ i = log.length ∧ f e = some r := by
  obtain ⟨a, ha, hf⟩ := Option.bind_eq_some_iff.mp h
  rcases getElem?_snoc.mp ha with ha | ⟨rfl, rfl⟩
  · exact Or.inl (Option.bind_eq_some_iff.mpr ⟨a, ha, hf⟩)
  · exact Or.inr ⟨rfl, hf⟩

lemma lt_of_getElem? {α : Type} {l : List α} {a : α} (h : l[i]? = some a) : i < l.length :=
  (List.getElem?_eq_some_iff.mp h).1

lemma lt_of_bind {f : Entry → Option Response} (h : (log[i]?).bind f = some r) : i < log.length := by
  obtain ⟨a, ha, -⟩ := Option.bind_eq_some_iff.mp h
  exact lt_of_getElem? ha

lemma claimed_snoc (h : Claimed (log ++ [e]) i t) :
    Claimed log i t ∨ i = log.length ∧ ∃ id, e = .registered id (.ok t) := by
  obtain ⟨id, h⟩ := h
  rcases getElem?_snoc.mp h with h | ⟨hi, he⟩
  · exact Or.inl ⟨id, h⟩
  · exact Or.inr ⟨hi, id, he⟩

lemma Holder.Since.lt {h : Holder} (hp : ∀ k, h ≠ .parked k) (hh : h.Has log c r) (hs : h.Since log m) :
    m + 1 < log.length := by
  rcases h with k | t | j
  · exact absurd rfl (hp k)
  · obtain ⟨i, hi, id, hc⟩ := hs
    have := lt_of_getElem? hc
    omega
  · have := lt_of_bind hh
    have := hs.1
    omega

lemma Holder.Since.back {h : Holder} (hh : h.Has log c r)
    (hr : ∀ id t, e = .registered id (.ok t) → h ≠ .mailed t) (hs : h.Since (log ++ [e]) m) :
    h.Since log m := by
  rcases h with k | t | j
  · trivial
  · obtain ⟨i, hi, hc⟩ := hs
    rcases claimed_snoc hc with hc | ⟨-, id, he⟩
    · exact ⟨i, hi, hc⟩
    · exact absurd rfl (hr id t he)
  · have hj : j < log.length := lt_of_bind hh
    refine ⟨hs.1, fun t s ht => ?_⟩
    obtain ⟨i, hm, hi, hc⟩ := hs.2 t s (getElem?_snoc.mpr (Or.inl ht))
    rcases claimed_snoc hc with hc | ⟨rfl, -⟩
    · exact ⟨i, hm, hi, hc⟩
    · omega

lemma Traced.update {source : Holder → Nat} (h : Traced log c source) (g : Holder) (n : Nat)
    (others : ∀ f r, f ≠ g → f.Has (log ++ [e]) d r → f.Has log c r ∧ source f ≠ n)
    (accepted : ∀ r, g.Has (log ++ [e]) d r → ((log ++ [e])[n]?).bind Entry.accepts = some r)
    (recent : ∀ r m, g.Has (log ++ [e]) d r → log[m]? = some (.did .clear) →
      g.Since (log ++ [e]) m → m < n)
    (earlier : ∀ j r, g = .handed j → g.Has (log ++ [e]) d r → n < j)
    (hr : ∀ id t, e = .registered id (.ok t) → g = .mailed t ∨ ∀ r, d.mail.get? t ≠ some (.filled r))
    (hp : e = .did .clear → d.parked = {}) : Traced (log ++ [e]) d (Function.update source g n) := by
  refine ⟨fun f r hf => ?_, fun f f' r s hf hf' he => ?_, fun f r m hf hm hs => ?_, fun j r hj => ?_⟩
  · by_cases hfg : f = g
    · subst hfg
      rw [Function.update_self]
      exact accepted r hf
    · rw [Function.update_of_ne hfg]
      exact bind_snoc (h.accepted f r (others f r hfg hf).1)
  · by_cases hfg : f = g <;> by_cases hfg' : f' = g
    · exact hfg.trans hfg'.symm
    · rw [hfg, Function.update_self, Function.update_of_ne hfg'] at he
      exact absurd he.symm (others f' s hfg' hf').2
    · rw [hfg', Function.update_self, Function.update_of_ne hfg] at he
      exact absurd he (others f r hfg hf).2
    · rw [Function.update_of_ne hfg, Function.update_of_ne hfg'] at he
      exact h.own f f' r s (others f r hfg hf).1 (others f' s hfg' hf').1 he
  · rcases getElem?_snoc.mp hm with hm | ⟨rfl, rfl⟩
    · by_cases hfg : f = g
      · subst hfg
        rw [Function.update_self]
        exact recent r m hf hm hs
      · rw [Function.update_of_ne hfg]
        have ho := (others f r hfg hf).1
        refine h.recent f r m ho hm (hs.back ho fun id t he hft => ?_)
        subst hft
        rcases hr id t he with hg | hn
        · exact hfg hg.symm
        · exact hn r hf
    -- nothing that is held after a clearance began since then
    · rcases f with k | t | j
      · have hf : d.parked.get? k = some r := hf
        rw [hp rfl] at hf
        cases hf
      · have := hs.lt (by simp) hf
        rw [List.length_append, List.length_singleton] at this
        omega
      · have := hs.lt (by simp) hf
        rw [List.length_append, List.length_singleton] at this
        omega
  · by_cases hjg : .handed j = g
    · subst hjg
      rw [Function.update_self]
      exact earlier j r rfl hj
    · rw [Function.update_of_ne hjg]
      exact h.earlier j r (others _ r hjg hj).1

lemma has_handed (h : (Holder.handed j).Has (log ++ [e]) d r) :
    (Holder.handed j).Has log c r ∨ j = log.length ∧ e.hands = some r := bind_of_snoc h

lemma Traced.stay {source : Holder → Nat} (h : Traced log c source) (he : e.hands = none)
    (hp : ∀ k r, d.parked.get? k = some r → c.parked.get? k = some r)
    (hm : ∀ t r, d.mail.get? t = some (.filled r) → c.mail.get? t = some (.filled r))
    (hr : ∀ id t, e = .registered id (.ok t) → ∀ r, d.mail.get? t ≠ some (.filled r))
    (hx : e = .did .clear → d.parked = {}) : ∃ source, Traced (log ++ [e]) d source := by
  have hl : ∀ r, ¬ (Holder.handed log.length).Has (log ++ [e]) d r := by
    intro r hh
    rcases has_handed (c := c) hh with hh | ⟨-, hh⟩
    · exact Nat.lt_irrefl _ (lt_of_bind hh)
    · rw [he] at hh
      cases hh
  refine ⟨_, h.update (.handed log.length) log.length (fun f r hf hh => ?_) (fun r hh => absurd hh (hl r))
    (fun r m hh => absurd hh (hl r)) (fun j r _ hh => absurd hh (hl r))
    (fun id t he => Or.inr (hr id t he)) hx⟩
  have ho : f.Has log c r := by
    rcases f with k | t | j
    · exact hp k r hh
    · exact hm t r hh
    · rcases has_handed hh with hh | ⟨rfl, -⟩
      · exact hh
      · exact absurd rfl hf
  exact ⟨ho, Nat.ne_of_lt (lt_of_bind (h.accepted f r ho))⟩

lemma Traced.accept {source : Holder → Nat} (h : Traced log c source) (g : Holder) {s : Response}
    (ha : e.accepts = some s) (he : e.hands = none) (hj : ∀ j, g ≠ .handed j)
    (hg : ∀ r, g.Has (log ++ [e]) d r → r = s)
    (hp : ∀ k r, .parked k ≠ g → d.parked.get? k = some r → c.parked.get? k = some r)
    (hm : ∀ t r, .mailed t ≠ g → d.mail.get? t = some (.filled r) → c.mail.get? t = some (.filled r))
    (hx : e = .did .clear → d.parked = {}) : ∃ source, Traced (log ++ [e]) d source := by
  refine ⟨_, h.update g log.length (fun f r hf hh => ?_) (fun r hh => ?_)
    (fun r m _ hm _ => lt_of_getElem? hm) (fun j r he _ => absurd he (hj j)) (fun id t hi => ?_) hx⟩
  · have ho : f.Has log c r := by
      rcases f with k | t | j
      · exact hp k r hf hh
      · exact hm t r hf hh
      · rcases has_handed hh with hh | ⟨-, hh⟩
        · exact hh
        · rw [he] at hh
          cases hh
    exact ⟨ho, Nat.ne_of_lt (lt_of_bind (h.accepted f r ho))⟩
  · exact Option.bind_eq_some_iff.mpr ⟨e, getElem?_snoc.mpr (Or.inr ⟨rfl, rfl⟩), hg r hh ▸ ha⟩
  · subst hi
    cases ha

lemma Traced.pass {source : Holder → Nat} (h : Traced log c source) (f g : Holder) {s : Response}
    (hf : f.Has log c s) (moved : ∀ r, g.Has (log ++ [e]) d r → f.Has log c r)
    (gone : ∀ r, ¬ f.Has (log ++ [e]) d r)
    (since : ∀ r m, g.Has (log ++ [e]) d r → g.Since (log ++ [e]) m → f.Since log m)
    (others : ∀ f r, f ≠ g → f.Has (log ++ [e]) d r → f.Has log c r)
    (late : ∀ j, g = .handed j → log.length ≤ j)
    (hr : ∀ id t, e = .registered id (.ok t) → g = .mailed t)
    (hx : e ≠ .did .clear) : ∃ source, Traced (log ++ [e]) d source := by
  refine ⟨_, h.update g (source f) (fun f' r hne hh => ?_) (fun r hh => ?_) (fun r m hh hm hs => ?_)
    (fun j r hj hh => ?_) (fun id t he => Or.inl (hr id t he)) fun he => absurd he hx⟩
  · have ho := others f' r hne hh
    refine ⟨ho, fun he => gone r ?_⟩
    rwa [← h.own f' f r s ho hf he]
  · exact bind_snoc (h.accepted f r (moved r hh))
  · exact h.recent f r m (moved r hh) hm (since r m hh hs)
  · exact Nat.lt_of_lt_of_le (lt_of_bind (h.accepted f r (moved r hh))) (late j hj)

lemma has_last (h : (Holder.handed log.length).Has (log ++ [e]) d r) : e.hands = some r := by
  rcases has_handed (c := d) h with h | ⟨-, h⟩
  · exact absurd (lt_of_bind h) (Nat.lt_irrefl _)
  · exact h

lemma has_earlier (hj : Holder.handed j ≠ .handed log.length) (h : (Holder.handed j).Has (log ++ [e]) d r) :
    (Holder.handed j).Has log c r := by
  rcases has_handed h with h | ⟨rfl, -⟩
  · exact h
  · exact absurd rfl hj

lemma Traced.registers {source : Holder → Nat} (h : Traced log c source) {id : RequestId}
    (hr : Registers c d id t) : ∃ source, Traced (log ++ [.registered id (.ok t)]) d source := by
  rcases hr.own with ⟨-, ho⟩ | ⟨s, hs, ho⟩
  · refine h.stay rfl (fun k r hk => ((hr.parked k r).mp hk).1) (fun u r hu => ?_)
      (fun i u he r hu => ?_) nofun
    · by_cases hut : u = t
      · rw [hut, ho] at hu
        cases hu
      · exact hr.mail u hut ▸ hu
    · cases he
      rw [ho] at hu
      cases hu
  -- what is parked goes to the new mailbox
  · refine h.pass (.parked id.key) (.mailed t) hs (fun r hg => ?_) (fun r hg => ((hr.parked _ r).mp hg).2 rfl)
      (fun _ _ _ _ => trivial) ?_ nofun (fun i u he => ?_) nofun
    · have hg : d.mail.get? t = some (.filled r) := hg
      rw [ho] at hg
      cases hg
      exact hs
    · rintro (k | u | j) r hne hg
      · exact ((hr.parked k r).mp hg).1
      · exact (hr.mail u fun he => hne (he ▸ rfl)).symm.trans hg
      · rcases has_handed hg with hg | ⟨-, hg⟩
        · exact hg
        · cases hg
    · cases he
      rfl

lemma Traced.places {source : Holder → Nat} (h : Traced log c source) (hc : Tidy c) {v : Json.Value}
    {s : Response} {o : Deposit} (hv : Response.ofValue v = .ok s) (hp : Placed c s o d) :
    ∃ source, Traced (log ++ [.deposited v false (.ok o)]) d source := by
  have hr := hc.receives hp
  have ha : (Entry.deposited v false (.ok o)).accepts = some s := by rw [Entry.accepts, hv]; rfl
  cases hp with
  | late _ => exact h.stay rfl (fun _ _ hk => hk) (fun _ _ ht => ht) nofun nofun
  | unheard _ _ => exact h.stay rfl (fun _ _ hk => hk) (fun _ _ ht => ht) nofun nofun
  | @delivered t hw hm =>
    refine h.accept (.mailed t) ha rfl nofun (fun r hg => ?_) (fun _ _ _ hk => hk) (fun u r hne hu => ?_) nofun
    · obtain ⟨b, hb⟩ := Option.isSome_iff_exists.mp hm
      have hg : _ = some (Mailbox.filled r) := hg
      rw [hr.filled t hw, hb] at hg
      cases hg
      rfl
    · exact hr.kept u (fun hu => hne (by rw [Option.some.inj (hw.symm.trans hu)])) ▸ hu
  | parked _ _ hn =>
    refine h.accept (.parked s.id.key) ha rfl nofun (fun r hg => ?_) (fun k r hne hk => ?_)
      (fun _ _ _ ht => ht) nofun
    · rcases hr.parked hc.parked _ r hg with hg | ⟨-, rfl, -⟩
      · rw [hn] at hg
        cases hg
      · rfl
    · rcases hr.parked hc.parked k r hk with hk | ⟨rfl, -, -⟩
      · exact hk
      · exact absurd rfl hne

lemma get?_of_erase {κ α : Type} [DecidableEq κ] {m : Table κ α} {k j : κ} {a : α}
    (h : (m.erase k).get? j = some a) : k ≠ j ∧ m.get? j = some a := by
  rw [Table.get?_erase] at h
  split at h
  · cases h
  · exact ⟨‹_›, h⟩

lemma Traced.pops {source : Holder → Nat} (h : Traced log c source) {s : Response}
    (hs : c.parked.get? k = some s) :
    ∃ source, Traced (log ++ [.popped k (some s)]) { c with parked := c.parked.erase k } source := by
  refine h.pass (.parked k) (.handed log.length) hs (fun r hg => ?_) (fun r hg => (get?_of_erase hg).1 rfl)
    (fun _ _ _ _ => trivial) ?_ (fun j hj => ?_) nofun nofun
  · cases has_last hg
    exact hs
  · rintro (j | u | j) r hne hg
    · exact (get?_of_erase hg).2
    · exact hg
    · exact has_earlier hne hg
  · cases hj
    exact Nat.le_refl _

lemma filled_of_closeTicket {u : Ticket} (h : (c.closeTicket t).mail.get? u = some (.filled r)) :
    t ≠ u ∧ c.mail.get? u = some (.filled r) := by
  rw [closeTicket, Table.get?_modify] at h
  split at h
  · obtain ⟨_, -, he⟩ := Option.map_eq_some_iff.mp h
    cases he
  · exact ⟨‹_›, h⟩

lemma Traced.receives {source : Holder → Nat} (h : Traced log c source) {s : Response}
    (hs : c.mail.get? t = some (.filled s)) :
    ∃ source, Traced (log ++ [.received t (.filled s)]) (c.closeTicket t) source := by
  refine h.pass (.mailed t) (.handed log.length) hs (fun r hg => ?_)
    (fun r hg => (filled_of_closeTicket hg).1 rfl) (fun r m _ hm => ?_) ?_ (fun j hj => ?_) nofun nofun
  · cases has_last hg
    exact hs
  · obtain ⟨i, hi, hl, hcl⟩ := hm.2 t s (getElem?_snoc.mpr (Or.inr ⟨rfl, rfl⟩))
    rcases claimed_snoc hcl with hcl | ⟨rfl, -⟩
    · exact ⟨i, hi, hcl⟩
    · exact absurd hl (Nat.lt_irrefl _)
  · rintro (j | u | j) r hne hg
    · exact hg
    · exact (filled_of_closeTicket hg).2
    · exact has_earlier hne hg
  · cases hj
    exact Nat.le_refl _

lemma Traced.deals {source : Holder → Nat} (h : Traced log c source) (hc : Tidy c) (hd : Deals c d e) :
    ∃ source, Traced (log ++ [e]) d source := by
  cases hd with
  | keeps hd he =>
    obtain ⟨-, hp, -, hm, -⟩ := fields_of_claims hd
    refine h.stay (Entry.hands_of_idle he) (fun k r hk => hp ▸ hk) (fun t r ht => hm ▸ ht) ?_ ?_
    · rintro id t rfl
      cases he
    · rintro rfl
      cases he
  | registers hr => exact h.registers (register_ok hr)
  | places hv hp => exact h.places hc hv hp
  | pops hs hd => exact hd ▸ h.pops hs
  | receives hs hd => exact hd ▸ h.receives hs
  | discards t hd =>
    subst hd
    exact h.stay rfl (fun _ _ hk => hk) (fun u r hu => (get?_of_erase hu).2) nofun nofun
  | closes ks hd _ _ hx =>
    exact h.stay rfl (fun _ _ => hd.ready) (fun _ _ => hd.filled) nofun fun he => hx (Entry.did.inj he)

theorem traced_run (os : List Op) :
    ∃ source, Traced (Exchange.run os).log (Exchange.run os).correlator source :=
  (Exchange.invariant_of_deals (I := fun x => ∃ source, Traced x.log x.correlator source)
    (fun _ _ _ ht ⟨_, h⟩ hl hd => hl ▸ h.deals ht hd) tidy_new ⟨_, traced_new⟩ os).2

structure Owned (log : List Entry) (c : Correlator) : Prop where
  claimed : ∀ (i : Nat) id t, log[i]? = some (.registered id (.ok t)) → t < c.nextTicket
  once : ∀ (i j : Nat) id id' t, log[i]? = some (.registered id (.ok t)) →
    log[j]? = some (.registered id' (.ok t)) → i = j
  waiting : ∀ k t, c.waiting.get? k = some t → ∃ id, .registered id (.ok t) ∈ log ∧ id.key = k
  filled : ∀ t r, c.mail.get? t = some (.filled r) → .registered r.id (.ok t) ∈ log
  received : ∀ (j : Nat) t r, log[j]? = some (.received t (.filled r)) →
    ∃ i, i < j ∧ log[i]? = some (.registered r.id (.ok t))
  spent : ∀ (j : Nat) t r, log[j]? = some (.received t (.filled r)) →
    (∀ k, c.waiting.get? k ≠ some t) ∧ ∀ s, c.mail.get? t ≠ some (.filled s)
  single : ∀ (i j : Nat) t r s, log[i]? = some (.received t (.filled r)) →
    log[j]? = some (.received t (.filled s)) → i = j
  popped : ∀ k r, .popped k (some r) ∈ log → r.id.key = k

lemma owned_new : Owned [] {} where
  claimed i id t h := by cases h
  once i j id id' t h := by cases h
  waiting k t h := by cases h
  filled t r h := by cases h
  received j t r h := by cases h
  spent j t r h := by cases h
  single i j t r s h := by cases h
  popped k r h := by cases h

lemma Owned.step (h : Owned log c) (hc : Tidy c) (hn : c.nextTicket ≤ d.nextTicket)
    (hw : ∀ k t, d.waiting.get? k = some t →
      c.waiting.get? k = some t ∨ ∃ id, e = .registered id (.ok t) ∧ id.key = k)
    (hm : ∀ t r, d.mail.get? t = some (.filled r) →
      c.mail.get? t = some (.filled r) ∨ e = .registered r.id (.ok t) ∨ c.waiting.get? r.id.key = some t)
    (hr : ∀ id t, e = .registered id (.ok t) → t = c.nextTicket ∧ t < d.nextTicket)
    (hv : ∀ t r, e = .received t (.filled r) →
      c.mail.get? t = some (.filled r) ∧ ∀ s, d.mail.get? t ≠ some (.filled s))
    (hp : ∀ k r, e = .popped k (some r) → r.id.key = k) : Owned (log ++ [e]) d where
  claimed i id t hi := by
    rcases getElem?_snoc.mp hi with hi | ⟨-, he⟩
    · exact Nat.lt_of_lt_of_le (h.claimed i id t hi) hn
    · exact (hr id t he).2
  once i j id id' t hi hj := by
    rcases getElem?_snoc.mp hi with hi | ⟨rfl, he⟩ <;> rcases getElem?_snoc.mp hj with hj | ⟨rfl, he'⟩
    · exact h.once i j id id' t hi hj
    · exact absurd (h.claimed i id t hi) ((hr id' t he').1 ▸ Nat.lt_irrefl _)
    · exact absurd (h.claimed j id' t hj) ((hr id t he).1 ▸ Nat.lt_irrefl _)
    · rfl
  waiting k t hk := by
    rcases hw k t hk with hk | ⟨id, he, hk⟩
    · obtain ⟨id, hl, hk⟩ := h.waiting k t hk
      exact ⟨id, List.mem_append_left _ hl, hk⟩
    · exact ⟨id, List.mem_append_right _ (List.mem_singleton.mpr he.symm), hk⟩
  filled t r ht := by
    rcases hm t r ht with ht | he | ht
    · exact List.mem_append_left _ (h.filled t r ht)
    · exact List.mem_append_right _ (List.mem_singleton.mpr he.symm)
    · obtain ⟨id, hl, hk⟩ := h.waiting _ t ht
      exact List.mem_append_left _ (RequestId.key_injective hk ▸ hl)
  received j t r hj := by
    rcases getElem?_snoc.mp hj with hj | ⟨rfl, he⟩
    · obtain ⟨i, hi, hl⟩ := h.received j t r hj
      exact ⟨i, hi, getElem?_snoc.mpr (Or.inl hl)⟩
    · obtain ⟨i, hi, hl⟩ := List.getElem_of_mem (h.filled t r (hv t r he).1)
      exact ⟨i, hi, getElem?_snoc.mpr (Or.inl (List.getElem?_eq_some_iff.mpr ⟨hi, hl⟩))⟩
  spent j t r hj := by
    rcases getElem?_snoc.mp hj with hj | ⟨rfl, he⟩
    · obtain ⟨i, -, hl⟩ := h.received j t r hj
      -- the ticket is older than one that is given now
      have hlt := h.claimed i _ t hl
      have hnew : ∀ id, e ≠ .registered id (.ok t) := fun id he => by
        have := (hr id t he).1
        exact Nat.lt_irrefl _ (this ▸ hlt)
      obtain ⟨hnw, hnf⟩ := h.spent j t r hj
      refine ⟨fun k hk => ?_, fun s hs => ?_⟩
      · rcases hw k t hk with hk | ⟨id, he, -⟩
        · exact hnw k hk
        · exact hnew id he
      · rcases hm t s hs with hs | he | hs
        · exact hnf s hs
        · exact hnew _ he
        · exact hnw _ hs
    · obtain ⟨hf, hd⟩ := hv t r he
      refine ⟨fun k hk => ?_, hd⟩
      rcases hw k t hk with hk | ⟨id, hi, -⟩
      · exact hc.not_waiting hf nofun k hk
      · rw [he] at hi
        cases hi
  single i j t r s hi hj := by
    rcases getElem?_snoc.mp hi with hi | ⟨rfl, he⟩ <;> rcases getElem?_snoc.mp hj with hj | ⟨rfl, he'⟩
    · exact h.single i j t r s hi hj
    · exact absurd (hv t s he').1 ((h.spent i t r hi).2 s)
    · exact absurd (hv t r he).1 ((h.spent j t s hj).2 r)
    · rfl
  popped k r hk := by
    rcases List.mem_append.mp hk with hk | hk
    · exact h.popped k r hk
    · exact hp k r (List.mem_singleton.mp hk).symm

lemma Owned.deals (h : Owned log c) (hc : Tidy c) (hd : Deals c d e) : Owned (log ++ [e]) d := by
  cases hd with
  | keeps hd he =>
    obtain ⟨hw, -, -, hm, hn⟩ := fields_of_claims hd
    refine h.step hc (Nat.le_of_eq hn.symm) (fun k t hk => Or.inl (hw ▸ hk))
      (fun t r ht => Or.inl (hm ▸ ht)) ?_ ?_ ?_
    all_goals
      intro _ _ he'
      subst he'
      cases he
  | @registers id t hr =>
    have hr := register_ok hr
    refine h.step hc ?_ (fun k u hk => ?_) (fun u r hu => ?_) (fun i u he => ?_) nofun nofun
    · rw [hr.nextTicket, hr.ticket]
      exact Nat.le_succ _
    · exact ((hr.waiting k u).mp hk).imp_right fun ⟨hk, hu, _⟩ => ⟨id, hu ▸ rfl, hk.symm⟩
    · by_cases hut : u = t
      · subst hut
        rcases hr.own with ⟨-, ho⟩ | ⟨s, hs, ho⟩
        · rw [ho] at hu
          cases hu
        · rw [ho] at hu
          cases hu
          exact Or.inr (Or.inl (by rw [RequestId.key_injective (hc.keyed _ r hs)]))
      · exact Or.inl (hr.mail u hut ▸ hu)
    · cases he
      exact ⟨hr.ticket, hr.nextTicket ▸ Nat.lt_succ_self _⟩
  | @places v s o hv hp =>
    have hr := hc.receives hp
    refine h.step hc (Nat.le_of_eq hr.nextTicket.symm) (fun k t hk => Or.inl ((hr.waiting k t).mp hk).1)
      (fun t r ht => ?_) nofun nofun nofun
    by_cases hw : c.waiting.get? s.id.key = some t
    · rw [hr.filled t hw] at ht
      obtain ⟨_, -, he⟩ := Option.map_eq_some_iff.mp ht
      cases he
      exact Or.inr (Or.inr hw)
    · exact Or.inl (hr.kept t hw ▸ ht)
  | @pops k s hs hd =>
    subst hd
    refine h.step hc (Nat.le_refl _) (fun _ _ hk => Or.inl hk) (fun _ _ ht => Or.inl ht) nofun nofun
      fun j r he => ?_
    cases he
    exact hc.keyed k s hs
  | @receives t s hs hd =>
    subst hd
    refine h.step hc (Nat.le_refl _) (fun _ _ hk => Or.inl hk)
      (fun u r hu => Or.inl (filled_of_closeTicket hu).2) nofun (fun u r he => ?_) nofun
    cases he
    exact ⟨hs, fun r hr => (filled_of_closeTicket hr).1 rfl⟩
  | discards t hd =>
    subst hd
    exact h.step hc (Nat.le_refl _) (fun _ _ hk => Or.inl hk)
      (fun u r hu => Or.inl (get?_of_erase hu).2) nofun nofun nofun
  | closes ks hd _ _ _ =>
    refine h.step hc (Nat.le_of_eq hd.nextTicket.symm) (fun k t hk => ?_) (fun t r ht => Or.inl (hd.filled ht))
      nofun nofun nofun
    rw [hd.waiting] at hk
    split at hk
    · cases hk
    · exact Or.inl hk

theorem owned_run (os : List Op) : Owned (Exchange.run os).log (Exchange.run os).correlator :=
  (Exchange.invariant_of_deals (I := fun x => Owned x.log x.correlator)
    (fun _ _ _ ht h hl hd => hl ▸ h.deals ht hd) tidy_new owned_new os).2

lemma entries_of_value {w : Table CacheKey Ticket} (hw : w.Distinct) (hk : ∀ j, w.get? j = some t ↔ j = k) :
    w.entries.filter (fun e => e.2 = t) = [(k, t)] := by
  have hn : (w.entries.filter fun e => e.2 = t).Nodup := (List.Nodup.of_map _ hw).filter _
  refine List.perm_singleton.mp ?_
  refine (List.perm_ext_iff_of_nodup hn (List.nodup_singleton _)).mpr fun ⟨j, u⟩ => ?_
  rw [List.mem_filter, List.mem_singleton, decide_eq_true_iff]
  constructor
  · rintro ⟨hm, rfl⟩
    rw [(hk j).mp (hw.get?_of_mem hm)]
  · intro he
    cases he
    exact ⟨Table.mem_entries_of_get? ((hk k).mpr rfl), rfl⟩

/-- Over any use of a correlator, no response accepted is handed out twice, each goes to the claim for it
or is fetched under its own key, and a claim without an answer waits in one place. -/
theorem handed_out_once (os : List Op) :
    let x := Exchange.run os
    (∃ source : Nat → Nat, Set.InjOn source {j | ((x.log[j]?).bind Entry.hands).isSome} ∧
      ∀ j r, (x.log[j]?).bind Entry.hands = some r →
        source j < j ∧ (x.log[source j]?).bind Entry.accepts = some r) ∧
    (∀ (i j : Nat) t r s, x.log[i]? = some (.received t (.filled r)) →
      x.log[j]? = some (.received t (.filled s)) → i = j) ∧
    (∀ id t r, .registered id (.ok t) ∈ x.log → .received t (.filled r) ∈ x.log → r.id = id) ∧
    (∀ k r, .popped k (some r) ∈ x.log → r.id.key = k) ∧
    (∀ id t, .registered id (.ok t) ∈ x.log → x.correlator.mail.get? t = some .empty →
      x.correlator.waiting.entries.filter (fun e => e.2 = t) = [(id.key, t)]) := by
  intro x
  have hc : Tidy x.correlator := Exchange.tidy_run os
  have ho : Owned x.log x.correlator := owned_run os
  obtain ⟨source, hs⟩ := traced_run os
  -- a ticket is given once
  have same : ∀ {id id' t}, .registered id (.ok t) ∈ x.log → .registered id' (.ok t) ∈ x.log →
      id = id' := by
    intro id id' t h h'
    obtain ⟨i, hi⟩ := List.mem_iff_getElem?.mp h
    obtain ⟨j, hj⟩ := List.mem_iff_getElem?.mp h'
    rw [ho.once i j id id' t hi hj, hj] at hi
    cases hi
    rfl
  refine ⟨⟨fun j => source (.handed j), fun i hi j hj he => ?_,
      fun j r hj => ⟨hs.earlier j r hj, hs.accepted _ r hj⟩⟩,
    ho.single, fun id t r hr hv => ?_, ho.popped, fun id t hr he => ?_⟩
  · obtain ⟨r, hr⟩ := Option.isSome_iff_exists.mp hi
    obtain ⟨s, hs'⟩ := Option.isSome_iff_exists.mp hj
    exact Holder.handed.inj (hs.own _ _ r s hr hs' he)
  · obtain ⟨j, hj⟩ := List.mem_iff_getElem?.mp hv
    obtain ⟨i, -, hi⟩ := ho.received j t r hj
    exact same (List.mem_of_getElem? hi) hr
  · obtain ⟨k, hk⟩ := hc.awaited t he
    obtain ⟨id', hr', rfl⟩ := ho.waiting k t hk
    cases same hr hr'
    exact entries_of_value hc.waiting fun j => ⟨fun hj => hc.own j _ t hj hk, fun hj => hj ▸ hk⟩

end SocketRpc.Correlator
