import SocketRpc.Proofs.Correlator.Exchange

namespace SocketRpc.Correlator

variable {c d : Correlator} {e : Entry} {id : RequestId} {t : Ticket} {k : CacheKey} {r : Response}

def Entry.idle : Entry → Bool
  | .deposited _ false (.ok _) | .popped _ (some _) | .registered _ (.ok _) | .received _ (.filled _) => false
  | .did .clear => false
  | _ => true

inductive Deals (c d : Correlator) : Entry → Prop where
  | keeps {e : Entry} (h : d.claims = c.claims) (he : e.idle) : Deals c d e
  | registers {id : RequestId} {t : Ticket} (h : c.register id = (.ok t, d)) :
      Deals c d (.registered id (.ok t))
  | places {v : Json.Value} {r : Response} {o : Deposit} (hv : Response.ofValue v = .ok r)
      (h : Placed c r o d) : Deals c d (.deposited v false (.ok o))
  | pops {k : CacheKey} {r : Response} (h : c.parked.get? k = some r)
      (hd : d = { c with parked := c.parked.erase k }) : Deals c d (.popped k (some r))
  | receives {t : Ticket} {r : Response} (h : c.mail.get? t = some (.filled r)) (hd : d = c.closeTicket t) :
      Deals c d (.received t (.filled r))
  | discards (t : Ticket) (hd : d = c.discard t) : Deals c d (.did (.discard t))
  | closes {o : Op} (ks : List CacheKey) (h : Closes c d ks)
      (ha : ∀ k ∈ d.abandoned, k ∈ c.abandoned ∨ (c.waiting.get? k).isSome)
      (hl : d.abandoned.length ≤ max c.abandoned.length maxAbandoned) (ho : o = .clear → d.parked = {}) :
      Deals c d (.did o)

lemma claims_openSubscription (c : Correlator) (s : SubscriptionId) :
    (c.openSubscription s).claims = c.claims := by
  rw [openSubscription]
  split <;> rfl

lemma deposit_deals (c : Correlator) (v : Json.Value) (push : Bool) :
    Deals c (c.deposit v push).2 (.deposited v push (c.deposit v push).1) := by
  rcases c.deposit_cases v push with ⟨r, o, rfl, hv, ho, hp⟩ | ⟨hc, he⟩
  · rw [ho]
    exact .places hv hp
  · refine .keeps hc ?_
    rcases he with ⟨f, hf⟩ | rfl
    · rw [hf]
      cases push <;> rfl
    · cases (c.deposit v true).1 <;> rfl

lemma pop_deals (c : Correlator) (k : CacheKey) : Deals c (c.pop k).2 (.popped k (c.pop k).1) := by
  rw [pop]
  split
  · exact .pops ‹_› rfl
  · exact .keeps rfl rfl

lemma register_deals (c : Correlator) (id : RequestId) :
    Deals c (c.register id).2 (.registered id (c.register id).1) := by
  rcases h : c.register id with ⟨f | t, d⟩
  · obtain ⟨-, -, rfl⟩ := register_error h
    exact .keeps rfl rfl
  · exact .registers h

lemma receive_deals (c : Correlator) (t : Ticket) : Deals c (c.receive t).2 (.received t (c.receive t).1) := by
  rw [receive]
  split
  · exact .receives ‹_› rfl
  · rename_i m hm hf
    cases m with
    | filled r => exact absurd rfl (hm r)
    | _ => exact .keeps rfl rfl
  · exact .keeps rfl rfl

lemma abandoned_forget (c : Correlator) (id : RequestId) : (c.forget id).abandoned = c.abandoned := by
  rw [forget]
  split <;> rfl

lemma abandoned_dismiss (c : Correlator) : c.dismiss.abandoned = c.abandoned := by
  obtain ⟨mail, he, -⟩ := foldl_closeTicket c c.waiting.values
  rw [dismiss, he]

lemma mem_abandoned_abandon (h : k ∈ (c.abandon id).abandoned) :
    k ∈ c.abandoned ∨ (c.waiting.get? k).isSome := by
  rw [abandon] at h
  split at h
  · rename_i hw
    rcases List.mem_append.mp h with h | h
    · left
      split at h
      · exact List.mem_of_mem_tail h
      · exact h
    · right
      rw [List.mem_singleton.mp h, hw]
      rfl
  · exact Or.inl h

lemma length_abandon (c : Correlator) (id : RequestId) :
    (c.abandon id).abandoned.length ≤ max c.abandoned.length maxAbandoned := by
  rw [abandon]
  split
  · have hpos : 0 < maxAbandoned := by decide
    dsimp only
    rw [List.length_append, List.length_singleton]
    split
    · rw [List.length_tail]
      omega
    · omega
  · exact Nat.le_max_left _ _

lemma claims_look (x : Exchange) (n : ReaderId) (rd : Reader) :
    (x.look n rd).correlator.claims = x.correlator.claims := by
  have h := x.correlator.claims_nextNotification rd.subscription rd.epoch
  rw [Exchange.look]
  split <;> rename_i hn <;> rw [hn] at h <;> exact h

lemma log_look (x : Exchange) (n : ReaderId) (rd : Reader) :
    (x.look n rd).log =
      x.log ++ [.read n rd.subscription (x.correlator.nextNotification rd.subscription rd.epoch).1] := by
  rw [Exchange.look]
  split <;> rename_i hn <;> rw [hn] <;> rfl

theorem step_deals (x : Exchange) (o : Op) (hw : x.correlator.waiting.Distinct) :
    ∃ e, (x.step o).log = x.log ++ [e] ∧ Deals x.correlator (x.step o).correlator e := by
  cases o with
  | deposit v push => exact ⟨_, rfl, deposit_deals _ v push⟩
  | pop k => exact ⟨_, rfl, pop_deals _ k⟩
  | register id => exact ⟨_, rfl, register_deals _ id⟩
  | receive t => exact ⟨_, rfl, receive_deals _ t⟩
  | discard t => exact ⟨_, rfl, .discards t rfl⟩
  | forget id =>
    have ha := abandoned_forget x.correlator id
    refine ⟨_, rfl, .closes _ (forget_closes _ id) (fun k hk => Or.inl (ha ▸ hk)) ?_ nofun⟩
    exact ha ▸ Nat.le_max_left _ _
  | abandon id =>
    exact ⟨_, rfl, .closes _ (abandon_closes _ id) (fun k hk => mem_abandoned_abandon hk)
      (length_abandon _ id) nofun⟩
  | clear =>
    exact ⟨_, rfl, .closes _ (clear_closes hw) (fun k hk => by cases hk) (Nat.zero_le _) fun _ => rfl⟩
  | fail reason =>
    have ha := abandoned_dismiss x.correlator
    have h := (dismiss_closes hw).of_claims (b := x.correlator.fail reason) rfl
    exact ⟨_, rfl, .closes _ h (fun k hk => Or.inl (ha ▸ hk)) (ha.symm ▸ Nat.le_max_left _ _) nofun⟩
  | closeByPeer =>
    have ha := abandoned_dismiss x.correlator
    have h := (dismiss_closes hw).of_claims (b := x.correlator.closeByPeer) rfl
    exact ⟨_, rfl, .closes _ h (fun k hk => Or.inl (ha ▸ hk)) (ha.symm ▸ Nat.le_max_left _ _) nofun⟩
  | reopen => exact ⟨_, rfl, .keeps rfl rfl⟩
  | openSubscription s => exact ⟨_, rfl, .keeps (claims_openSubscription _ s) rfl⟩
  | removeSubscription s => exact ⟨_, rfl, .keeps rfl rfl⟩
  | popSubscription s => exact ⟨_, rfl, .keeps (claims_popSubscription _ s) rfl⟩
  | read s =>
    exact ⟨_, log_look { x with nextReader := x.nextReader + 1 } _ _, .keeps (claims_look _ _ _) rfl⟩
  | poll n =>
    rw [Exchange.step]
    split
    · exact ⟨_, log_look _ _ _, .keeps (claims_look _ _ _) rfl⟩
    · exact ⟨_, rfl, .keeps rfl rfl⟩
  | quit n => exact ⟨_, rfl, .keeps rfl rfl⟩

structure Tidy (c : Correlator) : Prop where
  waiting : c.waiting.Distinct
  parked : c.parked.Distinct
  abandoned : c.abandoned.Nodup
  keyed : ∀ k r, c.parked.get? k = some r → r.id.key = k
  apart : ∀ k t, c.waiting.get? k = some t → c.parked.get? k = none
  shunned : ∀ k ∈ c.abandoned, c.waiting.get? k = none ∧ c.parked.get? k = none
  issued : ∀ t, (c.mail.get? t).isSome → t < c.nextTicket
  drawn : ∀ k t, c.waiting.get? k = some t →
    t < c.nextTicket ∧ (c.mail.get? t = none ∨ c.mail.get? t = some .empty)
  own : ∀ j k t, c.waiting.get? j = some t → c.waiting.get? k = some t → j = k
  awaited : ∀ t, c.mail.get? t = some .empty → ∃ k, c.waiting.get? k = some t

lemma tidy_new : Tidy {} where
  waiting := List.nodup_nil
  parked := List.nodup_nil
  abandoned := List.nodup_nil
  keyed k r h := by cases h
  apart k t h := by cases h
  shunned k h := by cases h
  issued t h := by cases h
  drawn k t h := by cases h
  own j k t h := by cases h
  awaited t h := by cases h

lemma Tidy.of_claims (h : Tidy c) (hc : d.claims = c.claims) : Tidy d := by
  obtain ⟨hw, hp, ha, hm, hn⟩ := fields_of_claims hc
  exact ⟨hw ▸ h.waiting, hp ▸ h.parked, ha ▸ h.abandoned, hp ▸ h.keyed, by rw [hw, hp]; exact h.apart,
    by rw [ha, hw, hp]; exact h.shunned, by rw [hm, hn]; exact h.issued, by rw [hw, hm, hn]; exact h.drawn,
    hw ▸ h.own, by rw [hm, hw]; exact h.awaited⟩

lemma Tidy.fresh (h : Tidy c) : c.mail.get? c.nextTicket = none := by
  by_contra hm
  exact Nat.lt_irrefl _ (h.issued _ (Option.isSome_iff_ne_none.mpr hm))

lemma Tidy.registers (h : Tidy c) (hr : Registers c d id t) : Tidy d where
  waiting := hr.waitingDistinct h.waiting
  parked := hr.parkedDistinct h.parked
  abandoned := by rw [hr.abandoned]; exact h.abandoned.erase _
  keyed k r hk := h.keyed k r ((hr.parked k r).mp hk).1
  apart k u hk := by
    rw [Option.eq_none_iff_forall_ne_some]
    intro r hp
    obtain ⟨hp, hne⟩ := (hr.parked k r).mp hp
    rcases (hr.waiting k u).mp hk with hk | ⟨rfl, -, -⟩
    · rw [h.apart k u hk] at hp
      cases hp
    · exact hne rfl
  shunned k hk := by
    rw [hr.abandoned] at hk
    obtain ⟨hw, hp⟩ := h.shunned k (List.mem_of_mem_erase hk)
    refine ⟨Option.eq_none_iff_forall_ne_some.mpr fun u hu => ?_,
      Option.eq_none_iff_forall_ne_some.mpr fun r hr' => ?_⟩
    · rcases (hr.waiting k u).mp hu with hu | ⟨rfl, -, -⟩
      · rw [hw] at hu
        cases hu
      · exact h.abandoned.not_mem_erase hk
    · rw [((hr.parked k r).mp hr').1] at hp
      cases hp
  issued u hu := by
    rw [hr.nextTicket]
    by_cases hut : u = t
    · exact hut ▸ Nat.lt_succ_self u
    · exact Nat.lt_succ_of_lt (hr.ticket ▸ h.issued u (hr.mail u hut ▸ hu))
  drawn k u hk := by
    rw [hr.nextTicket]
    rcases (hr.waiting k u).mp hk with hk | ⟨-, rfl, hnone⟩
    · obtain ⟨hlt, hm⟩ := h.drawn k u hk
      have hut : u ≠ t := hr.ticket ▸ Nat.ne_of_lt hlt
      rw [hr.mail u hut, hr.ticket]
      exact ⟨Nat.lt_succ_of_lt hlt, hm⟩
    · refine ⟨Nat.lt_succ_self _, Or.inr ?_⟩
      rcases hr.own with ⟨-, ho⟩ | ⟨r, hp, -⟩
      · exact ho
      · rw [hnone] at hp
        cases hp
  own j k u hj hk := by
    rcases (hr.waiting j u).mp hj with hj | ⟨rfl, rfl, -⟩ <;>
      rcases (hr.waiting k _).mp hk with hk | ⟨rfl, hu, -⟩
    · exact h.own j k u hj hk
    · exact absurd (h.drawn j u hj).1 (by rw [hu, hr.ticket]; exact Nat.lt_irrefl _)
    · exact absurd (h.drawn k u hk).1 (by rw [hr.ticket]; exact Nat.lt_irrefl _)
    · rfl
  awaited u hu := by
    by_cases hut : u = t
    · subst hut
      rcases hr.own with ⟨hp, -⟩ | ⟨r, -, ho⟩
      · exact ⟨_, (hr.waiting _ _).mpr (Or.inr ⟨rfl, rfl, hp⟩)⟩
      · rw [ho] at hu
        cases hu
    · rw [hr.mail u hut] at hu
      obtain ⟨k, hk⟩ := h.awaited u hu
      exact ⟨k, (hr.waiting k u).mpr (Or.inl hk)⟩

lemma Tidy.receives (h : Tidy c) {o : Deposit} (hp : Placed c r o d) : Receives c d r :=
  hp.receives fun hk => (h.shunned _ hk).1

lemma Tidy.places (h : Tidy c) {o : Deposit} (hp : Placed c r o d) : Tidy d := by
  have hr := h.receives hp
  have waits : ∀ j u, d.waiting.get? j = some u →
      c.waiting.get? j = some u ∧ d.mail.get? u = c.mail.get? u := by
    intro j u hj
    obtain ⟨hj, hne⟩ := (hr.waiting j u).mp hj
    exact ⟨hj, hr.kept u fun hu => hne (h.own j _ u hj hu)⟩
  have mailed : ∀ u b, d.mail.get? u = some b → ∃ b, c.mail.get? u = some b := by
    intro u b hu
    by_cases hw : c.waiting.get? r.id.key = some u
    · rw [hr.filled u hw] at hu
      obtain ⟨b, hb, -⟩ := Option.map_eq_some_iff.mp hu
      exact ⟨b, hb⟩
    · exact ⟨b, hr.kept u hw ▸ hu⟩
  refine ⟨hr.waitingDistinct h.waiting, hr.parkedDistinct h.parked, h.abandoned.sublist hr.abandoned,
    fun k s hk => ?_, fun k u hk => ?_, fun k hk => ?_, fun u hu => ?_, fun k u hk => ?_,
    fun j k u hj hk => ?_, fun u hu => ?_⟩
  · rcases hr.parked h.parked k s hk with hk | ⟨rfl, rfl, -⟩
    · exact h.keyed k s hk
    · rfl
  · rw [Option.eq_none_iff_forall_ne_some]
    intro s hs
    obtain ⟨hk, hne⟩ := (hr.waiting k u).mp hk
    rcases hr.parked h.parked k s hs with hs | ⟨rfl, -, -⟩
    · rw [h.apart k u hk] at hs
      cases hs
    · exact hne rfl
  · obtain ⟨hw, hp'⟩ := h.shunned k (hr.abandoned.subset hk)
    refine ⟨Option.eq_none_iff_forall_ne_some.mpr fun u hu => ?_,
      Option.eq_none_iff_forall_ne_some.mpr fun s hs => ?_⟩
    · rw [(waits k u hu).1] at hw
      cases hw
    · rcases hr.parked h.parked k s hs with hs | ⟨rfl, rfl, -⟩
      · rw [hp'] at hs
        cases hs
      -- what was parked is not the response to an abandoned request
      · cases hp with
        | late _ => exact h.abandoned.not_mem_erase hk
        | delivered hw' _ | unheard hw' _ =>
          rw [hw] at hw'
          cases hw'
        | parked ha _ _ => exact ha hk
  · obtain ⟨b, hb⟩ := Option.isSome_iff_exists.mp hu
    obtain ⟨b, hb⟩ := mailed u b hb
    rw [hr.nextTicket]
    exact h.issued u (by rw [hb]; rfl)
  · obtain ⟨hk, hm⟩ := waits k u hk
    rw [hm, hr.nextTicket]
    exact h.drawn k u hk
  · exact h.own j k u (waits j u hj).1 (waits k u hk).1
  · by_cases hw : c.waiting.get? r.id.key = some u
    · rw [hr.filled u hw] at hu
      obtain ⟨b, -, hb⟩ := Option.map_eq_some_iff.mp hu
      cases hb
    · obtain ⟨k, hk⟩ := h.awaited u (hr.kept u hw ▸ hu)
      refine ⟨k, (hr.waiting k u).mpr ⟨hk, ?_⟩⟩
      rintro rfl
      exact hw hk

lemma Tidy.pops (h : Tidy c) (k : CacheKey) : Tidy { c with parked := c.parked.erase k } := by
  have sub : ∀ j r, (c.parked.erase k).get? j = some r → c.parked.get? j = some r := by
    intro j r hj
    rw [Table.get?_erase] at hj
    split at hj
    · cases hj
    · exact hj
  have none : ∀ j, c.parked.get? j = none → (c.parked.erase k).get? j = none := by
    intro j hj
    rw [Table.get?_erase, hj]
    split <;> rfl
  exact ⟨h.waiting, h.parked.erase k, h.abandoned, fun j r hj => h.keyed j r (sub j r hj),
    fun j u hj => none j (h.apart j u hj), fun j hj => (h.shunned j hj).imp_right (none j), h.issued, h.drawn,
    h.own, h.awaited⟩

lemma Tidy.of_mail (h : Tidy c) {mail : Table Ticket Mailbox}
    (hm : ∀ u b, mail.get? u = some b → c.mail.get? u = some b ∨ b = .closed ∧ (c.mail.get? u).isSome)
    (hw : ∀ k u, c.waiting.get? k = some u → mail.get? u ≠ some .closed) :
    Tidy { c with mail := mail } := by
  refine ⟨h.waiting, h.parked, h.abandoned, h.keyed, h.apart, h.shunned, fun u hu => ?_, fun k u hk => ?_,
    h.own, fun u hu => ?_⟩
  · obtain ⟨b, hb⟩ := Option.isSome_iff_exists.mp hu
    rcases hm u b hb with hc | ⟨-, hc⟩
    · exact h.issued u (by rw [hc]; rfl)
    · exact h.issued u hc
  · refine ⟨(h.drawn k u hk).1, ?_⟩
    show mail.get? u = none ∨ mail.get? u = some .empty
    cases hb : mail.get? u with
    | none => exact Or.inl rfl
    | some b =>
      rcases hm u b hb with hc | ⟨rfl, -⟩
      · rw [← hb]
        rcases (h.drawn k u hk).2 with hn | he
        · rw [hn] at hc
          cases hc
        · rw [hb, ← hc]
          exact Or.inr he
      · exact absurd hb (hw k u hk)
  · rcases hm u .empty hu with hc | ⟨hc, -⟩
    · exact h.awaited u hc
    · cases hc

lemma Tidy.not_waiting (h : Tidy c) {b : Mailbox} (hm : c.mail.get? t = some b) (hb : b ≠ .empty)
    (k : CacheKey) :
    c.waiting.get? k ≠ some t := by
  intro hk
  rcases (h.drawn k t hk).2 with hn | he
  · rw [hn] at hm
    cases hm
  · rw [he] at hm
    exact hb (Option.some.inj hm).symm

lemma Tidy.closeTicket (h : Tidy c) (hm : c.mail.get? t = some (.filled r)) : Tidy (c.closeTicket t) := by
  refine h.of_mail (fun u b hb => ?_) fun k u hk hu => ?_
  · rw [Table.get?_modify] at hb
    split at hb
    · subst u
      rw [hm] at hb ⊢
      cases hb
      exact Or.inr ⟨rfl, rfl⟩
    · exact Or.inl hb
  · have hne : t ≠ u := fun he => h.not_waiting hm (by simp) k (he ▸ hk)
    rw [Table.get?_modify, if_neg hne] at hu
    exact h.not_waiting hu (by simp) k hk

lemma Tidy.discard (h : Tidy c) (t : Ticket) : Tidy (c.discard t) := by
  have sub : ∀ u b, (c.mail.erase t).get? u = some b → c.mail.get? u = some b := by
    intro u b hb
    rw [Table.get?_erase] at hb
    split at hb
    · cases hb
    · exact hb
  exact h.of_mail (fun u b hb => Or.inl (sub u b hb)) fun k u hk hu => h.not_waiting (sub u _ hu) (by simp) k hk

lemma Tidy.closes (h : Tidy c) {ks : List CacheKey} (hc : Closes c d ks)
    (ha : ∀ k ∈ d.abandoned, k ∈ c.abandoned ∨ (c.waiting.get? k).isSome) : Tidy d := by
  have waits : ∀ k u, d.waiting.get? k = some u → k ∉ ks ∧ c.waiting.get? k = some u := by
    intro k u hk
    rw [hc.waiting] at hk
    split at hk
    · cases hk
    · exact ⟨‹_›, hk⟩
  have kept : ∀ k u, d.waiting.get? k = some u → d.mail.get? u = c.mail.get? u := by
    intro k u hk
    obtain ⟨hks, hk⟩ := waits k u hk
    exact hc.kept u fun j hj hu => hks (h.own k j u hk hu ▸ hj)
  have parked : ∀ k, c.parked.get? k = none → d.parked.get? k = none := by
    intro k hk
    rcases hc.parked with he | he <;> rw [he]
    · exact hk
    · rfl
  have shut : ∀ u b, d.mail.get? u = some b →
      c.mail.get? u = some b ∧ (∀ k ∈ ks, c.waiting.get? k ≠ some u) ∨
        b = .closed ∧ (c.mail.get? u).isSome := by
    intro u b hb
    by_cases hk : ∃ k ∈ ks, c.waiting.get? k = some u
    · obtain ⟨k, hks, hk⟩ := hk
      rw [hc.closed k hks u hk] at hb
      obtain ⟨b', hb', rfl⟩ := Option.map_eq_some_iff.mp hb
      exact Or.inr ⟨rfl, by rw [hb']; rfl⟩
    · have hk' : ∀ k ∈ ks, c.waiting.get? k ≠ some u := fun k hks he => hk ⟨k, hks, he⟩
      exact Or.inl ⟨hc.kept u hk' ▸ hb, hk'⟩
  refine ⟨hc.distinct h.waiting, ?_, hc.nodup h.abandoned fun k _ t ht hk => ?_, fun k r hk => ?_,
    fun k u hk => parked k (h.apart k u (waits k u hk).2), fun k hk => ?_, fun u hu => ?_, fun k u hk => ?_,
    fun j k u hj hk => h.own j k u (waits j u hj).2 (waits k u hk).2, fun u hu => ?_⟩
  · rcases hc.parked with he | he <;> rw [he]
    · exact h.parked
    · exact List.nodup_nil
  · rw [(h.shunned k hk).1] at ht
    cases ht
  · rcases hc.parked with he | he <;> rw [he] at hk
    · exact h.keyed k r hk
    · cases hk
  · refine ⟨Option.eq_none_iff_forall_ne_some.mpr fun u hu => ?_, ?_⟩
    · obtain ⟨hks, hu⟩ := waits k u hu
      rcases hc.abandoned k hk with hk | hk
      · rw [(h.shunned k hk).1] at hu
        cases hu
      · exact hks hk
    · rcases ha k hk with hk | hk
      · exact parked k (h.shunned k hk).2
      · obtain ⟨u, hu⟩ := Option.isSome_iff_exists.mp hk
        exact parked k (h.apart k u hu)
  · obtain ⟨b, hb⟩ := Option.isSome_iff_exists.mp hu
    rw [hc.nextTicket]
    rcases shut u b hb with ⟨hb, -⟩ | ⟨-, hb⟩
    · exact h.issued u (by rw [hb]; rfl)
    · exact h.issued u hb
  · rw [kept k u hk, hc.nextTicket]
    exact h.drawn k u (waits k u hk).2
  · rcases shut u _ hu with ⟨hb, hks⟩ | ⟨hb, -⟩
    · obtain ⟨k, hk⟩ := h.awaited u hb
      refine ⟨k, ?_⟩
      rw [hc.waiting, if_neg fun hm => hks k hm hk]
      exact hk
    · cases hb

lemma Tidy.deals (h : Tidy c) (hd : Deals c d e) : Tidy d := by
  cases hd with
  | keeps hc _ => exact h.of_claims hc
  | registers hr => exact h.registers (register_ok hr)
  | places _ hp => exact h.places hp
  | pops _ hd => exact hd ▸ h.pops _
  | receives hm hd => exact hd ▸ h.closeTicket hm
  | discards t hd => exact hd ▸ h.discard t
  | closes ks hc ha _ _ => exact h.closes hc ha

lemma getElem?_snoc {α : Type} {l : List α} {a b : α} {i : Nat} :
    (l ++ [a])[i]? = some b ↔ l[i]? = some b ∨ i = l.length ∧ a = b := by
  rw [List.getElem?_append]
  split
  · simp [Nat.ne_of_lt ‹i < l.length›]
  · have hl : l[i]? = none := List.getElem?_eq_none (Nat.not_lt.mp ‹_›)
    rw [List.getElem?_singleton]
    grind

namespace Exchange

theorem invariant_of_deals {I : Exchange → Prop}
    (deals : ∀ x o e, Tidy x.correlator → I x → (x.step o).log = x.log ++ [e] →
      Deals x.correlator (x.step o).correlator e → I (x.step o))
    {x : Exchange} (ht : Tidy x.correlator) (hx : I x) (os : List Op) :
    Tidy (x.steps os).correlator ∧ I (x.steps os) := by
  induction os generalizing x with
  | nil => exact ⟨ht, hx⟩
  | cons o os ih =>
    obtain ⟨e, hl, hd⟩ := step_deals x o ht.waiting
    exact ih (ht.deals hd) (deals x o e ht hx hl hd)

theorem tidy_run (os : List Op) : Tidy (run os).correlator :=
  (invariant_of_deals (I := fun _ => True) (fun _ _ _ _ _ _ _ => trivial) tidy_new trivial os).1

end Exchange

end SocketRpc.Correlator
