import SocketRpc.Correlator
import SocketRpc.Proofs.Table
import Mathlib.Logic.Function.Basic

namespace SocketRpc

lemma RequestId.key_injective : Function.Injective RequestId.key := by
  intro i j h
  cases i <;> cases j
  case number.number n m =>
    have hd := congrArg (fun s => Nat.ofDigitChars 10 s.toList 0)
      ((String.append_right_inj _).mp (CacheKey.mk.inj h))
    simp only [Nat.toString_eq_repr, Nat.toList_repr, Nat.ofDigitChars_ten_toDigits] at hd
    rw [hd]
  case text.text a b => rw [(String.append_right_inj _).mp (CacheKey.mk.inj h)]
  case null.null => rfl
  all_goals
    have hl := congrArg (fun k => k.text.toList.take 2) h
    simp [key, String.toList_append] at hl

namespace Correlator

variable {c d : Correlator} {id : RequestId} {t : Ticket} {k : CacheKey} {ks : List CacheKey} {r : Response}

def claims (c : Correlator) : Correlator :=
  { waiting := c.waiting, parked := c.parked, abandoned := c.abandoned, mail := c.mail
    nextTicket := c.nextTicket }

lemma fields_of_claims (h : c.claims = d.claims) :
    c.waiting = d.waiting ∧ c.parked = d.parked ∧ c.abandoned = d.abandoned ∧ c.mail = d.mail ∧
      c.nextTicket = d.nextTicket := by
  simpa [claims] using h

lemma claims_popSubscription (c : Correlator) (s : SubscriptionId) :
    (c.popSubscription s).2.claims = c.claims := by
  rw [popSubscription]
  split <;> rfl

lemma claims_nextNotification (c : Correlator) (s : SubscriptionId) (epoch : Nat) :
    (c.nextNotification s epoch).2.claims = c.claims := by
  have h := c.claims_popSubscription s
  rw [nextNotification]
  split
  · rfl
  · split
    · rename_i hp
      rwa [hp] at h
    · split <;> rfl

lemma register_error {f : Failure} (h : c.register id = (.error f, d)) :
    (c.waiting.get? id.key).isSome ∧ f = .duplicateRequestId id ∧ d = c := by
  simp only [register] at h
  split at h
  · cases h
    exact ⟨‹_›, rfl, rfl⟩
  · split at h <;> cases h

structure Registers (c d : Correlator) (id : RequestId) (t : Ticket) : Prop where
  free : c.waiting.get? id.key = none
  ticket : t = c.nextTicket
  nextTicket : d.nextTicket = t + 1
  waiting : ∀ k u, d.waiting.get? k = some u ↔
    c.waiting.get? k = some u ∨ k = id.key ∧ u = t ∧ c.parked.get? id.key = none
  parked : ∀ k r, d.parked.get? k = some r ↔ c.parked.get? k = some r ∧ k ≠ id.key
  abandoned : d.abandoned = c.abandoned.erase id.key
  mail : ∀ u, u ≠ t → d.mail.get? u = c.mail.get? u
  own : c.parked.get? id.key = none ∧ d.mail.get? t = some .empty ∨
    ∃ r, c.parked.get? id.key = some r ∧ d.mail.get? t = some (.filled r)
  waitingDistinct : c.waiting.Distinct → d.waiting.Distinct
  parkedDistinct : c.parked.Distinct → d.parked.Distinct

lemma register_ok (h : c.register id = (.ok t, d)) : Registers c d id t := by
  simp only [register] at h
  split at h
  · cases h
  · rename_i hw
    have hw : c.waiting.get? id.key = none := by simpa using hw
    split at h
    · rename_i r hr
      cases h
      refine ⟨hw, rfl, rfl, fun k u => ?_, fun k s => ?_, rfl, fun u hu => ?_, Or.inr ⟨r, hr, ?_⟩,
        fun h => h, fun h => h.erase _⟩
      · simp [hr]
      · by_cases hk : id.key = k
        · simp [hk]
        · simp [hk, Ne.symm hk]
      · rw [Table.get?_set, if_neg hu.symm]
      · rw [Table.get?_set, if_pos rfl]
    · rename_i hr
      cases h
      refine ⟨hw, rfl, rfl, fun k u => ?_, fun k s => ⟨fun hk => ⟨hk, ?_⟩, And.left⟩, rfl, fun u hu => ?_,
        Or.inl ⟨hr, ?_⟩, fun h => h.set _ _, fun h => h⟩
      · by_cases hk : id.key = k
        · subst hk
          simp [hw, hr, eq_comm]
        · simp [hk, Ne.symm hk]
      · rintro rfl
        rw [hr] at hk
        cases hk
      · rw [Table.get?_set, if_neg hu.symm]
      · rw [Table.get?_set, if_pos rfl]

lemma Registers.of_claims (h : Registers c d id t) {b : Correlator} (hb : b.claims = d.claims) :
    Registers c b id t := by
  obtain ⟨hw, hp, ha, hm, hn⟩ := fields_of_claims hb
  exact ⟨h.free, h.ticket, hn.trans h.nextTicket, hw ▸ h.waiting, hp ▸ h.parked, ha.trans h.abandoned,
    hm ▸ h.mail, hm ▸ h.own, hw ▸ h.waitingDistinct, hp ▸ h.parkedDistinct⟩

lemma receive_filled (h : c.receive t = (.filled r, d)) :
    c.mail.get? t = some (.filled r) ∧ d = c.closeTicket t := by
  rw [receive] at h
  split at h
  · cases h
    exact ⟨‹_›, rfl⟩
  · rename_i hf hm
    cases h
    exact (hf r rfl).elim
  · cases h

lemma receive_empty (h : (c.receive t).1 = .empty) : c.mail.get? t = some .empty := by
  rw [receive] at h
  split at h
  · cases h
  · rename_i hm
    exact hm.trans (congrArg some h)
  · cases h

lemma receive_closed (h : (c.receive t).1 = .closed) :
    c.mail.get? t = some .closed ∨ c.mail.get? t = none := by
  rw [receive] at h
  split at h
  · cases h
  · rename_i hm
    exact Or.inl (hm.trans (congrArg some h))
  · exact Or.inr ‹_›

inductive Placed (c : Correlator) (r : Response) : Deposit → Correlator → Prop where
  | late (h : r.id.key ∈ c.abandoned) :
      Placed c r .late { c with abandoned := c.abandoned.erase r.id.key }
  | delivered {t : Ticket} (h : c.waiting.get? r.id.key = some t) (hm : (c.mail.get? t).isSome) :
      Placed c r (.delivered t)
        { c with waiting := c.waiting.erase r.id.key, mail := c.mail.set t (.filled r) }
  | unheard {t : Ticket} (h : c.waiting.get? r.id.key = some t) (hm : c.mail.get? t = none) :
      Placed c r .unheard { c with waiting := c.waiting.erase r.id.key }
  | parked (ha : r.id.key ∉ c.abandoned) (hw : c.waiting.get? r.id.key = none)
      (hp : c.parked.get? r.id.key = none) : Placed c r .parked (c.park r.id.key r)

lemma depositResponse_placed {o : Deposit} (h : c.depositResponse r = (.ok o, d)) :
    Placed c r o d := by
  simp only [depositResponse] at h
  split at h
  · cases h
    exact .late ‹_›
  · split at h
    · rename_i t _ hw
      split at h
      · rename_i hm
        cases h
        exact .delivered hw (by rw [hm]; rfl)
      · cases h
        exact .unheard hw ‹_›
    · cases h
    · cases h
      exact .parked ‹_› ‹_› ‹_›

structure Receives (c d : Correlator) (r : Response) : Prop where
  waiting : ∀ k u, d.waiting.get? k = some u ↔ c.waiting.get? k = some u ∧ k ≠ r.id.key
  filled : ∀ u, c.waiting.get? r.id.key = some u →
    d.mail.get? u = (c.mail.get? u).map fun _ => .filled r
  kept : ∀ u, c.waiting.get? r.id.key ≠ some u → d.mail.get? u = c.mail.get? u
  parked : c.parked.Distinct → ∀ k s, d.parked.get? k = some s →
    c.parked.get? k = some s ∨ k = r.id.key ∧ s = r ∧ c.waiting.get? k = none
  abandoned : d.abandoned.Sublist c.abandoned
  nextTicket : d.nextTicket = c.nextTicket
  waitingDistinct : c.waiting.Distinct → d.waiting.Distinct
  parkedDistinct : c.parked.Distinct → d.parked.Distinct

lemma erased_waiting (w : Table CacheKey Ticket) (k j : CacheKey) (u : Ticket) :
    (w.erase k).get? j = some u ↔ w.get? j = some u ∧ j ≠ k := by
  rw [Table.get?_erase]
  split
  · simp [‹k = j›]
  · simp [Ne.symm ‹k ≠ j›]

lemma free_waiting {w : Table CacheKey Ticket} (h : w.get? k = none) (j : CacheKey) (u : Ticket) :
    w.get? j = some u ↔ w.get? j = some u ∧ j ≠ k := by
  refine ⟨fun hj => ⟨hj, ?_⟩, And.left⟩
  rintro rfl
  rw [h] at hj
  cases hj

lemma Placed.receives {o : Deposit} (h : Placed c r o d)
    (ha : r.id.key ∈ c.abandoned → c.waiting.get? r.id.key = none) : Receives c d r := by
  cases h with
  | late hk =>
    have hw := ha hk
    refine ⟨free_waiting hw, fun u hu => ?_, fun u _ => rfl, fun _ k s hs => Or.inl hs,
      List.erase_sublist, rfl, fun h => h, fun h => h⟩
    rw [hw] at hu
    cases hu
  | delivered hw hm =>
    refine ⟨erased_waiting _ _, fun u hu => ?_, fun u hu => ?_, fun _ k s hs => Or.inl hs,
      List.Sublist.refl _, rfl, fun h => h.erase _, fun h => h⟩
    · obtain ⟨b, hb⟩ := Option.isSome_iff_exists.mp hm
      cases hw.symm.trans hu
      simp [hb]
    · rename_i t
      have hne : t ≠ u := fun he => hu (he ▸ hw)
      simp [hne]
  | unheard hw hm =>
    refine ⟨erased_waiting _ _, fun u hu => ?_, fun u _ => rfl, fun _ k s hs => Or.inl hs,
      List.Sublist.refl _, rfl, fun h => h.erase _, fun h => h⟩
    cases hw.symm.trans hu
    simp [hm]
  | parked hk hw hp =>
    refine ⟨free_waiting hw, fun u hu => ?_, fun u _ => rfl, fun hd k s hs => ?_,
      List.Sublist.refl _, rfl, fun h => h, fun h => ?_⟩
    · rw [hw] at hu
      cases hu
    · simp only [park, Table.get?_set] at hs
      split at hs
      · cases hs
        subst ‹r.id.key = k›
        exact Or.inr ⟨rfl, rfl, hw⟩
      · split at hs
        · exact Or.inl (hd.get?_of_tail hs)
        · exact Or.inl hs
    · rw [park]
      dsimp only
      split
      · exact h.tail.set _ _
      · exact h.set _ _

lemma Receives.of_claims (h : Receives c d r) {b : Correlator} (hb : b.claims = d.claims) :
    Receives c b r := by
  obtain ⟨hw, hp, ha, hm, hn⟩ := fields_of_claims hb
  exact ⟨hw ▸ h.waiting, hm ▸ h.filled, hm ▸ h.kept, hp ▸ h.parked, ha ▸ h.abandoned,
    hn.trans h.nextTicket, hw ▸ h.waitingDistinct, hp ▸ h.parkedDistinct⟩

lemma deposit_cases (c : Correlator) (v : Json.Value) (push : Bool) :
    (∃ r o, push = false ∧ Response.ofValue v = .ok r ∧ (c.deposit v push).1 = .ok o ∧
        Placed c r o (c.deposit v push).2) ∨
      (c.deposit v push).2.claims = c.claims ∧
        ((∃ f, (c.deposit v push).1 = .error f) ∨ push = true) := by
  rw [deposit]
  split
  · refine Or.inr ⟨?_, Or.inr ‹_›⟩
    rw [depositPush]
    split <;> rfl
  · rename_i hp
    split
    · exact Or.inr ⟨rfl, Or.inl ⟨_, rfl⟩⟩
    · split
      · exact Or.inr ⟨rfl, Or.inl ⟨_, rfl⟩⟩
      · rename_i r hr
        rcases hd : c.depositResponse r with ⟨f | o, d⟩
        · refine Or.inr ⟨?_, Or.inl ⟨f, rfl⟩⟩
          simp only [depositResponse] at hd
          split at hd
          · cases hd
          · split at hd
            · split at hd <;> cases hd
            · cases hd
              rfl
            · cases hd
        · exact Or.inl ⟨r, o, Bool.eq_false_iff.mpr hp, hr, rfl, depositResponse_placed hd⟩

inductive Refusal : Failure → Prop where
  | deserialization (p : Json.Problem) : Refusal (.deserialization p)
  | invalidMessage (text : String) : Refusal (.invalidMessage text)
  | duplicateResponseId (id : RequestId) : Refusal (.duplicateResponseId id)

lemma depositPush_error {e : Failure} (h : c.depositPush v = (.error e, d)) :
    Refusal e ∧ d = c := by
  rw [depositPush] at h
  split at h
  · cases h
    exact ⟨.deserialization _, rfl⟩
  · cases h

lemma depositResponse_error {r : Response} {e : Failure}
    (h : c.depositResponse r = (.error e, d)) :
    (∃ first, c.parked.get? r.id.key = some first ∧ e = .duplicateResponseId first.id) ∧ d = c := by
  simp only [depositResponse] at h
  split at h
  · cases h
  · split at h
    · split at h <;> cases h
    · rename_i first _ hp
      cases h
      exact ⟨⟨first, hp, rfl⟩, rfl⟩
    · cases h

lemma deposit_error {push : Bool} {e : Failure} (h : c.deposit v push = (.error e, d)) :
    Refusal e ∧ d = c := by
  rw [deposit] at h
  split at h
  · exact depositPush_error h
  · split at h
    · cases h
      exact ⟨.invalidMessage _, rfl⟩
    · split at h
      · cases h
        exact ⟨.deserialization _, rfl⟩
      · obtain ⟨⟨first, -, rfl⟩, hd⟩ := depositResponse_error h
        exact ⟨.duplicateResponseId _, hd⟩

structure Closes (c d : Correlator) (ks : List CacheKey) : Prop where
  waiting : ∀ k, d.waiting.get? k = if k ∈ ks then none else c.waiting.get? k
  distinct : c.waiting.Distinct → d.waiting.Distinct
  closed : ∀ k ∈ ks, ∀ t, c.waiting.get? k = some t →
    d.mail.get? t = (c.mail.get? t).map fun _ => .closed
  kept : ∀ t, (∀ k ∈ ks, c.waiting.get? k ≠ some t) → d.mail.get? t = c.mail.get? t
  parked : d.parked = c.parked ∨ d.parked = {}
  abandoned : ∀ k ∈ d.abandoned, k ∈ c.abandoned ∨ k ∈ ks
  nodup : c.abandoned.Nodup → (∀ k ∈ ks, ∀ t, c.waiting.get? k = some t → k ∉ c.abandoned) →
    d.abandoned.Nodup
  nextTicket : d.nextTicket = c.nextTicket

lemma closes_none (h : c.waiting.get? k = none) : Closes c c [k] where
  waiting j := by
    by_cases hj : j = k <;> simp [hj, h]
  distinct h := h
  closed j hj t ht := by
    rw [List.mem_singleton.mp hj, h] at ht
    cases ht
  kept t _ := rfl
  parked := Or.inl rfl
  abandoned k hk := Or.inl hk
  nodup h _ := h
  nextTicket := rfl

lemma closes_one (h : c.waiting.get? k = some t)
    (hk : ks = c.abandoned ∨ ∃ kept, kept.Sublist c.abandoned ∧ ks = kept ++ [k]) :
    Closes c { c.closeTicket t with waiting := c.waiting.erase k, abandoned := ks } [k] where
  waiting j := by
    by_cases hj : k = j
    · simp [hj]
    · simp [hj, Ne.symm hj]
  distinct h := h.erase k
  closed j hj u hu := by
    rw [List.mem_singleton.mp hj, h] at hu
    cases hu
    simp [closeTicket]
  kept u hu := by
    have : t ≠ u := fun e => hu k (List.mem_singleton_self k) (e ▸ h)
    simp [closeTicket, this]
  parked := Or.inl rfl
  abandoned j hj := by
    obtain rfl | ⟨kept, hs, rfl⟩ := hk
    · exact Or.inl hj
    · exact (List.mem_append.mp hj).imp_left fun hm => hs.subset hm
  nodup hn ha := by
    obtain rfl | ⟨kept, hs, rfl⟩ := hk
    · exact hn
    · have hk : k ∉ kept := fun hm => ha k (List.mem_singleton_self k) t h (hs.subset hm)
      exact List.nodup_append.mpr ⟨hn.sublist hs, by simp, by grind⟩
  nextTicket := rfl

lemma forget_closes (c : Correlator) (id : RequestId) : Closes c (c.forget id) [id.key] := by
  rw [forget]
  split
  · exact closes_one ‹_› (Or.inl rfl)
  · exact closes_none ‹_›

lemma abandon_closes (c : Correlator) (id : RequestId) : Closes c (c.abandon id) [id.key] := by
  rw [abandon]
  split
  · refine closes_one ‹_› (Or.inr ⟨_, ?_, rfl⟩)
    split
    · exact List.tail_sublist _
    · exact List.Sublist.refl _
  · exact closes_none ‹_›

lemma waiting_abandon (c : Correlator) (id : RequestId) :
    (c.abandon id).waiting.get? id.key = none := by
  rw [(abandon_closes c id).waiting, if_pos (List.mem_singleton_self _)]

lemma foldl_closeTicket (c : Correlator) (ts : List Ticket) :
    ∃ mail, ts.foldl closeTicket c = { c with mail } ∧
      ∀ t, mail.get? t = if t ∈ ts then (c.mail.get? t).map fun _ => .closed else c.mail.get? t := by
  induction ts generalizing c with
  | nil => exact ⟨c.mail, rfl, fun t => by simp⟩
  | cons u ts ih =>
    obtain ⟨mail, he, hm⟩ := ih (c.closeTicket u)
    refine ⟨mail, he, fun t => ?_⟩
    rw [hm, closeTicket, Table.get?_modify]
    by_cases ht : t ∈ ts
    · by_cases hu : u = t <;> simp [ht, hu, Function.comp_def]
    · by_cases hu : u = t <;> simp [ht, hu, eq_comm]

lemma dismiss_closes (hc : c.waiting.Distinct) : Closes c c.dismiss c.waiting.keys := by
  obtain ⟨mail, he, hm⟩ := foldl_closeTicket c c.waiting.values
  have hd : c.dismiss = { c with mail, waiting := {} } := by
    rw [dismiss]
    rw [he]
  have hw : ∀ k, k ∉ c.waiting.keys → c.waiting.get? k = none := fun k hk => by
    simpa [Table.contains] using mt (Table.contains_iff c.waiting k).mp hk
  rw [hd]
  refine ⟨fun k => ?_, fun _ => List.nodup_nil, fun k hk t ht => ?_, fun t ht => ?_, Or.inl rfl,
    fun k hk => Or.inl hk, fun hn _ => hn, rfl⟩
  · split
    · rfl
    · exact (hw k ‹_›).symm
  · exact (hm t).trans (if_pos (Table.mem_values_of_get? ht))
  · refine (hm t).trans (if_neg fun hv => ?_)
    obtain ⟨k, hk⟩ := hc.exists_of_mem_values hv
    refine ht k ?_ hk
    exact (Table.contains_iff c.waiting k).mp (by simp [Table.contains, hk])

lemma Closes.of_claims (h : Closes c d ks) {b : Correlator} (hb : b.claims = d.claims) :
    Closes c b ks := by
  obtain ⟨hw, hp, ha, hm, hn⟩ := fields_of_claims hb
  exact ⟨hw ▸ h.waiting, hw ▸ h.distinct, hm ▸ h.closed, hm ▸ h.kept, hp ▸ h.parked, ha ▸ h.abandoned,
    ha ▸ h.nodup, hn.trans h.nextTicket⟩

lemma Closes.filled (h : Closes c d ks) (hm : d.mail.get? t = some (.filled r)) :
    c.mail.get? t = some (.filled r) := by
  by_cases hk : ∃ j ∈ ks, c.waiting.get? j = some t
  · obtain ⟨j, hj, hw⟩ := hk
    rw [h.closed j hj t hw] at hm
    obtain ⟨_, -, he⟩ := Option.map_eq_some_iff.mp hm
    cases he
  · rwa [h.kept t fun j hj hw => hk ⟨j, hj, hw⟩] at hm

lemma Closes.ready (h : Closes c d ks) (hp : d.parked.get? k = some r) : c.parked.get? k = some r := by
  rcases h.parked with he | he
  · exact he ▸ hp
  · rw [he] at hp
    cases hp

lemma clear_closes (hc : c.waiting.Distinct) : Closes c c.clear c.waiting.keys := by
  have h := dismiss_closes hc
  exact ⟨h.waiting, h.distinct, h.closed, h.kept, Or.inr rfl, fun k hk => by simp [clear] at hk,
    fun _ _ => List.nodup_nil, h.nextTicket⟩

end Correlator

end SocketRpc
