import SocketRpc.Proofs.Correlator.Origins
import SocketRpc.Proofs.Correlator.Slots
import Mathlib.Data.List.Induction

namespace SocketRpc.Correlator

section room

variable {α : Type} {a b : α} {l l' : List α} {n m : Nat}

def Behind (a : α) (n : Nat) (l : List α) : Prop :=
  ∃ before after, l = before ++ a :: after ∧ after.length ≤ n

lemma behind_last (l : List α) (a : α) : Behind a 0 (l ++ [a]) := ⟨l, [], rfl, Nat.le_refl _⟩

lemma Behind.mem (h : Behind a n l) : a ∈ l := by
  obtain ⟨before, after, rfl, -⟩ := h
  exact List.mem_append_right _ List.mem_cons_self

lemma Behind.mono (h : Behind a n l) (hn : n ≤ m) : Behind a m l := by
  obtain ⟨before, after, rfl, ha⟩ := h
  exact ⟨before, after, rfl, Nat.le_trans ha hn⟩

lemma Behind.sublist (h : Behind a n l) (hl : l.Nodup) (hs : l'.Sublist l) (ha : a ∈ l') : Behind a n l' := by
  obtain ⟨before, after, rfl, hn⟩ := h
  obtain ⟨p, q, rfl, hp, hq⟩ := List.sublist_append_iff.mp hs
  have hd := List.nodup_append.mp hl
  have hap : a ∉ p := fun hm => hd.2.2 a (hp.subset hm) a List.mem_cons_self rfl
  have haq : a ∈ q := (List.mem_append.mp ha).resolve_left hap
  cases hq with
  | cons _ hq => exact absurd (hq.subset haq) (List.nodup_cons.mp hd.2.1).1
  | cons_cons _ hq => exact ⟨p, _, rfl, Nat.le_trans hq.length_le hn⟩

lemma Behind.push (h : Behind a n l) (hn : n + 1 < m) (b : α) :
    Behind a (n + 1) ((if m ≤ l.length then l.tail else l) ++ [b]) := by
  obtain ⟨before, after, rfl, ha⟩ := h
  have grown : (after ++ [b]).length ≤ n + 1 := by
    rw [List.length_append, List.length_singleton]
    exact Nat.succ_le_succ ha
  split
  · rename_i hm
    -- a full list has others in front
    cases before with
    | nil =>
      rw [List.nil_append, List.length_cons] at hm
      omega
    | cons c before => exact ⟨before, after ++ [b], by simp, grown⟩
  · exact ⟨before, after ++ [b], by simp, grown⟩

end room

variable {log es : List Entry} {c d : Correlator} {o : Op} {e : Entry} {k : CacheKey} {id : RequestId} {r s : Response}
  {v : Json.Value} {x : Exchange} {os : List Op} {i n : Nat}

namespace Op

def response? : Op → Option Response
  | .deposit v false => (v.get? "id").bind fun _ => (Response.ofValue v).toOption
  | _ => none

def asks (k : CacheKey) : Op → Bool
  | .pop j => j = k
  | .register id => id.key = k
  | _ => false

lemma response?_deposit (h : (deposit v false).response? = some r) :
    (v.get? "id").isSome ∧ Response.ofValue v = .ok r := by
  obtain ⟨i, hi, hr⟩ := Option.bind_eq_some_iff.mp h
  refine ⟨by rw [hi]; rfl, ?_⟩
  rcases ho : Response.ofValue v with f | q
  · rw [ho] at hr
    cases hr
  · rw [ho] at hr
    cases hr
    rfl

end Op

lemma deposit_response (c : Correlator) (h : (Op.deposit v false).response? = some r) :
    c.deposit v false = c.depositResponse r := by
  obtain ⟨hi, hr⟩ := Op.response?_deposit h
  obtain ⟨i, hi⟩ := Option.isSome_iff_exists.mp hi
  simp [deposit, hi, hr]

lemma deposit_placed (c : Correlator) (v : Json.Value) (push : Bool) :
    (∃ r o, (Op.deposit v push).response? = some r ∧ (c.deposit v push).1 = .ok o ∧
        Placed c r o (c.deposit v push).2 ∧ (Entry.deposited v push (.ok .parked)).parks = some r) ∨
      (c.deposit v push).2.claims = c.claims ∧
        (Entry.deposited v push (c.deposit v push).1).parks = none := by
  rcases c.deposit_cases v push with ⟨r, o, rfl, hv, ho, hp⟩ | ⟨hc, he⟩
  · have hi : ∃ i, v.get? "id" = some i := by
      rw [← Option.ne_none_iff_exists']
      intro hn
      simp [deposit, hn] at ho
    obtain ⟨i, hi⟩ := hi
    exact Or.inl ⟨r, o, by simp [Op.response?, hi, hv, Except.toOption], ho, hp, by
      simp [Entry.parks, hv, Except.toOption]⟩
  · refine Or.inr ⟨hc, ?_⟩
    rcases he with ⟨f, hf⟩ | rfl
    · rw [hf]
      cases push <;> rfl
    · rfl

lemma park_of_deposit (hv : Response.ofValue v = .ok r) (hd : (c.deposit v false).1 = .ok .parked) :
    c.parked.get? r.id.key = none ∧ (c.deposit v false).2 = c.park r.id.key r := by
  rcases c.deposit_placed v false with ⟨s, o, hs, ho, hp, -⟩ | ⟨-, he⟩
  · obtain rfl : s = r := Except.ok.inj ((Op.response?_deposit hs).2.symm.trans hv)
    obtain rfl : .parked = o := Except.ok.inj (hd.symm.trans ho)
    generalize (c.deposit v false).2 = d at hp
    cases hp with
    | parked _ _ hp => exact ⟨hp, rfl⟩
  · rw [hd] at he
    simp [Entry.parks, hv, Except.toOption] at he

inductive Shelves (c d : Correlator) (o : Op) (e : Entry) : Prop where
  | keeps (h : d.parked = c.parked) (he : e.parks = none)
  | takes (k : CacheKey) (h : d.parked = c.parked.erase k) (ho : o.asks k) (he : e.parks = none)
  | clears (h : d.parked = {}) (ho : o = .clear) (he : e.parks = none)
  | parks (r : Response) (h : d = c.park r.id.key r) (hp : c.parked.get? r.id.key = none)
      (ho : o.response? = some r) (he : e.parks = some r)

lemma parked_dismiss (c : Correlator) : c.dismiss.parked = c.parked := by
  obtain ⟨mail, he, -⟩ := foldl_closeTicket c c.waiting.values
  rw [dismiss, he]

lemma parked_of_claims (h : d.claims = c.claims) : d.parked = c.parked := (fields_of_claims h).2.1

lemma deposit_shelves (c : Correlator) (v : Json.Value) (push : Bool) :
    Shelves c (c.deposit v push).2 (.deposit v push) (.deposited v push (c.deposit v push).1) := by
  rcases c.deposit_placed v push with ⟨r, o, hr, ho, hp, he⟩ | ⟨hc, he⟩
  · rw [ho]
    generalize (c.deposit v push).2 = d at hp
    cases hp with
    | late _ | delivered _ _ | unheard _ _ => exact .keeps rfl (by cases push <;> rfl)
    | parked _ _ hp => exact .parks r rfl hp hr he
  · exact .keeps (parked_of_claims hc) he

lemma pop_shelves (c : Correlator) (k : CacheKey) :
    Shelves c (c.pop k).2 (.pop k) (.popped k (c.pop k).1) := by
  rw [pop]
  split
  · exact .takes k rfl (by simp [Op.asks]) rfl
  · exact .keeps rfl rfl

lemma register_shelves (c : Correlator) (id : RequestId) :
    Shelves c (c.register id).2 (.register id) (.registered id (c.register id).1) := by
  simp only [register]
  split
  · exact .keeps rfl rfl
  · split
    · exact .takes id.key rfl (by simp [Op.asks]) rfl
    · exact .keeps rfl rfl

lemma step_shelves (x : Exchange) (o : Op) :
    ∃ e, (x.step o).log = x.log ++ [e] ∧ Shelves x.correlator (x.step o).correlator o e := by
  have keeps : ∀ {d : Correlator} {e : Entry}, d.claims = x.correlator.claims → e.parks = none →
      Shelves x.correlator d o e := fun hc he => .keeps (parked_of_claims hc) he
  cases o with
  | deposit v push => exact ⟨_, rfl, deposit_shelves _ v push⟩
  | pop k => exact ⟨_, rfl, pop_shelves _ k⟩
  | register id => exact ⟨_, rfl, register_shelves _ id⟩
  | receive t =>
    refine ⟨_, rfl, .keeps ?_ rfl⟩
    rw [Exchange.step, receive]
    split <;> rfl
  | discard t => exact ⟨_, rfl, .keeps rfl rfl⟩
  | forget id =>
    refine ⟨_, rfl, .keeps ?_ rfl⟩
    rw [Exchange.step, forget]
    split <;> rfl
  | abandon id =>
    refine ⟨_, rfl, .keeps ?_ rfl⟩
    rw [Exchange.step, abandon]
    split <;> rfl
  | clear => exact ⟨_, rfl, .clears rfl rfl rfl⟩
  | fail reason => exact ⟨_, rfl, .keeps (parked_dismiss _) rfl⟩
  | closeByPeer => exact ⟨_, rfl, .keeps (parked_dismiss _) rfl⟩
  | reopen => exact ⟨_, rfl, keeps rfl rfl⟩
  | openSubscription s => exact ⟨_, rfl, keeps (claims_openSubscription _ s) rfl⟩
  | removeSubscription s => exact ⟨_, rfl, keeps rfl rfl⟩
  | popSubscription s => exact ⟨_, rfl, keeps (claims_popSubscription _ s) rfl⟩
  | read s => exact ⟨_, log_look { x with nextReader := x.nextReader + 1 } _ _, keeps (claims_look _ _ _) rfl⟩
  | poll n =>
    rw [Exchange.step]
    split
    · exact ⟨_, log_look _ _ _, keeps (claims_look _ _ _) rfl⟩
    · exact ⟨_, rfl, keeps rfl rfl⟩
  | quit n => exact ⟨_, rfl, keeps rfl rfl⟩

lemma keys_park (hc : c.parked.Distinct) (hp : c.parked.get? k = none) (r : Response) :
    (c.park k r).parked.keys =
      (if maxParked ≤ c.parked.keys.length then c.parked.keys.tail else c.parked.keys) ++ [k] := by
  have hk : (kept c).get? k = none := Option.eq_none_iff_forall_ne_some.mpr fun s hs => by
    rw [hc.get?_of_mem ((kept_sublist c).subset (Table.mem_entries_of_get? hs))] at hp
    cases hp
  have hl : c.parked.keys.length = c.parked.size := List.length_map _
  refine (Table.keys_set hk r).trans (congrArg (· ++ [k]) ?_)
  rw [hl, kept]
  split
  · exact List.map_tail
  · rfl

def ParkedAt (log : List Entry) (i : Nat) (r : Response) : Prop :=
  (log[i]?).bind Entry.parks = some r ∧
    ∀ j s, i < j → (log[j]?).bind Entry.parks = some s → s.id.key ≠ r.id.key

lemma ParkedAt.snoc (h : ParkedAt log i r) (he : ∀ s, e.parks = some s → s.id.key ≠ r.id.key) :
    ParkedAt (log ++ [e]) i r := by
  refine ⟨bind_snoc h.1, fun j s hij hj => ?_⟩
  rcases bind_of_snoc hj with hj | ⟨-, hs⟩
  · exact h.2 j s hij hj
  · exact he s hs

lemma parkedAt_last (log : List Entry) (he : e.parks = some r) : ParkedAt (log ++ [e]) log.length r := by
  refine ⟨by simp [he], fun j s hij hj => ?_⟩
  have hl := lt_of_bind hj
  rw [List.length_append, List.length_singleton] at hl
  omega

def Aged (log : List Entry) (c : Correlator) : Prop :=
  ∃ place : CacheKey → Nat, (∀ k r, c.parked.get? k = some r → ParkedAt log (place k) r) ∧
    (c.parked.keys.map place).Pairwise (· < ·)

lemma Aged.of_sublist (h : Aged log c) (hc : c.parked.Distinct)
    (hp : d.parked.entries.Sublist c.parked.entries) (he : e.parks = none) : Aged (log ++ [e]) d := by
  obtain ⟨place, hplace, horder⟩ := h
  refine ⟨place, fun k r hk => ?_, horder.sublist ((hp.map Prod.fst).map place)⟩
  have hk := hplace k r (hc.get?_of_mem (hp.subset (Table.mem_entries_of_get? hk)))
  exact hk.snoc fun s hs => by cases he.symm.trans hs

lemma get?_park_of_ne (hc : c.parked.Distinct) (hk : k ≠ r.id.key) :
    (c.park r.id.key r).parked.get? k = some s ↔ (k, s) ∈ (kept c).entries := by
  have hd : (kept c).Distinct := hc.sublist ((kept_sublist c).map Prod.fst)
  have hp : (c.park r.id.key r).parked.get? k = (kept c).get? k :=
    (Table.get?_set _ _ _ _).trans (if_neg hk.symm)
  rw [hp]
  exact ⟨Table.mem_entries_of_get?, hd.get?_of_mem⟩

lemma of_get?_park (hc : c.parked.Distinct) (hk : k ≠ r.id.key)
    (h : (c.park r.id.key r).parked.get? k = some s) : c.parked.get? k = some s :=
  hc.get?_of_mem ((kept_sublist c).subset ((get?_park_of_ne hc hk).mp h))

lemma get?_park_self (c : Correlator) (r : Response) : (c.park r.id.key r).parked.get? r.id.key = some r :=
  (Table.get?_set _ _ _ _).trans (if_pos rfl)

lemma Aged.parks (h : Aged log c) (hc : Tidy c) (hp : c.parked.get? r.id.key = none) (he : e.parks = some r) :
    Aged (log ++ [e]) (c.park r.id.key r) := by
  obtain ⟨place, hplace, horder⟩ := h
  have hkeys : ∀ k ∈ c.parked.keys, k ≠ r.id.key ∧ place k < log.length := by
    intro k hk
    obtain ⟨s, hs⟩ := Table.mem_keys.mp hk
    refine ⟨fun he => ?_, lt_of_bind (hplace k s hs).1⟩
    rw [he, hp] at hs
    cases hs
  refine ⟨Function.update place r.id.key log.length, fun k s hk => ?_, ?_⟩
  · by_cases hkr : k = r.id.key
    · rw [hkr, get?_park_self] at hk
      cases hk
      rw [hkr, Function.update_self]
      exact parkedAt_last log he
    · rw [Function.update_of_ne hkr]
      have hk := of_get?_park hc.parked hkr hk
      refine (hplace k s hk).snoc fun q hq => ?_
      cases he.symm.trans hq
      rw [hc.keyed k s hk]
      exact Ne.symm hkr
  · rw [keys_park hc.parked hp, List.map_append, List.map_singleton, Function.update_self]
    have hsub : (if maxParked ≤ c.parked.keys.length then c.parked.keys.tail else c.parked.keys).Sublist
        c.parked.keys := by
      split
      · exact List.tail_sublist _
      · exact List.Sublist.refl _
    -- the new one has the last place, the others keep theirs
    have hold : ∀ k ∈ c.parked.keys, Function.update place r.id.key log.length k = place k := fun k hk =>
      Function.update_of_ne (hkeys k hk).1 _ _
    rw [List.map_congr_left fun k hk => hold k (hsub.subset hk)]
    refine List.pairwise_append.mpr ⟨horder.sublist (hsub.map place), List.pairwise_singleton _ _, ?_⟩
    intro i hi j hj
    obtain ⟨k, hk, rfl⟩ := List.mem_map.mp hi
    rw [List.mem_singleton.mp hj]
    exact (hkeys k (hsub.subset hk)).2

lemma Aged.shelves (h : Aged log c) (hc : Tidy c) (hs : Shelves c d o e) : Aged (log ++ [e]) d := by
  cases hs with
  | keeps hd he => exact h.of_sublist hc.parked (hd ▸ List.Sublist.refl _) he
  | takes k hd _ he => exact h.of_sublist hc.parked (hd ▸ List.filter_sublist) he
  | clears hd _ he => exact h.of_sublist hc.parked (hd ▸ List.nil_sublist _) he
  | parks r hd hp _ he => exact hd ▸ h.parks hc hp he

lemma aged_run (os : List Op) : Aged (Exchange.run os).log (Exchange.run os).correlator := by
  induction os using List.reverseRecOn with
  | nil => exact ⟨fun _ => 0, fun _ _ hk => (nomatch hk), List.Pairwise.nil⟩
  | append_singleton os o ih =>
    obtain ⟨e, hl, hs⟩ := step_shelves (Exchange.run os) o
    rw [Exchange.run_snoc, hl]
    exact ih.shelves (Exchange.tidy_run os) hs

structure Shelved (c : Correlator) (r : Response) (n : Nat) : Prop where
  parked : c.parked.get? r.id.key = some r
  place : Behind r.id.key n c.parked.keys

lemma parkings_cons (e : Entry) (es : List Entry) : parkings (e :: es) = e.parks.toList ++ parkings es := by
  rw [parkings, List.filterMap_cons]
  cases h : e.parks <;> rfl

lemma shelved_park (hc : c.parked.Distinct) (hp : c.parked.get? r.id.key = none) :
    Shelved (c.park r.id.key r) r 0 :=
  ⟨get?_park_self c r, keys_park hc hp r ▸ behind_last _ _⟩

lemma Shelved.step (h : Shelved c r n) (hc : Tidy c) (hs : Shelves c d o e) (ho : o ≠ .clear)
    (ha : o.asks r.id.key = false) (hn : n + e.parks.toList.length < maxParked) :
    Shelved d r (n + e.parks.toList.length) := by
  cases hs with
  | keeps hd he =>
    rw [he]
    exact ⟨hd ▸ h.parked, hd ▸ h.place⟩
  | takes k hd hk he =>
    have hne : k ≠ r.id.key := by
      rintro rfl
      cases ha.symm.trans hk
    have hp : d.parked.get? r.id.key = some r := by
      rw [hd, Table.get?_erase, if_neg hne]
      exact h.parked
    rw [he]
    refine ⟨hp, h.place.sublist hc.parked ?_ (Table.mem_keys.mpr ⟨r, hp⟩)⟩
    rw [hd]
    exact List.filter_sublist.map Prod.fst
  | clears _ he => exact absurd he ho
  | parks s hd hp _ he =>
    rw [he] at hn ⊢
    have hne : r.id.key ≠ s.id.key := fun he => by
      rw [← he, h.parked] at hp
      cases hp
    -- one more stands behind it, and it was not the first if one had to go
    have hplace := h.place.push hn s.id.key
    rw [← keys_park hc.parked hp s, ← hd] at hplace
    refine ⟨?_, hplace⟩
    obtain ⟨q, hq⟩ := Table.mem_keys.mp hplace.mem
    rw [hd] at hq ⊢
    have hr := of_get?_park hc.parked hne hq
    rw [h.parked] at hr
    cases hr
    exact hq

lemma log_steps (x : Exchange) (os : List Op) : ∃ es, (x.steps os).log = x.log ++ es := by
  induction os generalizing x with
  | nil => exact ⟨[], (List.append_nil _).symm⟩
  | cons o os ih =>
    obtain ⟨e, he, -⟩ := step_shelves x o
    obtain ⟨es, hes⟩ := ih (x.step o)
    refine ⟨e :: es, ?_⟩
    rw [he, List.append_assoc] at hes
    exact hes

lemma Tidy.step (h : Tidy x.correlator) (o : Op) : Tidy (x.step o).correlator := by
  obtain ⟨e, -, hd⟩ := step_deals x o h.waiting
  exact h.deals hd

lemma Tidy.steps (h : Tidy x.correlator) (os : List Op) : Tidy (x.steps os).correlator :=
  (Exchange.invariant_of_deals (I := fun _ => True) (fun _ _ _ _ _ _ _ => trivial) h trivial os).1

lemma Shelved.steps (h : Shelved x.correlator r n) (hc : Tidy x.correlator) (ho : .clear ∉ os)
    (ha : ∀ o ∈ os, o.asks r.id.key = false) (hl : (x.steps os).log = x.log ++ es)
    (hn : n + (parkings es).length < maxParked) :
    Shelved (x.steps os).correlator r (n + (parkings es).length) := by
  induction os generalizing x n es with
  | nil =>
    obtain rfl : es = [] := List.append_cancel_left (hl.symm.trans (List.append_nil _).symm)
    exact h
  | cons o os ih =>
    obtain ⟨e, he, hs⟩ := step_shelves x o
    obtain ⟨fs, hfs⟩ := log_steps (x.step o) os
    obtain rfl : es = e :: fs := by
      have hx : x.log ++ es = x.log ++ [e] ++ fs := hl.symm.trans (he ▸ hfs)
      exact List.append_cancel_left (hx.trans (List.append_assoc _ _ _))
    rw [parkings_cons, List.length_append, ← Nat.add_assoc] at hn ⊢
    have hstep := h.step hc hs (fun he => ho (he ▸ List.mem_cons_self)) (ha o List.mem_cons_self) (by omega)
    exact ih hstep (hc.step o) (fun hm => ho (List.mem_cons_of_mem _ hm))
      (fun p hp => ha p (List.mem_cons_of_mem _ hp)) hfs hn

structure Available (x : Exchange) (r : Response) : Prop where
  parked : x.correlator.parked.get? r.id.key = some r
  pops : (x.step (.pop r.id.key)).log = x.log ++ [.popped r.id.key (some r)]
  claims : ∃ t, ((x.step (.register r.id)).step (.receive t)).log =
    x.log ++ [.registered r.id (.ok t), .received t (.filled r)]

lemma available_of_parked (hc : Tidy x.correlator) (h : x.correlator.parked.get? r.id.key = some r) :
    Available x r := by
  have hw : x.correlator.waiting.get? r.id.key = none := Option.eq_none_iff_forall_ne_some.mpr fun t ht => by
    rw [hc.apart _ t ht] at h
    cases h
  refine ⟨h, by simp [Exchange.step, Exchange.record, pop, h], x.correlator.nextTicket, ?_⟩
  simp [Exchange.step, Exchange.record, register, receive, hw, h]

structure Overruns (x y : Exchange) (r : Response) : Prop where
  waiting : y.correlator.waiting = x.correlator.waiting
  mail : y.correlator.mail = x.correlator.mail
  newcomer : y.correlator.parked.get? r.id.key = some r
  room : x.correlator.cached < maxParked → ∀ k s, x.correlator.parked.get? k = some s →
    y.correlator.parked.get? k = some s
  oldest : maxParked ≤ x.correlator.cached → ∃ k s i, x.correlator.parked.get? k = some s ∧
    ParkedAt x.log i s ∧ y.correlator.parked.get? k = none ∧
    ∀ j q, j ≠ k → x.correlator.parked.get? j = some q →
      y.correlator.parked.get? j = some q ∧ ∃ l, i < l ∧ ParkedAt x.log l q

lemma overruns_park {y : Exchange} (ha : Aged x.log x.correlator) (hc : Tidy x.correlator)
    (hp : x.correlator.parked.get? r.id.key = none) (hy : y.correlator = x.correlator.park r.id.key r) :
    Overruns x y r := by
  have other : ∀ {k s}, x.correlator.parked.get? k = some s → k ≠ r.id.key := by
    rintro _ s hk rfl
    rw [hp] at hk
    cases hk
  refine ⟨hy ▸ rfl, hy ▸ rfl, hy ▸ get?_park_self _ _, fun hs k s hk => ?_, fun hs => ?_⟩
  · rw [cached] at hs
    rw [hy, get?_park_of_ne hc.parked (other hk), kept, if_neg (Nat.not_le.mpr hs)]
    exact Table.mem_entries_of_get? hk
  · rw [cached] at hs
    obtain ⟨place, hplace, horder⟩ := ha
    obtain ⟨k, s, rest, he⟩ : ∃ k s rest, x.correlator.parked.entries = (k, s) :: rest := by
      rcases he : x.correlator.parked.entries with _ | ⟨⟨k, s⟩, rest⟩
      · simp [Table.size, he, maxParked] at hs
      · exact ⟨k, s, rest, rfl⟩
    have hkept : (kept x.correlator).entries = rest := by
      rw [kept, if_pos hs, he]
      rfl
    have hk : x.correlator.parked.get? k = some s := hc.parked.get?_of_mem (he ▸ List.mem_cons_self)
    rw [Table.keys, he, List.map_cons, List.map_cons] at horder
    have first : ∀ j q, (j, q) ∈ rest → place k < place j := fun j q hj =>
      (List.pairwise_cons.mp horder).1 _ (List.mem_map_of_mem (List.mem_map_of_mem (f := Prod.fst) hj))
    refine ⟨k, s, place k, hk, hplace k s hk, Option.eq_none_iff_forall_ne_some.mpr fun q hq => ?_,
      fun j q hj hq => ?_⟩
    · rw [hy, get?_park_of_ne hc.parked (other hk), hkept] at hq
      exact Nat.lt_irrefl _ (first k q hq)
    · have hm : (j, q) ∈ rest := by
        have hm := Table.mem_entries_of_get? hq
        rw [he] at hm
        refine (List.mem_cons.mp hm).resolve_left fun h => hj (congrArg Prod.fst h)
      refine ⟨?_, place j, first j q hm, hplace j q hq⟩
      rw [hy, get?_park_of_ne hc.parked (other hq), hkept]
      exact hm

/-- However a correlator was used, a response that is parked stays for whoever asks for it next, unless as many
are parked after it as there is room for; and what goes to make room is the response that has been parked longest,
never a claim that waits. -/
theorem parked_until_overrun (os : List Op) (hv : Response.ofValue v = .ok r)
    (hd : ((Exchange.run os).correlator.deposit v false).1 = .ok .parked) :
    let x := Exchange.run os
    let y := Exchange.run (os ++ [.deposit v false])
    (∀ os', .clear ∉ os' → (∀ o ∈ os', o.asks r.id.key = false) →
      (parkings ((y.steps os').log.drop y.log.length)).length < maxParked → Available (y.steps os') r) ∧
    Overruns x y r ∧
    ∀ k t, (Slots.run os).2.responses.get? k = some (.waiting t) →
      (Slots.run (os ++ [.deposit v false])).2.responses.get? k = some (.waiting t) := by
  intro x y
  have hx : Tidy x.correlator := Exchange.tidy_run os
  obtain ⟨hp, hc⟩ := park_of_deposit hv hd
  have hy : y.correlator = x.correlator.park r.id.key r :=
    (congrArg Exchange.correlator (Exchange.run_snoc os _)).trans hc
  have overruns := overruns_park (aged_run os) hx hp hy
  have hty : Tidy y.correlator := Exchange.tidy_run _
  refine ⟨fun os' hc ha hn => ?_, overruns, fun k t hk => ?_⟩
  · obtain ⟨es, hes⟩ := log_steps y os'
    rw [hes, List.drop_left] at hn
    have hr : Shelved y.correlator r 0 := hy ▸ shelved_park hx.parked hp
    have hr := hr.steps hty hc ha hes (by omega)
    exact available_of_parked (hty.steps os') hr.parked
  · have same : ∀ ps, (Slots.run ps).2.Represents (Exchange.run ps).correlator := fun ps =>
      (slots_steps ps (p := ([], {})) (x := {}) rfl Slots.represents_new tidy_new ordered_new).2.1
    rw [(same _).get?_eq_waiting] at hk ⊢
    rw [overruns.waiting]
    exact hk

def stray (n : Nat) : Response := { id := .text (String.ofList (List.replicate n 'x')), result := some (.bool true) }

def flood (n : Nat) : List Op := (List.range n).map fun i => .deposit (stray i).toValue false

lemma ofValue_stray (n : Nat) : Response.ofValue (stray n).toValue = .ok (stray n) := rfl

lemma stray_key_injective : Function.Injective fun n => (stray n).id.key := fun m n h => by
  have h := RequestId.text.inj (RequestId.key_injective h)
  simpa using congrArg String.length h

lemma flood_succ (n : Nat) : flood (n + 1) = flood n ++ [.deposit (stray n).toValue false] := by
  rw [flood, List.range_succ, List.map_append]
  rfl

structure Flooded (c : Correlator) (n : Nat) : Prop where
  waiting : c.waiting = {}
  abandoned : c.abandoned = []
  keys : c.parked.keys = (List.range n).map fun i => (stray i).id.key

lemma Flooded.deposit (h : Flooded c n) :
    c.deposit (stray n).toValue false = (.ok .parked, c.park (stray n).id.key (stray n)) ∧
      c.parked.get? (stray n).id.key = none := by
  have hp : c.parked.get? (stray n).id.key = none := Option.eq_none_iff_forall_ne_some.mpr fun r hr => by
    have hm := h.keys ▸ Table.mem_keys.mpr ⟨r, hr⟩
    obtain ⟨i, hi, he⟩ := List.mem_map.mp hm
    rw [stray_key_injective he, List.mem_range] at hi
    exact Nat.lt_irrefl _ hi
  have hr : (Op.deposit (stray n).toValue false).response? = some (stray n) := rfl
  refine ⟨(deposit_response c hr).trans ?_, hp⟩
  rw [depositResponse, h.abandoned, h.waiting, hp]
  rfl

lemma flooded_run (hn : n ≤ maxParked) : Flooded (Exchange.run (flood n)).correlator n := by
  induction n with
  | zero => exact ⟨rfl, rfl, rfl⟩
  | succ n ih =>
    have h := ih (Nat.le_of_succ_le hn)
    obtain ⟨hd, hp⟩ := h.deposit
    have hl : ¬ maxParked ≤ (Exchange.run (flood n)).correlator.parked.keys.length := by
      rw [h.keys, List.length_map, List.length_range]
      omega
    have hr : (Exchange.run (flood (n + 1))).correlator =
        (Exchange.run (flood n)).correlator.park (stray n).id.key (stray n) := by
      rw [flood_succ, Exchange.run_snoc]
      exact congrArg Prod.snd hd
    rw [hr]
    refine ⟨h.waiting, h.abandoned, ?_⟩
    rw [keys_park (Exchange.tidy_run _).parked hp, if_neg hl, h.keys, List.range_succ, List.map_append]
    rfl

def disturbances (id : RequestId) : List Op := [.fail "reset", .closeByPeer, .reopen, .forget id, .abandon id]

theorem parked_until_overrun_flooded :
    let x := Exchange.run (flood maxParked)
    let y := Exchange.run (flood maxParked ++ [.deposit (stray maxParked).toValue false])
    (x.correlator.deposit (stray maxParked).toValue false).1 = .ok .parked ∧
    Available (y.steps (disturbances (stray maxParked).id)) (stray maxParked) ∧
    ∃ k s, x.correlator.parked.get? k = some s ∧ y.correlator.parked.get? k = none := by
  intro x y
  have hf : Flooded x.correlator maxParked := flooded_run (Nat.le_refl _)
  have hd : (x.correlator.deposit (stray maxParked).toValue false).1 = .ok .parked :=
    congrArg Prod.fst hf.deposit.1
  have full : maxParked ≤ x.correlator.cached := by
    have hl := congrArg List.length hf.keys
    rw [Table.keys, List.length_map, List.length_map, List.length_range] at hl
    exact Nat.le_of_eq hl.symm
  have quiet : (y.steps (disturbances (stray maxParked).id)).log =
      y.log ++ (disturbances (stray maxParked).id).map Entry.did := by
    simp [disturbances, Exchange.steps, Exchange.step, Exchange.record]
  have h := parked_until_overrun (flood maxParked) (ofValue_stray maxParked) hd
  have overruns : Overruns x y (stray maxParked) := h.2.1
  obtain ⟨k, s, -, hk, -, hgone, -⟩ := overruns.oldest full
  refine ⟨hd, h.1 _ ?_ ?_ ?_, k, s, hk, hgone⟩
  · simp [disturbances]
  · simp [disturbances, Op.asks]
  · rw [quiet, List.drop_left]
    decide

end SocketRpc.Correlator
