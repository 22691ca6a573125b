import SocketRpc.Proofs.Provider.Entries

namespace SocketRpc.Provider

section Notes

variable {N M : List Note} {id : RequestId} {t : Ticket} {i m n : Nat} {x : Note}

def Claimed (N : List Note) (m : Nat) (c : CallId) (r : Request) (t : Ticket) : Prop :=
  N[m]? = some (.claimed c r t)

def Silent (N : List Note) (id : RequestId) (m n : Nat) : Prop :=
  ∀ i x r, m < i → i < n → N[i]? = some x → x.Brings r → r.id ≠ id

def Quieted (N : List Note) (id : RequestId) (t : Ticket) (m : Nat) : Prop :=
  ∃ n, m < n ∧ N[n]? = some (.answered t) ∧ Silent N id m n

lemma place_lt (h : N[i]? = some x) : i < N.length := (List.getElem?_eq_some_iff.mp h).1

lemma place_append (h : N[i]? = some x) : (N ++ M)[i]? = some x := by
  rw [List.getElem?_append_left (place_lt h), h]

lemma place_of_append (h : (N ++ M)[i]? = some x) : N[i]? = some x ∨ N.length ≤ i ∧ x ∈ M := by
  rw [List.getElem?_append] at h
  split at h
  · exact Or.inl h
  · exact Or.inr ⟨by omega, List.mem_of_getElem? h⟩

lemma Silent.append (h : Silent N id m n) (hn : n ≤ N.length) : Silent (N ++ M) id m n := by
  intro i x r hm hi hx
  rcases place_of_append hx with hx | ⟨hl, -⟩
  · exact h i x r hm hi hx
  · omega

lemma Silent.extend (h : Silent N id m N.length) (hM : ∀ x ∈ M, ∀ r, x.Brings r → r.id ≠ id) :
    Silent (N ++ M) id m (N ++ M).length := by
  intro i x r hm _ hx hb
  rcases place_of_append hx with hx | ⟨-, hx⟩
  · exact h i x r hm (place_lt hx) hx hb
  · exact hM x hx r hb

lemma Quieted.append (h : Quieted N id t m) : Quieted (N ++ M) id t m := by
  obtain ⟨n, hm, hn, hs⟩ := h
  exact ⟨n, hm, place_append hn, hs.append (Nat.le_of_lt (place_lt hn))⟩

lemma Silent.quieted (h : Silent N id m N.length) (hm : m < N.length) (ht : .answered t ∈ M)
    (hM : ∀ x ∈ M, ∀ r, ¬ x.Brings r) : Quieted (N ++ M) id t m := by
  obtain ⟨j, hj, hx⟩ := List.getElem_of_mem ht
  have hn : (N ++ M)[N.length + j]? = some (.answered t) := by
    rw [List.getElem?_append_right (Nat.le_add_right _ _), Nat.add_sub_cancel_left,
      List.getElem?_eq_getElem hj, hx]
  refine ⟨N.length + j, by omega, hn, fun i x r hi _ hx hb => ?_⟩
  exact (h.extend fun x hx r hb => absurd hb (hM x hx r)) i x r hi (place_lt hx) hx hb

end Notes

variable {F : Failure → Prop} {a : Option CallId} {p q : Provider} {c : CallId} {d : Dispatch}
  {ns : List Note} {x : Note} {m : Nat} {r : Request} {t : Ticket}

lemma Note.Plain.not_brings (h : x.Plain F) (r : Response) : ¬ x.Brings r := by
  rintro ⟨l, v, o, rfl, hv, -⟩
  have h : isPush v = true := h
  rw [hv] at h
  cases h

structure Registered (p : Provider) : Prop where
  known : ∀ c, (p.calls.get? c).isSome → c < p.nextCall
  fresh : ∀ c, p.Fresh c → ∀ m r t, ¬ Claimed p.notes m c r t
  issued : ∀ m c r t, Claimed p.notes m c r t → t < p.correlator.nextTicket
  once : ∀ m n b c r s t, Claimed p.notes m b r t → Claimed p.notes n c s t → m = n

inductive Standing (p : Provider) (d : Dispatch) (m : Nat) : Prop where
  | waiting (hm : p.correlator.mail.get? d.ticket = some .empty)
      (hw : p.correlator.waiting.get? d.request.id.key = some d.ticket)
      (hs : Silent p.notes d.request.id m p.notes.length)
  | answered {r : Response} (hm : p.correlator.mail.get? d.ticket = some (.filled r))
  | closed (hm : p.correlator.mail.get? d.ticket = some .closed)
      (hq : Quieted p.notes d.request.id d.ticket m)

def Course (p : Provider) (c : CallId) (d : Dispatch) : Prop :=
  ∃ m, Claimed p.notes m c d.request d.ticket ∧ Standing p d m ∧
    ∀ n r t, Claimed p.notes n c r t → n ≠ m →
      n < m ∧ r = d.request ∧ Quieted p.notes r.id t n ∧ ∀ k, p.correlator.waiting.get? k ≠ some t

structure Ledger (p : Provider) : Prop extends Registered p where
  waiting : p.correlator.waiting.Distinct
  parked : p.correlator.parked.Distinct
  abandoned : p.correlator.abandoned.Nodup
  keyed : ∀ k r, p.correlator.parked.get? k = some r → r.id.key = k
  waits : ∀ k t, p.correlator.waiting.get? k = some t →
    (∃ m c r, Claimed p.notes m c r t ∧ r.id.key = k) ∧
      (p.correlator.mail.get? t = none ∨ p.correlator.mail.get? t = some .empty)
  apart : ∀ k t, p.correlator.waiting.get? k = some t →
    k ∉ p.correlator.abandoned ∧ p.correlator.parked.get? k = none
  mailed : ∀ t b, p.correlator.mail.get? t = some b →
    ∃ m c r, Claimed p.notes m c r t ∧ ∀ y, b = .filled y → y.id = r.id
  course : ∀ c d, p.dispatch? c = some d → Course p c d

lemma ledger_new (endpoint : Endpoint) (config : Config) : Ledger (new endpoint config) where
  known c h := by simp [new] at h; cases h
  fresh c h m r t ht := by simp [Claimed, new] at ht
  issued m c r t ht := by simp [Claimed, new] at ht
  once m n b c r s t ht := by simp [Claimed, new] at ht
  waiting := List.nodup_nil
  parked := List.nodup_nil
  abandoned := List.nodup_nil
  keyed k r h := by cases h
  waits k t h := by cases h
  apart k t h := by cases h
  mailed t b h := by cases h
  course c d h := by cases h

structure Unclaimed (p q : Provider) (ns : List Note) : Prop where
  notes : q.notes = p.notes ++ ns
  none : ∀ x ∈ ns, ∀ c r t, x ≠ .claimed c r t

lemma Unclaimed.claimed_iff (h : Unclaimed p q ns) : Claimed q.notes m c r t ↔
    Claimed p.notes m c r t := by
  rw [Claimed, Claimed, h.notes]
  refine ⟨fun hc => ?_, place_append⟩
  rcases place_of_append hc with hc | ⟨-, hc⟩
  · exact hc
  · exact absurd rfl (h.none _ hc c r t)

lemma Frame.unclaimed (f : Frame a p q ns) (hn : ∀ x ∈ ns, x.Plain F) : Unclaimed p q ns :=
  ⟨f.notes, fun x hx c r t he => by
    have h := hn x hx
    rw [he] at h
    exact h⟩

lemma Registered.of_frame (h : Registered p) (f : Frame a p q ns) (hu : Unclaimed p q ns)
    (ht : q.correlator.nextTicket = p.correlator.nextTicket) : Registered q where
  known c hc := by
    rcases f.known c hc with hc | hc
    · exact Nat.lt_of_lt_of_le (h.known c hc) f.nextCall
    · exact hc
  fresh c hc m r t := hu.claimed_iff.not.mpr (h.fresh c (f.fresh c hc) m r t)
  issued m c r t hc := ht ▸ h.issued m c r t (hu.claimed_iff.mp hc)
  once m n b c r s t hb hc := h.once m n b c r s t (hu.claimed_iff.mp hb) (hu.claimed_iff.mp hc)

lemma Course.grow (h : Course p c d) (hu : Unclaimed p q ns)
    (hw : ∀ k t, q.correlator.waiting.get? k = some t → p.correlator.waiting.get? k = some t)
    (hs : ∀ m, Claimed p.notes m c d.request d.ticket → Standing p d m → Standing q d m) :
    Course q c d := by
  obtain ⟨m, hm, hst, hb⟩ := h
  refine ⟨m, hu.claimed_iff.mpr hm, hs m hm hst, fun n r t hn hne => ?_⟩
  obtain ⟨hlt, hr, hq, hk⟩ := hb n r t (hu.claimed_iff.mp hn) hne
  exact ⟨hlt, hr, hu.notes ▸ hq.append, fun k h => hk k (hw k t h)⟩

lemma Standing.keep (h : Standing p d m) (hn : q.notes = p.notes ++ ns)
    (hb : ∀ x ∈ ns, ∀ r, x.Brings r → r.id ≠ d.request.id)
    (hm : q.correlator.mail.get? d.ticket = p.correlator.mail.get? d.ticket)
    (hw : p.correlator.waiting.get? d.request.id.key = some d.ticket →
      q.correlator.waiting.get? d.request.id.key = some d.ticket) : Standing q d m := by
  cases h with
  | waiting h hk hs => exact .waiting (hm.trans h) (hw hk) (hn ▸ hs.extend hb)
  | answered h => exact .answered (hm.trans h)
  | closed h hq => exact .closed (hm.trans h) (hn ▸ hq.append)

lemma Ledger.of_parked (h : Ledger p) (f : Frame a p q ns) (hu : Unclaimed p q ns)
    (hb : ∀ x ∈ ns, ∀ r, ¬ x.Brings r)
    {ps : Table CacheKey Response} (hps : ps.Distinct)
    (hsub : ∀ k r, ps.get? k = some r → p.correlator.parked.get? k = some r)
    (hc : q.correlator.claims = { p.correlator with parked := ps }.claims)
    (hd : ∀ c d, q.dispatch? c = some d → p.dispatch? c = some d) : Ledger q := by
  obtain ⟨hw, hp, ha, hm, hn⟩ := Correlator.fields_of_claims hc
  dsimp only at hw hp ha hm hn
  refine { h.toRegistered.of_frame f hu hn with
    waiting := hw ▸ h.waiting, parked := hp ▸ hps, abandoned := ha ▸ h.abandoned
    keyed := ?_, waits := ?_, apart := ?_, mailed := ?_, course := ?_ }
  · exact fun k r hk => h.keyed k r (hsub k r (hp ▸ hk))
  · intro k t hk
    rw [hm]
    obtain ⟨⟨m, c, r, hc, hr⟩, hmail⟩ := h.waits k t (hw ▸ hk)
    exact ⟨⟨m, c, r, hu.claimed_iff.mpr hc, hr⟩, hmail⟩
  · intro k t hk
    obtain ⟨hka, hkp⟩ := h.apart k t (hw ▸ hk)
    refine ⟨ha ▸ hka, Option.eq_none_iff_forall_ne_some.mpr fun r hr => ?_⟩
    rw [hsub k r (hp ▸ hr)] at hkp
    cases hkp
  · intro t b hb
    obtain ⟨m, c, r, hc, hr⟩ := h.mailed t b (hm ▸ hb)
    exact ⟨m, c, r, hu.claimed_iff.mpr hc, hr⟩
  · intro c d hd'
    refine (h.course c d (hd c d hd')).grow hu (fun k t hk => hw ▸ hk) fun m _ hs => ?_
    exact hs.keep hu.notes (fun x hx r hr => absurd hr (hb x hx r)) (by rw [hm]) fun hk => hw.symm ▸ hk

lemma Ledger.of_keeps (h : Ledger p) (hk : Keeps F a p q) : Ledger q := by
  obtain ⟨ns, hf, hn⟩ := hk.frame
  exact h.of_parked hf (hf.unclaimed hn) (fun x hx => (hn x hx).not_brings) h.parked (fun _ _ h => h)
    hk.claims hk.dispatch

lemma Ledger.cleared (h : Ledger p) : Ledger (p.note .cleared) := by
  have hf : Frame none p (p.note .cleared) [.cleared] := frame_of_calls rfl rfl rfl
  refine h.of_parked hf ⟨rfl, by simp⟩ ?_ h.parked (fun _ _ h => h) rfl (fun _ _ h => h)
  rintro x hx r ⟨l, v, o, rfl, -⟩
  simp at hx

lemma Ledger.pop (h : Ledger p) {k : CacheKey} {r : Response} (f : Frame a p q [.popped k (some r)])
    (hd : ∀ c d, q.dispatch? c = some d → p.dispatch? c = some d)
    (hc : q.correlator.claims = { p.correlator with parked := p.correlator.parked.erase k }.claims) :
    Ledger q := by
  refine h.of_parked f ⟨f.notes, by simp⟩ ?_ (h.parked.erase k) (fun j s hs => ?_) hc hd
  · rintro x hx r ⟨l, v, o, rfl, -⟩
    simp at hx
  · rw [Table.get?_erase] at hs
    split at hs
    · cases hs
    · exact hs

lemma Ledger.claimed_unique (h : Ledger p) {n : Nat} {b : CallId} {s : Request}
    (hm : Claimed p.notes m c r t) (hn : Claimed p.notes n b s t) : m = n ∧ c = b ∧ r = s := by
  have he := h.once m n c b r s t hm hn
  subst he
  have := Option.some.inj (hm.symm.trans hn)
  simp only [Note.claimed.injEq] at this
  exact ⟨rfl, this.1, this.2.1⟩

lemma Ledger.ticket_ne (h : Ledger p) {b : CallId} {e : Dispatch} (hc : p.dispatch? c = some d)
    (hb : p.dispatch? b = some e) (hne : b ≠ c) : d.ticket ≠ e.ticket := by
  obtain ⟨m, hm, -⟩ := h.course c d hc
  obtain ⟨n, hn, -⟩ := h.course b e hb
  intro he
  exact hne (h.claimed_unique (he ▸ hn) hm).2.1

lemma Ledger.key_unique (h : Ledger p) {j k : CacheKey} (hj : p.correlator.waiting.get? j = some t)
    (hk : p.correlator.waiting.get? k = some t) : j = k := by
  obtain ⟨⟨m, c, r, hm, rfl⟩, -⟩ := h.waits j t hj
  obtain ⟨⟨n, b, s, hn, rfl⟩, -⟩ := h.waits k t hk
  rw [(h.claimed_unique hm hn).2.2]

lemma Ledger.not_waiting (h : Ledger p) {b : Mailbox}
    (hm : p.correlator.mail.get? t = some b) (hb : b ≠ .empty)
    (k : CacheKey) : p.correlator.waiting.get? k ≠ some t := by
  intro hk
  rcases (h.waits k t hk).2 with hn | he
  · rw [hm] at hn
    cases hn
  · rw [hm] at he
    exact hb (Option.some.inj he)

lemma Ledger.discard {k : Correlator} (h : Ledger { p with correlator := k })
    (hc : p.correlator.claims = (k.discard t).claims) (ht : ∀ c d, p.dispatch? c = some d → d.ticket ≠ t) :
    Ledger p := by
  obtain ⟨hw, hp, ha, hm, hn⟩ := Correlator.fields_of_claims hc
  have hw : p.correlator.waiting = k.waiting := hw
  have hp : p.correlator.parked = k.parked := hp
  have ha : p.correlator.abandoned = k.abandoned := ha
  have hmail : ∀ u, p.correlator.mail.get? u = if t = u then none else k.mail.get? u := by
    intro u
    rw [hm]
    exact Table.get?_erase _ _ _
  refine { known := h.known, fresh := h.fresh, once := h.once
           issued := fun m c r t hc => hn ▸ h.issued m c r t hc
           waiting := hw ▸ h.waiting, parked := hp ▸ h.parked, abandoned := ha ▸ h.abandoned
           keyed := hp ▸ h.keyed, apart := by rw [hw, ha, hp]; exact h.apart
           waits := ?_, mailed := ?_, course := ?_ }
  · intro j u hj
    refine (h.waits j u (hw ▸ hj)).imp_right fun hu => ?_
    rw [hmail]
    split
    · exact Or.inl rfl
    · exact hu
  · intro u b hb
    rw [hmail] at hb
    split at hb
    · cases hb
    · exact h.mailed u b hb
  · intro c d hd
    have hs : p.notes = p.notes ++ [] := (List.append_nil _).symm
    have hu : Unclaimed { p with correlator := k } p [] := ⟨hs, by simp⟩
    refine (h.course c d hd).grow hu (fun j u hj => hw ▸ hj) fun m _ hst => ?_
    refine hst.keep hs (by simp) ?_ fun hj => hw.symm ▸ hj
    rw [hmail, if_neg (ht c d hd).symm]

lemma Ledger.part (h : Ledger p) (f : Frame (some c) p q ns) (hu : Unclaimed p q ns)
    (hb : ∀ x ∈ ns, ∀ r, ¬ x.Brings r) (hp : p.dispatch? c = some d)
    (hc : q.correlator.claims = (p.correlator.discard d.ticket).claims) (hd : q.dispatch? c = none) :
    Ledger q := by
  have hm : Ledger { q with correlator := p.correlator } :=
    h.of_parked ⟨f.notes, f.others, f.fresh, f.nextCall, f.known, f.op⟩ ⟨hu.notes, hu.none⟩ hb h.parked
      (fun _ _ h => h) rfl fun b e hbe => dispatch?_of_frame f hd hbe
  refine hm.discard hc fun b e hbe => ?_
  have hne : b ≠ c := by
    rintro rfl
    rw [hd] at hbe
    cases hbe
  exact (h.ticket_ne hp (dispatch?_of_frame f hd hbe) hne).symm

lemma Ledger.close (h : Ledger p) (f : Frame a p q ns) (hn : ∀ x ∈ ns, x.Plain F) {ks : List CacheKey}
    (hc : p.correlator.Closes q.correlator ks)
    (hs : ∀ k ∈ ks, ∀ t, p.correlator.waiting.get? k = some t → .answered t ∈ ns)
    (hd : ∀ c d, q.dispatch? c = some d → p.dispatch? c = some d) : Ledger q := by
  have hu := f.unclaimed hn
  have hw : ∀ k t, q.correlator.waiting.get? k = some t → k ∉ ks ∧ p.correlator.waiting.get? k = some t := by
    intro k t hk
    rw [hc.waiting] at hk
    split at hk
    · cases hk
    · exact ⟨‹_›, hk⟩
  have kept : ∀ t b, p.correlator.mail.get? t = some b → b ≠ .empty →
      q.correlator.mail.get? t = some b := fun t b hb hne =>
    (hc.kept t fun k _ => h.not_waiting hb hne k).trans hb
  have hparked : ∀ k r, q.correlator.parked.get? k = some r → p.correlator.parked.get? k = some r := by
    intro k r hk
    rcases hc.parked with he | he
    · exact he ▸ hk
    · rw [he] at hk
      cases hk
  refine { h.toRegistered.of_frame f hu hc.nextTicket with
    waiting := hc.distinct h.waiting
    parked := ?_
    abandoned := hc.nodup h.abandoned fun k _ t hk => (h.apart k t hk).1
    keyed := fun k r hk => h.keyed k r (hparked k r hk)
    waits := ?_, apart := ?_, mailed := ?_, course := ?_ }
  · rcases hc.parked with he | he
    · exact he ▸ h.parked
    · rw [he]
      exact List.nodup_nil
  · intro k t hk
    obtain ⟨hks, hk⟩ := hw k t hk
    obtain ⟨⟨m, c, r, hm, hr⟩, hmail⟩ := h.waits k t hk
    refine ⟨⟨m, c, r, hu.claimed_iff.mpr hm, hr⟩, ?_⟩
    rwa [hc.kept t fun j hj hjt => hks (h.key_unique hjt hk ▸ hj)]
  · intro k t hk
    obtain ⟨hks, hk⟩ := hw k t hk
    obtain ⟨hka, hkp⟩ := h.apart k t hk
    refine ⟨fun hm => (hc.abandoned k hm).elim hka hks, ?_⟩
    refine Option.eq_none_iff_forall_ne_some.mpr fun r hr => ?_
    rw [hparked k r hr] at hkp
    cases hkp
  · intro t b hb
    by_cases hk : ∃ k ∈ ks, p.correlator.waiting.get? k = some t
    · obtain ⟨k, hk, ht⟩ := hk
      rw [hc.closed k hk t ht] at hb
      obtain ⟨b, hpb, rfl⟩ := Option.map_eq_some_iff.mp hb
      obtain ⟨m, c, r, hm, -⟩ := h.mailed t b hpb
      exact ⟨m, c, r, hu.claimed_iff.mpr hm, fun y hy => by cases hy⟩
    · rw [hc.kept t fun k hks ht => hk ⟨k, hks, ht⟩] at hb
      obtain ⟨m, c, r, hm, hr⟩ := h.mailed t b hb
      exact ⟨m, c, r, hu.claimed_iff.mpr hm, hr⟩
  · intro c d hcd
    refine (h.course c d (hd c d hcd)).grow hu (fun k t hk => (hw k t hk).2) fun m hm hst => ?_
    cases hst with
    | waiting he hk hsil =>
      by_cases hks : d.request.id.key ∈ ks
      · refine .closed ?_ ?_
        · rw [hc.closed _ hks _ hk, he]
          rfl
        · rw [f.notes]
          exact hsil.quieted (place_lt hm) (hs _ hks _ hk) fun x hx => (hn x hx).not_brings
      · refine .waiting ?_ ?_ ?_
        · rw [hc.kept d.ticket fun k hk' ht => hks (h.key_unique ht hk ▸ hk'), he]
        · rw [hc.waiting, if_neg hks, hk]
        · rw [f.notes]
          exact hsil.extend fun x hx r hb => absurd hb ((hn x hx).not_brings r)
    | answered hr => exact .answered (kept _ _ hr (by simp))
    | closed hr hq => exact .closed (kept _ _ hr (by simp)) (f.notes ▸ hq.append)

lemma Ledger.ticket_lt (h : Ledger p) (hd : p.dispatch? c = some d) :
    d.ticket < p.correlator.nextTicket := by
  obtain ⟨m, hm, -⟩ := h.course c d hd
  exact h.issued m c d.request d.ticket hm

lemma claimed_of_claim (hn : q.notes = p.notes ++ [.claimed c r t]) {n : Nat} {b : CallId} {s : Request}
    {u : Ticket} :
    Claimed q.notes n b s u ↔
      Claimed p.notes n b s u ∨ n = p.notes.length ∧ b = c ∧ s = r ∧ u = t := by
  rw [Claimed, Claimed, hn]
  constructor
  · intro h
    rw [List.getElem?_append] at h
    split at h
    · exact Or.inl h
    · obtain ⟨hi, he⟩ := List.getElem?_eq_some_iff.mp h
      simp only [List.length_singleton] at hi
      simp only [List.getElem_singleton, Note.claimed.injEq] at he
      exact Or.inr ⟨by omega, he.1.symm, he.2.1.symm, he.2.2.symm⟩
  · rintro (h | ⟨rfl, rfl, rfl, rfl⟩)
    · exact place_append h
    · simp

lemma not_fresh (h : ∀ c, (p.calls.get? c).isSome → c < p.nextCall) (hd : p.dispatch? c = some d) :
    ¬ p.Fresh c := by
  obtain ⟨ph, hph, hx⟩ := Option.bind_eq_some_iff.mp hd
  rintro (hc | hc)
  · obtain ⟨call, hcall, -⟩ := Option.map_eq_some_iff.mp hph
    exact absurd (h c (by rw [hcall]; rfl)) (Nat.not_lt.mpr hc)
  · rw [hph] at hc
    cases hc
    cases hx

lemma Registered.claim (h : Registered p) (f : Frame a p q [.claimed c r t])
    (ht : t = p.correlator.nextTicket) (hn : q.correlator.nextTicket = t + 1)
    (hd : q.dispatch? c = some d) : Registered q := by
  have claims := @claimed_of_claim p q c r t f.notes
  have known : ∀ b, (q.calls.get? b).isSome → b < q.nextCall := fun b hb =>
    (f.known b hb).elim (fun hb => Nat.lt_of_lt_of_le (h.known b hb) f.nextCall) id
  have issued : ∀ m b s u, Claimed p.notes m b s u → u < t := by
    rw [ht]
    exact h.issued
  refine ⟨known, fun b hb m s u hcl => ?_, fun m b s u hcl => ?_, fun m n b e s s' u hm hn => ?_⟩
  · rcases claims.mp hcl with hcl | ⟨-, rfl, -, -⟩
    · exact h.fresh b (f.fresh b hb) m s u hcl
    · exact not_fresh known hd hb
  · rw [hn]
    rcases claims.mp hcl with hcl | ⟨-, -, -, rfl⟩
    · exact Nat.lt_succ_of_lt (issued m b s u hcl)
    · exact Nat.lt_succ_self _
  · rcases claims.mp hm with hm | ⟨rfl, -, -, hu⟩ <;> rcases claims.mp hn with hn | ⟨rfl, -, -, hu'⟩
    · exact h.once m n b e s s' u hm hn
    · exact absurd (issued m b s u hm) (hu' ▸ Nat.lt_irrefl _)
    · exact absurd (issued n e s' u hn) (hu ▸ Nat.lt_irrefl _)
    · rfl

lemma Ledger.register (h : Ledger p) (f : Frame (some c) p q [.claimed c r t])
    (hr : p.correlator.Registers q.correlator r.id t)
    (hd : q.dispatch? c = some { request := r, ticket := t })
    (hb : ∀ n s u, Claimed p.notes n c s u →
      s = r ∧ Quieted p.notes s.id u n ∧ ∀ k, p.correlator.waiting.get? k ≠ some u) : Ledger q := by
  have claims := @claimed_of_claim p q c r t f.notes
  have new : Claimed q.notes p.notes.length c r t := claims.mpr (Or.inr ⟨rfl, rfl, rfl, rfl⟩)
  have old : ∀ {n b s u}, Claimed p.notes n b s u → u ≠ t := fun hc =>
    hr.ticket ▸ Nat.ne_of_lt (h.issued _ _ _ _ hc)
  -- closed claims do not come back
  have before : ∀ {n b s u}, Claimed p.notes n b s u →
      (∀ k, p.correlator.waiting.get? k ≠ some u) → ∀ k, q.correlator.waiting.get? k ≠ some u := by
    intro n b s u hc hk k hq
    rcases (hr.waiting k u).mp hq with hq | ⟨-, hu, -⟩
    · exact hk k hq
    · exact old hc hu
  refine { h.toRegistered.claim f hr.ticket hr.nextTicket hd with
    waiting := hr.waitingDistinct h.waiting
    parked := hr.parkedDistinct h.parked
    abandoned := by rw [hr.abandoned]; exact h.abandoned.erase _
    keyed := fun k s hk => h.keyed k s ((hr.parked k s).mp hk).1
    waits := ?_, apart := ?_, mailed := ?_, course := ?_ }
  · intro k u hk
    rcases (hr.waiting k u).mp hk with hk | ⟨rfl, rfl, hnone⟩
    · obtain ⟨⟨m, b, s, hcl, hs⟩, hmail⟩ := h.waits k u hk
      refine ⟨⟨m, b, s, claims.mpr (Or.inl hcl), hs⟩, ?_⟩
      rwa [hr.mail u (old hcl)]
    · refine ⟨⟨_, c, r, new, rfl⟩, ?_⟩
      rcases hr.own with ⟨-, ho⟩ | ⟨s, hs, -⟩
      · exact Or.inr ho
      · rw [hnone] at hs
        cases hs
  · intro k u hk
    rw [hr.abandoned, Option.eq_none_iff_forall_ne_some]
    rcases (hr.waiting k u).mp hk with hk | ⟨rfl, rfl, hnone⟩
    · obtain ⟨ha, hp⟩ := h.apart k u hk
      refine ⟨fun hm => ha (List.mem_of_mem_erase hm), fun s hs => ?_⟩
      rw [((hr.parked k s).mp hs).1] at hp
      cases hp
    · exact ⟨h.abandoned.not_mem_erase, fun s hs => ((hr.parked _ s).mp hs).2 rfl⟩
  · intro u b hb
    by_cases hu : u = t
    · subst hu
      refine ⟨_, c, r, new, fun y hy => ?_⟩
      rcases hr.own with ⟨-, ho⟩ | ⟨s, hs, ho⟩ <;> rw [ho] at hb <;> cases hb <;> cases hy
      exact RequestId.key_injective (h.keyed _ y hs)
    · obtain ⟨m, e, s, hcl, hs⟩ := h.mailed u b (hr.mail u hu ▸ hb)
      exact ⟨m, e, s, claims.mpr (Or.inl hcl), hs⟩
  · intro b e hbe
    by_cases hbc : b = c
    · subst hbc
      cases hd.symm.trans hbe
      refine ⟨_, new, ?_, fun n s u hcl hne => ?_⟩
      · rcases hr.own with ⟨hs, ho⟩ | ⟨s, -, ho⟩
        · refine .waiting ho ((hr.waiting _ _).mpr (Or.inr ⟨rfl, rfl, hs⟩)) fun i x y hi hi' => ?_
          rw [f.notes, List.length_append, List.length_singleton] at hi'
          omega
        · exact .answered ho
      · rcases claims.mp hcl with hcl | ⟨rfl, -⟩
        · obtain ⟨hs, hq, hk⟩ := hb n s u hcl
          exact ⟨place_lt hcl, hs, f.notes ▸ hq.append, before hcl hk⟩
        · exact absurd rfl hne
    · have hpe : p.dispatch? b = some e := by
        have ho := f.others b fun he => hbc (Option.some.inj he).symm
        simpa only [dispatch?, phaseOf, ho] using hbe
      obtain ⟨m, hm, hst, hbefore⟩ := h.course b e hpe
      refine ⟨m, claims.mpr (Or.inl hm), ?_, fun n s u hcl hne => ?_⟩
      · refine hst.keep f.notes ?_ (hr.mail _ (old hm)) fun hk => (hr.waiting _ _).mpr (Or.inl hk)
        rintro x hx y ⟨l, v, o, rfl, -⟩
        simp at hx
      · rcases claims.mp hcl with hcl | ⟨-, rfl, -⟩
        · obtain ⟨hlt, hs, hq, hk⟩ := hbefore n s u hcl hne
          exact ⟨hlt, hs, f.notes ▸ hq.append, before hcl hk⟩
        · exact absurd rfl hbc

lemma unclaimed_deposited {l : ListenerId} {v : Json.Value} {o : Except Failure Deposit}
    (hn : q.notes = p.notes ++ .deposited l v o :: ns) (hp : ∀ x ∈ ns, x.Plain F) :
    Unclaimed p q (.deposited l v o :: ns) := by
  refine ⟨hn, fun x hx c r t he => ?_⟩
  rcases List.mem_cons.mp hx with rfl | hx
  · cases he
  · have hx := hp x hx
    rw [he] at hx
    exact hx

lemma Ledger.receives (h : Ledger p) {y : Response} {o : Deposit} {k : Correlator}
    (hk : p.correlator.Placed y o k) : p.correlator.Receives k y :=
  hk.receives fun hm => Option.eq_none_iff_forall_ne_some.mpr fun t ht => (h.apart _ t ht).1 hm

lemma Ledger.deposit (h : Ledger p) {l : ListenerId} {v : Json.Value} {o : Deposit} {y : Response}
    (f : Frame a p q (.deposited l v (.ok o) :: ns)) (hv : Response.ofValue v = .ok y)
    (hn : ∀ x ∈ ns, x.Plain F) (hr : p.correlator.Receives q.correlator y)
    (hd : ∀ c d, q.dispatch? c = some d → p.dispatch? c = some d) : Ledger q := by
  have hu := unclaimed_deposited f.notes hn
  -- the claim of another key keeps its mailbox
  have other : ∀ {k t}, p.correlator.waiting.get? k = some t → k ≠ y.id.key →
      p.correlator.waiting.get? y.id.key ≠ some t := fun hk hne ht => hne (h.key_unique hk ht)
  have kept : ∀ t b, p.correlator.mail.get? t = some b → b ≠ .empty →
      q.correlator.mail.get? t = some b := fun t b hb hne =>
    (hr.kept t (h.not_waiting hb hne _)).trans hb
  refine { h.toRegistered.of_frame f hu hr.nextTicket with
    waiting := hr.waitingDistinct h.waiting
    parked := hr.parkedDistinct h.parked
    abandoned := h.abandoned.sublist hr.abandoned
    keyed := ?_, waits := ?_, apart := ?_, mailed := ?_, course := ?_ }
  · intro k s hk
    rcases hr.parked h.parked k s hk with hk | ⟨rfl, rfl, -⟩
    · exact h.keyed k s hk
    · rfl
  · intro k t hk
    obtain ⟨hk, hne⟩ := (hr.waiting k t).mp hk
    obtain ⟨⟨m, c, r, hm, hr'⟩, hmail⟩ := h.waits k t hk
    refine ⟨⟨m, c, r, hu.claimed_iff.mpr hm, hr'⟩, ?_⟩
    rwa [hr.kept t (other hk hne)]
  · intro k t hk
    obtain ⟨hk, hne⟩ := (hr.waiting k t).mp hk
    obtain ⟨ha, hp⟩ := h.apart k t hk
    refine ⟨fun hm => ha (hr.abandoned.subset hm), Option.eq_none_iff_forall_ne_some.mpr fun s hs => ?_⟩
    rcases hr.parked h.parked k s hs with hs | ⟨rfl, -⟩
    · rw [hp] at hs
      cases hs
    · exact hne rfl
  · intro t b hb
    by_cases ht : p.correlator.waiting.get? y.id.key = some t
    · obtain ⟨⟨m, c, r, hm, hk⟩, -⟩ := h.waits _ t ht
      refine ⟨m, c, r, hu.claimed_iff.mpr hm, fun z hz => ?_⟩
      rw [hr.filled t ht] at hb
      obtain ⟨_, -, rfl⟩ := Option.map_eq_some_iff.mp hb
      cases hz
      exact RequestId.key_injective hk.symm
    · obtain ⟨m, c, r, hm, hz⟩ := h.mailed t b (hr.kept t ht ▸ hb)
      exact ⟨m, c, r, hu.claimed_iff.mpr hm, hz⟩
  · intro c d hcd
    refine (h.course c d (hd c d hcd)).grow hu (fun k t hk => ((hr.waiting k t).mp hk).1) fun m _ hst => ?_
    cases hst with
    | waiting he hk hsil =>
      by_cases hid : d.request.id = y.id
      · refine .answered (r := y) ?_
        rw [hr.filled _ (hid ▸ hk), he]
        rfl
      · have hne : d.request.id.key ≠ y.id.key := fun hk => hid (RequestId.key_injective hk)
        refine .waiting ((hr.kept _ (other hk hne)).trans he) ((hr.waiting _ _).mpr ⟨hk, hne⟩) ?_
        rw [hu.notes]
        refine hsil.extend fun x hx r hb => ?_
        rcases List.mem_cons.mp hx with rfl | hx
        · obtain ⟨l', v', o', he, -, hv'⟩ := hb
          cases he
          cases hv.symm.trans hv'
          exact Ne.symm hid
        · exact absurd hb ((hn x hx).not_brings r)
    | answered ha => exact .answered (kept _ _ ha (by simp))
    | closed ha hq => exact .closed (kept _ _ ha (by simp)) (hu.notes ▸ hq.append)

lemma dispatch?_of_calls (hc : q.calls = p.calls) (c : CallId) : q.dispatch? c = p.dispatch? c := by
  simp only [dispatch?, phaseOf, hc]

lemma Ledger.reclaimed (h : Ledger p) (hp : p.dispatch? c = some d)
    (hm : (p.correlator.receive d.ticket).1 = .closed) {n : Nat} {s : Request} {u : Ticket}
    (hc : Claimed p.notes n c s u) :
    s = d.request ∧ Quieted p.notes s.id u n ∧ ∀ k, p.correlator.waiting.get? k ≠ some u := by
  obtain ⟨m, hcl, hst, hb⟩ := h.course c d hp
  by_cases hn : n = m
  · subst hn
    have := Option.some.inj (hc.symm.trans hcl)
    simp only [Note.claimed.injEq] at this
    obtain ⟨-, rfl, rfl⟩ := this
    cases hst with
    | waiting he _ _ => rcases Correlator.receive_closed hm with hr | hr <;> cases he.symm.trans hr
    | answered he => rcases Correlator.receive_closed hm with hr | hr <;> cases he.symm.trans hr
    | closed he hq => exact ⟨rfl, hq, h.not_waiting he (by simp)⟩
  · exact (hb n s u hc hn).2

lemma Ledger.entry (h : Ledger p) (he : Entry F a p q) : Ledger q := by
  cases he with
  | keep hk => exact h.of_keeps hk
  | claim ha f hp hr hc hd =>
    subst ha
    exact h.register f ((Correlator.register_ok hr).of_claims hc) hd
      fun n s u hcl => absurd hcl (h.fresh _ hp n s u)
  | reclaim ha f hp hm hr hc hd =>
    rename_i c d t k
    subst ha
    have hk := Correlator.register_ok hr
    have hq : Ledger { q with correlator := k } :=
      h.register ⟨f.notes, f.others, f.fresh, f.nextCall, f.known, f.op⟩ hk hd fun _ _ _ => h.reclaimed hp hm
    refine hq.discard hc fun b e hbe => ?_
    by_cases hb : b = c
    · subst hb
      cases hd.symm.trans hbe
      exact hk.ticket ▸ (Nat.ne_of_lt (h.ticket_lt hp)).symm
    · have ho := f.others b fun he => hb (Option.some.inj he).symm
      exact (h.ticket_ne hp (by simpa only [dispatch?, phaseOf, ho] using hbe) hb).symm
  | withdraw ha f hn hp hc hs hd =>
    refine h.close f hn hc (fun k hk t ht => ?_) fun c d => hd c ▸ id
    rw [List.mem_singleton.mp hk] at ht
    exact hs t ht
  | part ha f hn hp hc hd =>
    subst ha
    exact h.part f (f.unclaimed hn) (fun x hx => (hn x hx).not_brings) hp hc hd
  | settle ha f hp ho hc hd =>
    subst ha
    refine h.part f ⟨f.notes, by simp⟩ ?_ hp hc hd
    rintro x hx r ⟨l, v, o, rfl, -⟩
    simp at hx
  | pop ha f hr hc =>
    subst ha
    refine h.pop f (fun c d hd => ?_) hc
    simpa only [dispatch?, phaseOf, f.others c (by simp)] using hd
  | deposit ha f hv hr hk hc hn =>
    subst ha
    refine h.deposit f hr hn ((h.receives hk).of_claims hc) fun c d hd => ?_
    simpa only [dispatch?, phaseOf, f.others c (by simp)] using hd

lemma Ledger.sweep (h : Ledger p) (hs : Sweep p q) : Ledger q := by
  obtain ⟨ns, f, hn, ht⟩ := hs.frame
  exact h.close f (hn fun _ => True) (hs.closes h.waiting) (fun k _ t hk => ht k t hk)
    fun c d hd => dispatch?_of_calls hs.calls c ▸ hd

lemma Ledger.calm (h : Ledger p) (hm : Calm F p a q) : Ledger q := by
  have hs := calm_entries hm
  clear hm
  induction hs with
  | refl => exact h
  | tail _ he ih => exact ih.entry he

lemma Ledger.upheaval (h : Ledger p) (hu : Upheaval p q) : Ledger q := by
  obtain ⟨a, m, -, hs, hk | ⟨-, hk⟩⟩ := upheaval_entries (fun _ => True) hu
  · exact (h.sweep hs).of_keeps hk
  · exact (h.sweep hs).cleared.of_keeps hk

theorem ledger_steps {I : Provider → Prop}
    (entry : ∀ a p q, Ledger p → I p → Entry F a p q → I q)
    (sweep : ∀ p q, Ledger p → I p → Sweep p q → I q)
    (cleared : ∀ p, Ledger p → I p → p.correlator.parked = {} → I (p.note .cleared))
    {endpoint : Endpoint} {config : Config} (h : I (new endpoint config)) {es : List Event}
    (hf : ∀ e ∈ es, ∀ f, e.failure? = some f → F f) :
    Ledger ((new endpoint config).steps es) ∧ I ((new endpoint config).steps es) :=
  invariant_of_entries (I := fun p => Ledger p ∧ I p)
    (fun a p q ⟨hl, hi⟩ he => ⟨hl.entry he, entry a p q hl hi he⟩)
    (fun p q ⟨hl, hi⟩ hs => ⟨hl.sweep hs, sweep p q hl hi hs⟩)
    (fun p ⟨hl, hi⟩ hp => ⟨hl.cleared, cleared p hl hi hp⟩) ⟨ledger_new endpoint config, h⟩ hf

end SocketRpc.Provider
