import SocketRpc.Proofs.Provider.Resets
import Mathlib.Data.Nat.ModEq

/-!
The numbers of requests. Every call whose request is numbered takes a number of its own, so such a request is
never refused for its identifier, however often its response is claimed.
-/

namespace SocketRpc.Provider

variable {F : Failure → Prop} {a : Option CallId} {p q m : Provider} {b c : CallId} {d : Dispatch} {e : Event}
  {es : List Event} {f : Failure} {M : List Note} {N : List (CallId × Nat)} {ns : List Note} {n : Nat}
  {op : Operation} {x : Request} {id : RequestId} {ph : Phase}

def Operation.isNumbered : Operation → Bool
  | .request _ _ | .call _ _ _ | .isConnected _ | .subscribe _ _ | .unsubscribe _ => true
  | _ => false

def number? (p : Provider) : Event → Option (CallId × Nat)
  | .turn c =>
    match p.calls.get? c with
    | some { op, phase := .start } => if op.isNumbered then some (c, p.nextId) else none
    | _ => none
  | _ => none

def numbers (p : Provider) : List Event → List (CallId × Nat)
  | [] => []
  | e :: es => (p.number? e).toList ++ (p.step e).numbers es

lemma numbers_snoc (p : Provider) (es : List Event) (e : Event) :
    p.numbers (es ++ [e]) = p.numbers es ++ ((p.steps es).number? e).toList := by
  induction es generalizing p with
  | nil => exact List.append_nil _
  | cons d es ih =>
    rw [List.cons_append, numbers, ih, numbers, List.append_assoc]
    rfl

lemma number?_some (h : p.number? e = some (c, n)) :
    ∃ op, e = .turn c ∧ p.calls.get? c = some { op } ∧ op.isNumbered ∧ n = p.nextId := by
  rw [number?.eq_def] at h
  split at h
  · split at h
    · split at h
      · cases h
        exact ⟨_, rfl, ‹_›, ‹_›, rfl⟩
      · cases h
    · cases h
  · cases h

lemma draw_numbered (p : Provider) (h : op.isNumbered) :
    ∃ x, p.draw op = some (x, (p.nextId + 1) % RequestId.limit) ∧ x.id = .number p.nextId := by
  cases op <;> first | exact ⟨_, rfl, rfl⟩ | cases h

lemma Operation.Makes.number (h : op.Makes x) (ho : op.isNumbered) : ∃ n, x.id = .number n := by
  obtain ⟨o, n, hd⟩ := h
  obtain ⟨y, hy, hid⟩ := draw_numbered o ho
  cases hd.symm.trans hy
  exact ⟨_, hid⟩

lemma draw_unnumbered (hd : p.draw op = some (x, n)) (h : op.isNumbered = false) :
    op = .send x ∧ n = p.nextId := by
  cases op <;> first | cases h; done | cases hd; exact ⟨rfl, rfl⟩ | cases hd

def Asked (M : List Note) (c : CallId) (x : Request) : Prop :=
  (∃ t, .claimed c x t ∈ M) ∨ ∃ r, .settled c x r ∈ M

lemma asked_append : Asked (M ++ ns) c x ↔ Asked M c x ∨ Asked ns c x := by
  simp only [Asked, List.mem_append, exists_or]
  exact or_or_or_comm

lemma not_asked_tacit (h : ∀ y ∈ ns, y.tacit) : ¬ Asked ns c x := by
  rintro (⟨t, hm⟩ | ⟨r, hm⟩) <;> cases h _ hm

structure Numbered (F : Failure → Prop) (N : List (CallId × Nat)) (p : Provider) : Prop where
  next : p.nextId = (N.length + 1) % RequestId.limit
  taken : N.map Prod.snd = (List.range N.length).map fun i => (i + 1) % RequestId.limit
  once : (N.map Prod.fst).Nodup
  fresh : ∀ c, p.Fresh c → (∀ n, (c, n) ∉ N) ∧ ∀ x, ¬ Asked p.notes c x
  own : ∀ c x, Asked p.notes c x → ∀ n, x.id = .number n ↔ (c, n) ∈ N
  accepted : ∀ c x n id, .settled c x (.error (.duplicateRequestId id)) ∈ p.notes → x.id = .number n →
    F (.duplicateRequestId id)

lemma numbered_new (endpoint : Endpoint) (config : Config) : Numbered F [] (new endpoint config) where
  next := rfl
  taken := rfl
  once := List.nodup_nil
  fresh c _ := ⟨by simp, by rintro x (⟨t, h⟩ | ⟨r, h⟩) <;> cases h⟩
  own c x h := by rcases h with ⟨t, h⟩ | ⟨r, h⟩ <;> cases h
  accepted c x n id h := by cases h

lemma place_of_number {i j : Nat} (hi : i < RequestId.limit) (hj : j < RequestId.limit)
    (h : (i + 1) % RequestId.limit = (j + 1) % RequestId.limit) : i = j :=
  Nat.ModEq.eq_of_lt_of_lt (Nat.ModEq.add_right_cancel' 1 h) hi hj

lemma Numbered.distinct (h : Numbered F N p) (hN : N.length ≤ RequestId.limit) : (N.map Prod.snd).Nodup := by
  rw [h.taken]
  refine List.Nodup.map_on (fun i hi j hj hij => ?_) List.nodup_range
  have small : ∀ {i}, i ∈ List.range N.length → i < RequestId.limit := fun hi =>
    Nat.lt_of_lt_of_le (List.mem_range.mp hi) hN
  exact place_of_number (small hi) (small hj) hij

lemma Numbered.free (h : Numbered F N p) (hN : N.length < RequestId.limit) (c : CallId) : (c, p.nextId) ∉ N := by
  intro hm
  have hs : p.nextId ∈ N.map Prod.snd := List.mem_map.mpr ⟨_, hm, rfl⟩
  rw [h.taken, h.next] at hs
  obtain ⟨i, hi, he⟩ := List.mem_map.mp hs
  have hi := List.mem_range.mp hi
  exact Nat.ne_of_lt hi (place_of_number (Nat.lt_trans hi hN) hN he)

lemma Numbered.caller (h : Numbered F N p) (hN : N.length ≤ RequestId.limit) (hb : (b, n) ∈ N)
    (hc : (c, n) ∈ N) : b = c :=
  congrArg Prod.fst (List.inj_on_of_nodup_map (h.distinct hN) hb hc rfl)

lemma Numbered.grow (h : Numbered F N p) (hn : q.notes = p.notes ++ ns) (hi : q.nextId = p.nextId)
    (hf : ∀ c, q.Fresh c → p.Fresh c)
    (hs : ∀ c x, Asked ns c x → ¬ q.Fresh c ∧ ∀ n, x.id = .number n ↔ (c, n) ∈ N)
    (ha : ∀ c x n id, .settled c x (.error (.duplicateRequestId id)) ∈ ns → x.id = .number n →
      F (.duplicateRequestId id)) : Numbered F N q where
  next := hi.trans h.next
  taken := h.taken
  once := h.once
  fresh c hc := by
    obtain ⟨hN, hp⟩ := h.fresh c (hf c hc)
    refine ⟨hN, fun x hx => ?_⟩
    rw [hn, asked_append] at hx
    exact hx.elim (hp x) fun hx => (hs c x hx).1 hc
  own c x hx := by
    rw [hn, asked_append] at hx
    exact hx.elim (h.own c x) fun hx => (hs c x hx).2
  accepted c x n id hm := by
    rw [hn] at hm
    exact (List.mem_append.mp hm).elim (h.accepted c x n id) (ha c x n id)

lemma Numbered.tacit (h : Numbered F N p) (hn : ∃ ns, q.notes = p.notes ++ ns ∧ ∀ y ∈ ns, y.tacit)
    (hi : q.nextId = p.nextId) (hf : ∀ c, q.Fresh c → p.Fresh c) : Numbered F N q := by
  obtain ⟨ns, hn, ht⟩ := hn
  refine h.grow hn hi hf (fun c x hx => absurd hx (not_asked_tacit ht)) fun c x n id hm => ?_
  cases ht _ hm

lemma Numbered.take (h : Numbered F N p) {t : Ticket} (hn : q.notes = p.notes ++ [.claimed c x t])
    (hx : x.id = .number p.nextId) (hi : q.nextId = (p.nextId + 1) % RequestId.limit) (hp : p.Fresh c)
    (hf : ∀ c, q.Fresh c → p.Fresh c) (hq : ¬ q.Fresh c) : Numbered F (N ++ [(c, p.nextId)]) q where
  next := by
    rw [hi, h.next, List.length_append, List.length_singleton, Nat.mod_add_mod]
  taken := by
    rw [List.map_append, h.taken, List.length_append, List.length_singleton, List.range_succ, List.map_append,
      List.map_singleton, List.map_singleton, h.next]
  once := by
    rw [List.map_append, List.map_singleton]
    refine List.Nodup.append h.once (List.nodup_singleton _) fun b hb hc => ?_
    obtain ⟨⟨b, n⟩, hm, rfl⟩ := List.mem_map.mp hb
    obtain rfl : b = c := List.mem_singleton.mp hc
    exact (h.fresh b hp).1 n hm
  fresh b hb := by
    have hbc : b ≠ c := fun hbc => hq (hbc ▸ hb)
    obtain ⟨hN, hp⟩ := h.fresh b (hf b hb)
    refine ⟨fun n hm => ?_, fun y hy => ?_⟩
    · rcases List.mem_append.mp hm with hm | hm
      · exact hN n hm
      · cases List.mem_singleton.mp hm
        exact hbc rfl
    · rw [hn, asked_append] at hy
      refine hy.elim (hp y) ?_
      rintro (⟨u, hm⟩ | ⟨r, hm⟩) <;> cases List.mem_singleton.mp hm
      exact hbc rfl
  own b y hy n := by
    rw [List.mem_append, List.mem_singleton]
    rw [hn, asked_append] at hy
    rcases hy with hy | hy
    · have hbc : b ≠ c := fun hbc => (h.fresh c hp).2 y (hbc ▸ hy)
      simp [h.own b y hy n, hbc]
    · rcases hy with ⟨u, hm⟩ | ⟨r, hm⟩ <;> cases List.mem_singleton.mp hm
      simp [hx, (h.fresh c hp).1 n, eq_comm]
  accepted b y n id hm := by
    rw [hn, List.mem_append] at hm
    exact hm.elim (h.accepted b y n id) fun hm => by cases List.mem_singleton.mp hm

lemma not_fresh_of_phase (hl : Ledger p) (hp : p.phaseOf c = some ph) (hs : ph ≠ .start) : ¬ p.Fresh c := by
  rintro (hk | hk)
  · exact absurd (hl.known c (isSome_of_phase hp)) (Nat.not_lt.mpr hk)
  · exact hs (Option.some.inj (hp.symm.trans hk))

lemma asked_of_dispatch (hl : Ledger p) (hd : p.dispatch? c = some d) : Asked p.notes c d.request := by
  obtain ⟨i, hi, -⟩ := hl.course c d hd
  exact Or.inl ⟨_, List.mem_of_getElem? hi⟩

lemma Numbered.holder (h : Numbered F N p) (hl : Ledger p) {t : Ticket} (hid : id = .number n)
    (ht : p.correlator.waiting.get? id.key = some t) : ∃ i b y, Claimed p.notes i b y t ∧ (b, n) ∈ N := by
  obtain ⟨⟨i, b, y, hi, hy⟩, -⟩ := hl.waits _ t ht
  refine ⟨i, b, y, hi, (h.own b y (Or.inl ⟨t, List.mem_of_getElem? hi⟩) n).mp ?_⟩
  rw [RequestId.key_injective hy, hid]

lemma closedFailure_ne (k : Correlator) (id : RequestId) : k.closedFailure ≠ .duplicateRequestId id := by
  rw [Correlator.closedFailure]
  split <;> simp

lemma report_refused {cause : ResetCause} (h : cause.report f = .duplicateRequestId id) :
    f = .duplicateRequestId id := by
  cases cause with
  | peerClosed => exact h
  | brokenPipe first broken =>
    cases (show first = _ from h)
    cases broken

lemma givesUp_refused (h : p.GivesUp F c d f) (hf : f = .duplicateRequestId id) : F f := by
  cases h with
  | unconnected => cases hf
  | ended => exact absurd hf (closedFailure_ne _ _)
  | unopened _ h =>
    rw [hf, ← report_refused hf]
    exact h
  | unheard => exact absurd (report_refused hf) (closedFailure_ne _ _)
  | unwritten _ h =>
    refine h.resolve_right ?_
    rintro rfl
    cases hf

lemma Numbered.refused (h : Numbered F N p) (hl : Ledger p) (hN : N.length ≤ RequestId.limit)
    (hd : p.dispatch? c = some d) (hn : d.request.id = .number n) {r : Except Failure Response}
    (ho : p.Resolves F c d r) (hr : r = .error (.duplicateRequestId id)) : F (.duplicateRequestId id) := by
  cases ho with
  | answered => cases hr
  | givenUp hg =>
    cases hr
    exact givesUp_refused hg rfl
  | refused hm hreg =>
    -- the claim under the number would be one of the call itself, and these are closed
    obtain ⟨hw, -, -⟩ := Correlator.register_error (Prod.ext hreg rfl)
    obtain ⟨t, ht⟩ := Option.isSome_iff_exists.mp hw
    obtain ⟨i, b, y, hi, hb⟩ := h.holder hl hn ht
    obtain rfl := h.caller hN hb ((h.own c _ (asked_of_dispatch hl hd) n).mp hn)
    exact absurd ht ((hl.reclaimed hd hm hi).2.2 _)
  | closed => exact absurd (Except.error.inj hr) (closedFailure_ne _ _)
  | late => cases hr

lemma Numbered.calm (h : Numbered F N p) (hl : Ledger p) (hN : N.length ≤ RequestId.limit)
    (hs : ∀ c x n, a = some c → p.Draws c x n → n = p.nextId ∧ ∀ m, x.id ≠ .number m) (hm : Calm F p a q) :
    Numbered F N q := by
  obtain ⟨ms, f⟩ := entries_frame (calm_entries hm)
  have carried : ∀ {c d}, p.dispatch? c = some d →
      ¬ q.Fresh c ∧ ∀ n, d.request.id = .number n ↔ (c, n) ∈ N := fun hd =>
    ⟨fun hq => not_fresh hl.known hd (f.fresh _ hq), h.own _ _ (asked_of_dispatch hl hd)⟩
  have drawn : ∀ {c} {x : Request} {ph}, p.phaseOf c = some .start → (∀ m, x.id ≠ .number m) →
      q.phaseOf c = some ph → ph ≠ .start →
      ¬ q.Fresh c ∧ ∀ n, x.id = .number n ↔ (c, n) ∈ N := fun hp hx hq hs =>
    ⟨not_fresh_of_phase (hl.calm hm) hq hs, fun n => iff_of_false (hx n) ((h.fresh _ (Or.inr hp)).1 n)⟩
  cases calm_handles hl hm with
  | stay hs => exact h.tacit hs.notes hs.nextId f.fresh
  | refuse hp hn _ hq hx =>
    obtain ⟨hi, hid⟩ := hs _ _ _ rfl hx
    obtain ⟨z, hz⟩ := hq
    refine h.grow hn hi f.fresh (fun b y hy => ?_) fun b y n id hm hy => ?_
    · rcases hy with ⟨t, hm⟩ | ⟨r, hm⟩ <;> cases List.mem_singleton.mp hm
      exact drawn hp hid hz (by simp)
    · cases List.mem_singleton.mp hm
      exact absurd hy (hid n)
  | claim hp _ hn hd hx =>
    obtain ⟨hi, hid⟩ := hs _ _ _ rfl hx
    obtain ⟨ph, hph, hd⟩ := Option.bind_eq_some_iff.mp hd
    refine h.grow hn hi f.fresh (fun b y hy => ?_) fun b y n id hm _ => by cases List.mem_singleton.mp hm
    rcases hy with ⟨t, hm⟩ | ⟨r, hm⟩ <;> cases List.mem_singleton.mp hm
    refine drawn hp hid hph ?_
    rintro rfl
    cases hd
  | reclaim hp _ _ _ hn _ hi =>
    refine h.grow hn hi f.fresh (fun b y hy => ?_) fun b y n id hm _ => by cases List.mem_singleton.mp hm
    rcases hy with ⟨t, hm⟩ | ⟨r, hm⟩ <;> cases List.mem_singleton.mp hm
    exact carried hp
  | settle hp hn ht _ _ _ ho hi =>
    rw [List.append_assoc] at hn
    refine h.grow hn hi f.fresh (fun b y hy => ?_) fun b y n id hm hy => ?_
    · rcases (asked_append.mp hy).resolve_left (not_asked_tacit ht) with ⟨t, hm⟩ | ⟨r, hm⟩ <;>
        cases List.mem_singleton.mp hm
      exact carried hp
    · rcases List.mem_append.mp hm with hm | hm
      · cases ht _ hm
      · cases List.mem_singleton.mp hm
        exact h.refused hl hN hp hy ho rfl
  | desert _ _ hn _ hi => exact h.tacit hn hi f.fresh

def Unnumbered (p : Provider) (c : CallId) : Prop :=
  c < p.nextCall ∧ ∀ op, p.calls.get? c = some { op } →
    op.isNumbered = false ∧ ∀ x n, op = .send x → x.id ≠ .number n

lemma Unnumbered.frame (h : Unnumbered p c) (hl : Ledger p) (f : Frame a p q ns) : Unnumbered q c :=
  ⟨Nat.lt_of_lt_of_le h.1 f.nextCall, fun op hc => h.2 op (f.call_of_start hl h.1 hc)⟩

lemma Unnumbered.draws (h : Unnumbered p c) (hx : p.Draws c x n) : n = p.nextId ∧ ∀ m, x.id ≠ .number m := by
  obtain ⟨op, hc, hd⟩ := hx
  obtain ⟨ho, hs⟩ := h.2 op hc
  obtain ⟨rfl, rfl⟩ := draw_unnumbered hd ho
  exact ⟨rfl, fun m => hs x m rfl⟩

lemma Numbered.calms (h : Numbered F N p) (hl : Ledger p) (hN : N.length ≤ RequestId.limit)
    (hu : ∀ c, a = some c → Unnumbered p c) (hm : Calms F a p q) : Numbered F N q := by
  have hq : Ledger q ∧ Numbered F N q ∧ ∀ c, a = some c → Unnumbered q c :=
    chain_preserves (I := fun q => Ledger q ∧ Numbered F N q ∧ ∀ c, a = some c → Unnumbered q c)
      (fun _ _ ⟨hl, h, hu⟩ hm => by
        obtain ⟨ns, f⟩ := entries_frame (calm_entries hm)
        refine ⟨hl.calm hm, h.calm hl hN (fun c x n hc hx => (hu c hc).draws hx) hm, fun c hc => ?_⟩
        exact (hu c hc).frame hl f)
      ⟨hl, h, hu⟩ hm
  exact hq.2.1

lemma Numbered.turn (h : Numbered F N p) (hl : Ledger p) (hN : N.length < RequestId.limit)
    (hc : p.calls.get? c = some { op }) (ho : op.isNumbered) : Numbered F (N ++ [(c, p.nextId)]) (p.turn c) := by
  obtain ⟨x, hd, hx⟩ := draw_numbered p ho
  have hp : p.phaseOf c = some .start := phaseOf_of_call hc
  rw [turn_start hc, begin_drawn hd, beginSend]
  rcases hr : p.correlator.register x.id with ⟨f | t, k⟩
  -- whoever waited under the number would have taken it
  · obtain ⟨hw, -, -⟩ := Correlator.register_error hr
    obtain ⟨t, ht⟩ := Option.isSome_iff_exists.mp hw
    obtain ⟨i, b, y, -, hb⟩ := h.holder hl hx ht
    exact absurd hb (h.free hN b)
  · let o := { p with nextId := (p.nextId + 1) % RequestId.limit, correlator := k }.note (.claimed c x t)
    have hm : Calm F p (some c) (o.askLock c (.send ⟨x, t⟩)) := .claim hc hd hr
    obtain ⟨ns, f⟩ := entries_frame (calm_entries hm)
    have hl' := hl.calm hm
    have hq : (o.askLock c (.send ⟨x, t⟩)).phaseOf c = some (.locking (.send ⟨x, t⟩)) :=
      phaseOf_setPhase_self (p := { o with lock := o.lock.ask c }) hp
    have taken := h.take (q := o.askLock c (.send ⟨x, t⟩)) rfl hx rfl (Or.inr hp) f.fresh
      (not_fresh_of_phase hl' hq (by simp))
    refine taken.calms (a := some c) hl' (by simpa [Nat.succ_le_iff] using hN) ?_ (calms_run (p := o) hp)
    rintro b ⟨⟩
    refine ⟨Nat.lt_of_lt_of_le (hl.known c (Option.isSome_of_mem hc)) f.nextCall, fun op hop => ?_⟩
    cases hq.symm.trans (phaseOf_of_call hop)

lemma Numbered.step (h : Numbered F N p) (hl : Ledger p)
    (hs : ∀ c x ph, p.calls.get? c = some { op := .send x, phase := ph } → ∀ n, x.id ≠ .number n)
    (hN : (N ++ (p.number? e).toList).length ≤ RequestId.limit) (hf : ∀ f, e.failure? = some f → F f) :
    Numbered F (N ++ (p.number? e).toList) (p.step e) := by
  cases hx : p.number? e with
  | some x =>
    obtain ⟨op, rfl, hc, ho, hn⟩ := number?_some hx
    rw [hx] at hN
    obtain ⟨c, n⟩ := x
    cases hn
    exact h.turn hl (by simpa [Nat.succ_le_iff] using hN) hc ho
  | none =>
    rw [hx] at hN
    simp only [Option.toList_none, List.append_nil] at hN ⊢
    have moves : (∀ c, p.subject e = some c → Unnumbered p c) → Numbered F N (p.step e) := fun hu => by
      obtain ⟨m, hm, he⟩ := step_moves p e hf
      have hnm := h.calms hl hN hu hm
      rcases he with he | ⟨-, hup, -⟩
      · exact he ▸ hnm
      · obtain ⟨b, ns, -, f⟩ := upheaval_frame hup
        have hs := (upheaval_stays hup).1
        exact hnm.tacit hs.notes hs.nextId f.fresh
    by_cases hnew : ∃ op, e = .call op
    · obtain ⟨op, rfl⟩ := hnew
      obtain ⟨ns, f⟩ := entries_frame (calm_entries (.call (F := F) (p := p) op))
      exact h.tacit ⟨[], (List.append_nil _).symm, nofun⟩ rfl f.fresh
    cases hsub : p.subject e with
    | none => exact moves fun c hc => by cases hsub.symm.trans hc
    | some c =>
      obtain hq | ⟨op, ph, hc, hh⟩ := step_heeded hl hsub fun op he => hnew ⟨op, he⟩
      · rwa [hq]
      -- a call that is dropped need not have begun
      by_cases hdrop : e = .drop c
      · subst hdrop
        have hp : p.phaseOf c = some ph := phaseOf_of_call hc
        obtain ⟨ns, f⟩ := entries_frame (calm_entries (.drop (F := F) hp))
        exact h.tacit (notes_drop hp) (nextId_drop p c) f.fresh
      · refine moves fun b hb => ?_
        cases hsub.symm.trans hb
        refine ⟨hl.known c (Option.isSome_of_mem hc), fun op' hc' => ?_⟩
        cases hc.symm.trans hc'
        refine ⟨?_, fun x n ho => hs c x .start (ho ▸ hc') n⟩
        cases e with
        | turn b =>
          cases hsub
          simpa [number?, hc'] using hx
        | drop b =>
          cases hsub
          exact absurd rfl hdrop
        | _ => cases hh

lemma op_of_step (hl : Ledger p) (hq : (p.step e).calls.get? c = some { op, phase := ph }) :
    e = .call op ∨ ∃ ph', p.calls.get? c = some { op, phase := ph' } := by
  by_cases hs : p.subject e = some c
  · by_cases hnew : ∃ op, e = .call op
    · obtain ⟨op', rfl⟩ := hnew
      cases hs
      cases (get?_newCall p op').symm.trans hq
      exact Or.inl rfl
    · right
      have hc : (p.calls.get? c).isSome := by
        by_contra hc
        have hc := Option.not_isSome_iff_eq_none.mp hc
        rw [step_unknown hs (fun op he => hnew ⟨op, he⟩) hc, hc] at hq
        cases hq
      obtain ⟨m, hm, he⟩ := step_moves (F := fun _ => True) p e fun _ _ => trivial
      obtain ⟨ns, f⟩ := entries_frame (calms_entries hm)
      have ho : (m.calls.get? c).map Call.op = some op := by
        rcases he with he | ⟨-, hu, -⟩
        · rw [← he, hq]
          rfl
        · obtain ⟨b, ms, -, g⟩ := upheaval_frame hu
          have hk : c < m.nextCall := Nat.lt_of_lt_of_le (hl.known c hc) f.nextCall
          exact (g.op c).resolve_left (Nat.not_le.mpr hk) op (by rw [hq]; rfl)
      obtain ⟨call, hcall⟩ := Option.isSome_iff_exists.mp hc
      exact ⟨call.phase, f.call_was hl ho (phaseOf_of_call hcall)⟩
  · rw [calls_other p hs] at hq
    exact Or.inr ⟨ph, hq⟩

lemma called_of_steps {endpoint : Endpoint} {config : Config}
    (hc : ((new endpoint config).steps es).calls.get? c = some { op, phase := ph }) : .call op ∈ es := by
  induction es using List.reverseRecOn generalizing ph with
  | nil => cases hc
  | append_singleton es e ih =>
    rw [steps_snoc] at hc
    rcases op_of_step ((orderly_new endpoint config).steps es).ledger hc with rfl | ⟨ph', hc⟩
    · exact List.mem_append_right _ (List.mem_singleton_self _)
    · exact List.mem_append_left _ (ih hc)

lemma numbered_steps {endpoint : Endpoint} {config : Config}
    (hs : ∀ x n, .call (.send x) ∈ es → x.id ≠ .number n)
    (hN : ((new endpoint config).numbers es).length ≤ RequestId.limit)
    (hf : ∀ e ∈ es, ∀ f, e.failure? = some f → F f) :
    Numbered F ((new endpoint config).numbers es) ((new endpoint config).steps es) := by
  induction es using List.reverseRecOn with
  | nil => exact numbered_new endpoint config
  | append_singleton es e ih =>
    rw [numbers_snoc] at hN ⊢
    rw [steps_snoc]
    have hl := ((orderly_new endpoint config).steps es).ledger
    obtain ⟨hes, he⟩ := List.forall_mem_append.mp hf
    have hN' : ((new endpoint config).numbers es).length ≤ RequestId.limit :=
      Nat.le_trans (by simp) hN
    have h := ih (fun x n hm => hs x n (List.mem_append_left _ hm)) hN' hes
    refine h.step hl (fun c x ph hc n => ?_) hN (he e (List.mem_singleton_self e))
    exact hs x n (List.mem_append_left _ (called_of_steps hc))

lemma probeFailure_refused (p : Provider) {verbose : Bool}
    (h : p.probeFailure verbose f = .error (.duplicateRequestId id)) : f = .duplicateRequestId id := by
  rw [probeFailure] at h
  split at h
  · split at h <;> cases h
  · exact Except.error.inj h

lemma resultOf_refused (form : ResultForm) (y : Response) : resultOf form y ≠ .error (.duplicateRequestId id) := by
  have read : ∀ r : Except Json.Mismatch Reply,
      r.mapError (fun m => Failure.deserialization (.mismatch m)) ≠ .error (.duplicateRequestId id) := by
    rintro (m | z) h <;> cases h
  rw [resultOf]
  cases y.outcome with
  | error e => nofun
  | ok v => exact read _

lemma bind_refused {form : ResultForm} {r : Except Failure Response}
    (h : r.bind (resultOf form) = .error (.duplicateRequestId id)) : r = .error (.duplicateRequestId id) := by
  cases r with
  | error f => exact congrArg Except.error (Except.error.inj h)
  | ok y => exact absurd h (resultOf_refused form y)

lemma answer_refused {r : Except Failure Response}
    (h : (p.answer c r).phaseOf c = some (.done (.error (.duplicateRequestId id)))) :
    r = .error (.duplicateRequestId id) := by
  have reported : ∀ {m : Provider} {z}, (m.finish c z).phaseOf c = some (.done (.error (.duplicateRequestId id))) →
      z = .error (.duplicateRequestId id) := fun h => (Phase.done.inj (eq_of_setPhase h)).symm
  rw [answer] at h
  split at h
  · exact bind_refused (reported h)
  · split at h
    · cases reported h
    · exact congrArg Except.error (probeFailure_refused p (reported h))
  · split at h
    · cases reported h
    · exact bind_refused (reported h)
  · split at h
    · rename_i hr
      cases reported h
    · rename_i hr
      exact bind_refused (hr.trans (reported h))
  · have hz := reported h
    cases r with
    | error f => exact congrArg Except.error (Except.error.inj hz)
    | ok y => cases hz

/-- In every run in which callers number no requests themselves, and of fewer requests that the provider numbers
than there are numbers, every call takes a number of its own, and has no other request. Such a call is never told
that its identifier is in use, even if it claims the response again; sockets do not say so. -/
theorem numbers_distinct {endpoint : Endpoint} {config : Config} {es : List Event}
    (hs : ∀ x n, .call (.send x) ∈ es → x.id ≠ .number n)
    (hN : ((new endpoint config).numbers es).length < RequestId.limit) :
    let p := (new endpoint config).steps es
    let N := (new endpoint config).numbers es
    (N.map Prod.fst).Nodup ∧ (N.map Prod.snd).Nodup ∧
    (∀ c x, Asked p.notes c x → ∀ n, x.id = .number n ↔ (c, n) ∈ N) ∧
    (∀ c op ph, p.calls.get? c = some { op, phase := ph } → op.isNumbered → ph ≠ .start → ∃ n, (c, n) ∈ N) ∧
    ∀ c op id, p.calls.get? c = some { op, phase := .done (.error (.duplicateRequestId id)) } → op.isNumbered →
      ∃ e ∈ es, e.failure? = some (.duplicateRequestId id) := by
  intro p N
  have hN := Nat.le_of_lt hN
  have h : Numbered (fun f => ∃ e ∈ es, e.failure? = some f) N p :=
    numbered_steps hs hN fun e he f hf => ⟨e, he, hf⟩
  have hl : Ledger p := ((orderly_new endpoint config).steps es).ledger
  have pursues : ∀ {c op ph}, p.calls.get? c = some { op, phase := ph } → op.isNumbered →
      Pursues p.notes c op ph := fun hc ho => by
    obtain ⟨x, hx, -⟩ := draw_numbered p ho
    exact pursued_steps endpoint config es _ _ _ x hc ⟨p, _, hx⟩
  refine ⟨h.once, h.distinct hN, h.own, fun c op ph hc ho hs => ?_, fun c op id hc ho => ?_⟩
  · cases pursues hc ho with
    | start => exact absurd rfl hs
    | inHand hd hx =>
      obtain ⟨n, hn⟩ := hx.number ho
      have hd := asked_of_dispatch hl (dispatch?_of_phase (phaseOf_of_call hc) hd)
      exact ⟨n, (h.own c _ hd n).mp hn⟩
    | ended hm hx =>
      obtain ⟨n, hn⟩ := hx.number ho
      exact ⟨n, (h.own c _ (Or.inr ⟨_, hm⟩) n).mp hn⟩
  · cases pursues hc ho with
    | inHand hd => cases hd
    | ended hm hx _ hz =>
      obtain ⟨n, hn⟩ := hx.number ho
      cases answer_refused hz
      exact h.accepted c _ n id hm hn

def renumbered : List Event :=
  [.call .connect, .turn 0, .opened 0 (.ok ()), .listen 0, .listen 0,
    .call (.request "a" []), .turn 1, .call (.call .value "b" []), .turn 2,
    .call (.send { method := "c", params := [], id := .text "1" }), .turn 3,
    .sink 1 (.failure (.io ⟨.brokenPipe, none⟩)), .closed 1, .arrive 0 (.ok none), .opened 1 (.ok ()),
    .listen 0, .listen 0, .sink 1 (.accept 1000), .sink 1 .flushed]

theorem numbers_distinct_renumbered :
    let x : Request := { method := "a", params := [], id := .number 1 }
    let p := (new here {}).steps renumbered
    let N := (new here {}).numbers renumbered
    (∀ y n, .call (.send y) ∈ renumbered → y.id ≠ .number n) ∧ N.length < RequestId.limit ∧
      N = [(1, 1), (2, 2)] ∧ Claimed p.notes 3 1 x 0 ∧ Claimed p.notes 15 1 x 3 ∧ (N.map Prod.snd).Nodup ∧
      (∀ n, x.id = .number n ↔ (1, n) ∈ N) ∧
      ∀ c op id, p.calls.get? c = some { op, phase := .done (.error (.duplicateRequestId id)) } → op.isNumbered →
        ∃ e ∈ renumbered, e.failure? = some (.duplicateRequestId id) := by
  intro x p N
  have hs : ∀ y n, .call (.send y) ∈ renumbered → y.id ≠ .number n := by
    simp only [renumbered, List.mem_cons, List.not_mem_nil, Event.call.injEq, reduceCtorEq, false_or, or_false,
      Operation.send.injEq]
    rintro y n rfl
    nofun
  have hn : N = [(1, 1), (2, 2)] := by decide +kernel
  have hN : N.length < RequestId.limit := by
    rw [hn]
    decide
  have hi : Claimed p.notes 3 1 x 0 := rfl
  obtain ⟨-, hnodup, hown, -, hrefused⟩ := numbers_distinct hs hN
  exact ⟨hs, hN, hn, hi, rfl, hnodup, hown 1 x (Or.inl ⟨0, List.mem_of_getElem? hi⟩), hrefused⟩

end SocketRpc.Provider
