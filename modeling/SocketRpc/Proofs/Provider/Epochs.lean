import SocketRpc.Proofs.Correlator.Clearances
import SocketRpc.Proofs.Provider.Drops

/-!
Connections one after the other. Where calls to connect and disconnect are let run to their end, each
connection is cleared before the next one is up, and those who ask then get nothing that came in before.
-/

namespace SocketRpc.Provider

variable {F : Failure → Prop} {a : Option CallId} {p q m : Provider} {c : CallId} {l : ListenerId}
  {ph : Phase} {e : Event} {ns : List Note} {s : SubscriptionId}

def Phase.connects : Phase → Bool
  | .locking .connect | .locking .disconnect | .closing _ _ | .joining _ _ | .opening _ | .pausing _ _ => true
  | _ => false

def connecting (p : Provider) (c : CallId) : Bool := ((p.phaseOf c).map Phase.connects).getD false

/-- No call is dropped inside of connect or disconnect. -/
def Completes (p : Provider) : List Event → Prop
  | [] => True
  | e :: es => (∀ c, e = .drop c → p.connecting c = false) ∧ (p.step e).Completes es

instance decidableCompletes : (p : Provider) → (es : List Event) → Decidable (p.Completes es)
  | _, [] => isTrue trivial
  | p, e :: es =>
    have := decidableCompletes (p.step e) es
    inferInstanceAs (Decidable ((∀ c, e = .drop c → p.connecting c = false) ∧ (p.step e).Completes es))

lemma Completes.append {es fs : List Event} :
    Completes p (es ++ fs) ↔ Completes p es ∧ Completes (p.steps es) fs := by
  induction es generalizing p with
  | nil => exact (and_iff_right trivial).symm
  | cons e es ih =>
    show _ ∧ Completes (p.step e) (es ++ fs) ↔ (_ ∧ _) ∧ _
    rw [ih, and_assoc]
    rfl

def Phase.parts : Phase → Option ListenerId
  | .closing conn _ => some conn.listener
  | .joining l _ => some l
  | _ => none

def Phase.parting (ph : Phase) : Bool := ph.parts.isSome

def Attached (p : Provider) (l : ListenerId) : Prop :=
  p.listening = some l ∨ ∃ c ph, p.phaseOf c = some ph ∧ ph.parts = some l

lemma attached_same (hc : q.calls = p.calls) (hs : q.slot = p.slot) : q.Attached l ↔ p.Attached l := by
  simp only [Attached, listening, phaseOf, hc, hs]

def Strands (a : Option CallId) (p q : Provider) : Prop :=
  ∃ c ph l, a = some c ∧ p.phaseOf c = some ph ∧ ph.parts = some l ∧ q.phaseOf c = none

structure Renewed (p : Provider) : Prop where
  attached : ∀ (i : Nat) l, p.notes[i]? = some (.spawned l) →
    (∃ j : Nat, i < j ∧ p.notes[j]? = some .cleared) ∨ p.Attached l
  cleared : ∀ (i n : Nat) l k, i < n → p.notes[i]? = some (.spawned l) →
    p.notes[n]? = some (.spawned k) → ∃ j : Nat, i < j ∧ j < n ∧ p.notes[j]? = some .cleared

lemma renewed_new (endpoint : Endpoint) (config : Config) : Renewed (new endpoint config) where
  attached i l h := by simp [new] at h
  cleared i n l k _ h := by simp [new] at h

lemma Phase.guarded_of_parts (h : ph.parts = some l) : ph.guarded := by
  cases ph <;> first | rfl | cases h

lemma Calm.of_parts (hm : Calm F p (some c) q) (hk : c < p.nextCall) (hp : p.phaseOf c = some ph)
    (hl : ph.parts = some l) :
    (∃ ph', q.phaseOf c = some ph' ∧ ph'.parts = some l) ∨ q.phaseOf c = none := by
  have other : ∀ {y}, p.phaseOf c = some y → y.parts ≠ none := fun hy hn => by
    cases hp.symm.trans hy
    rw [hl] at hn
    cases hn
  have new : ∀ {op}, p.calls.get? c ≠ some { op, phase := .start } := fun hs =>
    other (phaseOf_of_call hs) rfl
  cases hm with
  | call op => exact absurd hk (Nat.lt_irrefl _)
  | seek h | refuse h | claim h => exact absurd h new
  | collect => exact Or.inr (by simp [phaseOf])
  | drop h => exact Or.inr (by simp [phaseOf, calls_drop h])
  | read h =>
    rcases h with ⟨h, -⟩ | h
    · exact absurd h new
    · exact absurd rfl (other h)
  | leave h | yield h | attempt h | replace h | disconnect h | reset h | write h => exact absurd rfl (other h.1)
  | giveUp h =>
    cases h with
    | unconnected h | ended h => exact absurd rfl (other h.1)
    | unopened h | unheard h | unwritten h => exact absurd rfl (other h)
  | letGo h =>
    rename_i conn next
    cases hp.symm.trans h
    exact Or.inl ⟨.joining conn.listener next,
      phaseOf_setPhase_self (p := (p.letGo conn.listener).abortListener conn.listener) h, hl⟩
  | connect h | pause h | exhaust h | retry h | resetClosed h | resetOpened h | hand h | progress _ h
  | breakPipe h | written h | reclaim h | reclaimRefused h | receive h | closedOut h | timeOut h =>
    exact absurd rfl (other h)

def Idle (p : Provider) : Prop := ∀ c ph, p.phaseOf c = some ph → ph.guarded = false

lemma Guarded.idle (h : Guarded p) (hl : p.lock.holder = none) : p.Idle := fun c ph hp =>
  Bool.eq_false_iff.mpr fun hg => nomatch hl.symm.trans (h.holds c ph hp hg)

lemma Idle.vacant (h : p.Idle) (hs : p.slot = none) (l : ListenerId) : ¬ p.Attached l := by
  rintro (hn | ⟨c, ph, hp, hn⟩)
  · rw [listening, hs] at hn
    cases hn
  · cases (h c ph hp).symm.trans (Phase.guarded_of_parts hn)

lemma Guarded.attached_of_live (h : Guarded p) {li : Listener} (hl : p.listeners.get? l = some li)
    (hv : li.Live) : p.Attached l := by
  rcases h.heard l li hl hv with hn | ⟨c, conn, next, hp, rfl⟩
  · exact Or.inl hn
  · exact Or.inr ⟨c, _, hp, rfl⟩

lemma Guarded.attached_of_reads (h : Guarded p) (hr : p.Reads l) : p.Attached l := by
  obtain ⟨li, hl, ha⟩ := hr
  exact h.attached_of_live hl ha.live

lemma Guarded.tearsDown (h : Guarded p) (hu : Upheaval p q) (hv : ∀ l, ¬ q.Attached l) : ∃ c, p.TearsDown c q := by
  cases hu with
  | tear hp hf => exact ⟨_, _, _, hp, hf, rfl⟩
  | orphan hr => exact absurd ((attached_same rfl rfl).mpr (h.attached_of_reads hr)) (hv _)
  | fail hr hs f =>
    simp only [fault, hs] at hv
    exact absurd ((attached_same rfl rfl).mpr (h.attached_of_reads hr)) (hv _)

lemma Guarded.detached (h : Guarded p) {t : Backoff.Progress} (hp : p.phaseOf c = some (.opening t)) :
    ¬ p.Attached l := by
  rintro (hl | ⟨b, ph, hb, hl⟩)
  · rw [h.empty c _ hp rfl] at hl
    cases hl
  · cases h.alone (h.holds c _ hp rfl) hb (Phase.guarded_of_parts hl)
    cases hp.symm.trans hb
    cases hl

lemma attached_calm (ho : Orderly p) (hm : Calm F p a q) (hl : p.Attached l) :
    q.Attached l ∨ Strands a p q := by
  rcases hl with hl | ⟨b, ph, hb, hp⟩
  · left
    cases calm_passage ho.suited hm with
    | rest hr => exact Or.inl (hr.listening.trans hl)
    | takeOut ha hs hr hq =>
      refine Or.inr ⟨_, _, hq, ?_⟩
      rwa [listening, hs] at hl
    | connect ha hp hr => exact absurd (Or.inl hl) (ho.guarded.detached hp)
    | deposit ha hr w =>
      obtain ⟨ns, he⟩ := p.leave_eq _ w
      rw [he]
      exact Or.inl hl
    | read => exact Or.inl hl
  · by_cases ha : a = some b
    · subst ha
      obtain ⟨op, hc⟩ := call_of_phase hb
      rcases hm.of_parts (ho.ledger.known b (by rw [hc]; rfl)) hb hp with hq | hq
      · exact Or.inl (Or.inr ⟨b, hq⟩)
      · exact Or.inr ⟨b, ph, l, rfl, hb, hp, hq⟩
    · obtain ⟨ns, f⟩ := entries_frame (calm_entries hm)
      exact Or.inl (Or.inr ⟨b, ph, (f.phaseOf ha).trans hb, hp⟩)

lemma Renewed.extend (h : Renewed p) (hn : q.notes = p.notes ++ ns)
    (old : ∀ (i : Nat) l, q.notes[i]? = some (.spawned l) → p.notes[i]? = some (.spawned l))
    (ha : ∀ (i : Nat) l, p.notes[i]? = some (.spawned l) → p.Attached l →
      (∃ j : Nat, i < j ∧ q.notes[j]? = some .cleared) ∨ q.Attached l) : Renewed q where
  attached i l hi := by
    rcases h.attached i l (old i l hi) with ⟨j, hij, hj⟩ | hl
    · exact Or.inl ⟨j, hij, hn ▸ place_append hj⟩
    · exact ha i l (old i l hi) hl
  cleared i n l k hlt hi hk := by
    obtain ⟨j, hij, hjn, hj⟩ := h.cleared i n l k hlt (old i l hi) (old n k hk)
    exact ⟨j, hij, hjn, hn ▸ place_append hj⟩

lemma Renewed.spawn (h : Renewed p) (hl : ∀ l, ¬ p.Attached l) (s : SocketId) : Renewed (p.spawn s) where
  attached i l hi := by
    rcases place_of_note hi with hi | ⟨-, he⟩
    · obtain ⟨j, hij, hj⟩ := (h.attached i l hi).resolve_right (hl l)
      exact Or.inl ⟨j, hij, place_append hj⟩
    · cases he
      exact Or.inr (Or.inl rfl)
  cleared i n l k hlt hi hk := by
    have hi : p.notes[i]? = some (.spawned l) := by
      rcases place_of_note hi with hi | ⟨rfl, -⟩
      · exact hi
      · exact absurd hlt (Nat.not_lt.mpr (le_of_note hk))
    rcases place_of_note hk with hk | ⟨rfl, -⟩
    · obtain ⟨j, hij, hjn, hj⟩ := h.cleared i n l k hlt hi hk
      exact ⟨j, hij, hjn, place_append hj⟩
    · obtain ⟨j, hij, hj⟩ := (h.attached i l hi).resolve_right (hl l)
      exact ⟨j, hij, place_lt hj, place_append hj⟩

theorem Renewed.calm (h : Renewed p) (ho : Orderly p) (hm : Calm F p a q) : Renewed q ∨ Strands a p q := by
  by_cases hs : Strands a p q
  · exact Or.inr hs
  left
  have stays : ∀ (i : Nat) l, p.notes[i]? = some (.spawned l) → p.Attached l →
      (∃ j : Nat, i < j ∧ q.notes[j]? = some .cleared) ∨ q.Attached l :=
    fun i l _ hl => Or.inr ((attached_calm ho hm hl).resolve_right hs)
  have rest : Hushes p q → Renewed q := fun hh => by
    obtain ⟨ns, hn, -⟩ := hh.notes
    exact h.extend hn (fun i l => (hh.place rfl i).mp) stays
  cases calm_passage ho.suited hm with
  | rest hr => exact rest hr.toHushes
  | takeOut ha hs hr hq => exact rest ⟨hr.notes, hr.quietens, hr.nextListener⟩
  | connect ha hp hr =>
    rename_i c t s
    obtain ⟨ns, hn, -⟩ := hr.notes
    refine (h.spawn (fun l => ho.guarded.detached hp) s).extend hn (fun i l => (hr.place rfl i).mp) ?_
    rintro i l - (hl | hl)
    · exact Or.inr (Or.inl (hr.listening.trans hl))
    · exact absurd (Or.inr hl) (ho.guarded.detached (l := l) hp)
  | deposit ha hr w =>
    rename_i l
    have hh := p.hushes_leave l w
    obtain ⟨ns, hn, -⟩ := hh.notes
    refine h.extend (hn.trans (List.append_assoc _ _ _)) (fun i k hi => ?_) stays
    exact (place_note (by simp) i).mp ((hh.place rfl i).mp hi)
  | read => exact rest (hushes_same rfl rfl rfl)

lemma Renewed.upheaval (h : Renewed p) (hu : Upheaval p q) : Renewed q := by
  rcases upheaval_passage hu with ⟨hr, hc⟩ | ⟨-, hr⟩
  · obtain ⟨ns, hn, -⟩ := hr.notes
    refine h.extend hn (fun i l => (hr.place rfl i).mp) ?_
    rintro i l - (hl | ⟨b, ph, hb, hl⟩)
    · exact Or.inr (Or.inl (hr.listening.trans hl))
    · exact Or.inr (Or.inr ⟨b, ph, by rwa [phaseOf, hc], hl⟩)
  -- the clearance comes after all that have been set to work
  · have hm : Hushes p (p.dismissing Correlator.clear) :=
      ⟨p.notes_dismissing _, quietens_of_eq rfl, rfl⟩
    obtain ⟨ms, hms, -⟩ := hm.notes
    obtain ⟨ns, hn, -⟩ := hr.notes
    have hq : q.notes = p.notes ++ (ms ++ [.cleared] ++ ns) := by
      rw [hn, note, hms]
      simp only [List.append_assoc]
    have old : ∀ (i : Nat) l, q.notes[i]? = some (.spawned l) → p.notes[i]? = some (.spawned l) :=
      fun i l hi => (hm.place rfl i).mp ((place_note (by simp) i).mp ((hr.place rfl i).mp hi))
    refine h.extend hq old fun i l hi _ => Or.inl ⟨(p.dismissing Correlator.clear).notes.length, ?_, ?_⟩
    · exact place_lt ((hm.place rfl i).mpr hi)
    · rw [hn]
      exact place_append (last_of_note _ _)

lemma connects_of_parts (h : ph.parts = some l) : ph.connects := by
  cases ph <;> first | rfl | cases h

lemma Strands.severs_parting (h : Strands a p q) : Severs Phase.parting a p q := by
  obtain ⟨c, ph, l, ha, hp, hl, hq⟩ := h
  exact ⟨c, ph, ha, hp, by rw [Phase.parting, hl]; rfl, hq⟩

lemma Strands.severs (h : Strands a p q) : Severs Phase.connects a p q := by
  obtain ⟨c, ph, l, ha, hp, hl, hq⟩ := h
  exact ⟨c, ph, ha, hp, connects_of_parts hl, hq⟩

lemma Completes.spares {es : List Event} (h : p.Completes es) : p.Spares Phase.connects es := by
  induction es generalizing p with
  | nil => trivial
  | cons e es ih => exact ⟨h.1, ih h.2⟩

theorem Renewed.steps (h : Renewed p) (ho : Orderly p) {es : List Event} (hc : Completes p es) :
    Renewed (p.steps es) :=
  invariant_of_spared (fun _ _ _ ho h hm => (h.calm ho hm).imp_right Strands.severs)
    (fun _ _ _ h hu => h.upheaval hu) (fun _ => rfl) ho h hc.spares

def Pushed (N : List Note) (s : SubscriptionId) (k : Nat) (v : Json.Value) : Prop :=
  ∃ l w n, N[k]? = some (.deposited l w (.ok (.queued s))) ∧ Notification.ofValue w = .ok n ∧
    n.params.subscription = s ∧ n.params.result = v

lemma Pushed.append {N M : List Note} {k : Nat} {v : Json.Value} (h : Pushed N s k v) :
    Pushed (N ++ M) s k v := by
  obtain ⟨l, w, n, hk, hn⟩ := h
  exact ⟨l, w, n, place_append hk, hn⟩

structure Drawn (p : Provider) (source : CallId → Option Nat) : Prop where
  took : ∀ c s v, p.Took c s v → ∃ k, source c = some k ∧ Pushed p.notes s k v
  own : ∀ b c k, source b = some k → source c = some k → b = c
  ended : ∀ c k, source c = some k → (∃ s v, Pushed p.notes s k v) ∧ Over p c fun _ => True
  queue : ∀ s, ∃ ks : List Nat, ks.Nodup ∧ List.Forall₂ (Pushed p.notes s) ks (p.correlator.queue s) ∧
    ∀ k ∈ ks, (∀ j : Nat, p.notes[j]? = some .cleared → j < k) ∧ ∀ c, source c ≠ some k

structure Later (N : List Note) (source next : CallId → Option Nat) : Prop where
  keeps : ∀ c k, source c = some k → next c = some k
  adds : ∀ c k, next c = some k → source c = some k ∨ ∀ j : Nat, N[j]? = some .cleared → j < k

variable {source next last : CallId → Option Nat}

lemma drawn_new (endpoint : Endpoint) (config : Config) : Drawn (new endpoint config) fun _ => none where
  took c s v h := by cases h
  own b c k h := by cases h
  ended c k h := by cases h
  queue s := ⟨[], List.nodup_nil, .nil, nofun⟩

lemma Later.refl (N : List Note) (source : CallId → Option Nat) : Later N source source :=
  ⟨fun _ _ h => h, fun _ _ h => Or.inl h⟩

lemma Later.trans {N M : List Note} (h : Later N source next) (g : Later (N ++ M) next last) :
    Later N source last where
  keeps c k hc := g.keeps c k (h.keeps c k hc)
  adds c k hc := by
    rcases g.adds c k hc with hc | hj
    · exact h.adds c k hc
    · exact Or.inr fun j hn => hj j (place_append hn)

lemma Pushed.unique {N : List Note} {t : SubscriptionId} {k : Nat} {v w : Json.Value} (h : Pushed N s k v)
    (g : Pushed N t k w) : s = t := by
  obtain ⟨l, u, n, hk, -⟩ := h
  obtain ⟨l', u', n', hk', -⟩ := g
  cases hk.symm.trans hk'
  rfl

lemma pushed_of_mem {N : List Note} {ks : List Nat} {vs : List Json.Value} {k : Nat}
    (h : List.Forall₂ (Pushed N s) ks vs) (hk : k ∈ ks) : ∃ v, Pushed N s k v := by
  induction h with
  | nil => cases hk
  | cons hp _ ih =>
    rcases List.mem_cons.mp hk with rfl | hk
    · exact ⟨_, hp⟩
    · exact ih hk

lemma Pushed.lt {N : List Note} {k : Nat} {v : Json.Value} (h : Pushed N s k v) : k < N.length := by
  obtain ⟨l, w, n, hk, -⟩ := h
  exact place_lt hk

lemma place_cleared {N : List Note} {j : Nat} (hc : ∀ x ∈ ns, x ≠ .cleared)
    (hj : (N ++ ns)[j]? = some .cleared) : N[j]? = some .cleared := by
  rcases place_of_append hj with hj | ⟨-, hm⟩
  · exact hj
  · exact absurd rfl (hc _ hm)

lemma Drawn.grow (h : Drawn p source) (hn : q.notes = p.notes ++ ns)
    (ht : ∀ c s v, q.Took c s v → p.Took c s v)
    (ho : ∀ c, Over p c (fun _ => True) → Over q c fun _ => True)
    (hq : ∀ s, ∃ ks : List Nat, ks.Nodup ∧ List.Forall₂ (Pushed q.notes s) ks (q.correlator.queue s) ∧
      ∀ k ∈ ks, (∀ j : Nat, q.notes[j]? = some .cleared → j < k) ∧ ∀ c, source c ≠ some k) :
    Drawn q source where
  took c s v hv := by
    obtain ⟨k, hk, hp⟩ := h.took c s v (ht c s v hv)
    exact ⟨k, hk, hn ▸ hp.append⟩
  own := h.own
  ended c k hk := by
    obtain ⟨⟨s, v, hp⟩, hover⟩ := h.ended c k hk
    exact ⟨⟨s, v, hn ▸ hp.append⟩, ho c hover⟩
  queue := hq

lemma Drawn.rest (h : Drawn p source) (hn : q.notes = p.notes ++ ns) (hc : ∀ x ∈ ns, x ≠ .cleared)
    (hq : ∀ s, q.correlator.queue s <:+ p.correlator.queue s) (ht : ∀ c s v, q.Took c s v → p.Took c s v)
    (ho : ∀ c, Over p c (fun _ => True) → Over q c fun _ => True) : Drawn q source := by
  refine h.grow hn ht ho fun s => ?_
  obtain ⟨ks, hnd, hks, hlate⟩ := h.queue s
  obtain ⟨us, hus⟩ := hq s
  refine ⟨ks.drop us.length, hnd.sublist (List.drop_sublist _ _), ?_, fun k hk => ?_⟩
  · exact (List.forall₂_drop_append _ _ _ (hus ▸ hks)).imp fun _ _ hp => hn ▸ hp.append
  · obtain ⟨hk, hs⟩ := hlate k (List.mem_of_mem_drop hk)
    exact ⟨fun j hj => hk j (place_cleared hc (hn ▸ hj)), hs⟩

lemma Drawn.push (h : Drawn p source) {w : Json.Value} {n : Notification}
    (hw : Notification.ofValue w = .ok n)
    (hn : q.notes = p.notes ++ .deposited l w (.ok (.queued n.params.subscription)) :: ns)
    (hc : ∀ x ∈ Note.deposited l w (.ok (.queued n.params.subscription)) :: ns, x ≠ .cleared)
    (hq : ∀ s, q.correlator.queue s =
      if n.params.subscription = s then p.correlator.queue s ++ [n.params.result] else p.correlator.queue s)
    (ht : ∀ c s v, q.Took c s v → p.Took c s v)
    (ho : ∀ c, Over p c (fun _ => True) → Over q c fun _ => True) : Drawn q source := by
  refine h.grow hn ht ho fun s => ?_
  obtain ⟨ks, hnd, hks, hlate⟩ := h.queue s
  have old : ∀ j : Nat, q.notes[j]? = some .cleared → p.notes[j]? = some .cleared :=
    fun j hj => place_cleared hc (hn ▸ hj)
  have kept : ∀ k ∈ ks,
      (∀ j : Nat, q.notes[j]? = some .cleared → j < k) ∧ ∀ c, source c ≠ some k :=
    fun k hk => ⟨fun j hj => (hlate k hk).1 j (old j hj), (hlate k hk).2⟩
  have hks' : List.Forall₂ (Pushed q.notes s) ks (p.correlator.queue s) :=
    hks.imp fun _ _ hp => hn ▸ hp.append
  rw [hq s]
  split
  · rename_i hs
    refine ⟨ks ++ [p.notes.length], ?_, ?_, fun k hk => ?_⟩
    · refine List.nodup_append.mpr ⟨hnd, List.nodup_singleton _, fun k hk j hj => ?_⟩
      obtain ⟨v, hv⟩ := pushed_of_mem hks hk
      rw [List.mem_singleton.mp hj]
      exact Nat.ne_of_lt hv.lt
    · refine List.rel_append hks' (.cons ⟨l, w, n, ?_, hw, hs, rfl⟩ .nil)
      rw [hn, hs, List.getElem?_append_right (Nat.le_refl _), Nat.sub_self]
      rfl
    · rcases List.mem_append.mp hk with hk | hk
      · exact kept k hk
      · rw [List.mem_singleton.mp hk]
        refine ⟨fun j hj => place_lt (old j hj), fun c hc => ?_⟩
        obtain ⟨⟨t, v, hp⟩, -⟩ := h.ended c _ hc
        exact Nat.lt_irrefl _ hp.lt
  · exact ⟨ks, hnd, hks', kept⟩

lemma popSubscription_some {k d : Correlator} {v : Json.Value} (h : k.popSubscription s = (some v, d)) :
    ∃ rest, k.queue s = v :: rest ∧ ∀ i, d.queue i = if s = i then rest else k.queue i := by
  rw [Correlator.popSubscription] at h
  split at h
  · cases h
    exact ⟨_, ‹_›, fun i => Correlator.queue_set s _ i⟩
  · cases h

lemma took_finish {k : Correlator} {v w : Json.Value} {b : CallId} {i : SubscriptionId}
    (hc : p.calls.get? c = some { op := .nextNotification s, phase := ph })
    (h : Took ({ p with correlator := k }.finish c (.ok (.value v))) b i w) :
    b = c ∧ i = s ∧ w = v ∨ b ≠ c ∧ p.Took b i w := by
  have h : (p.calls.modify c fun call => { call with phase := .done (.ok (.value v)) }).get? b =
    some { op := .nextNotification i, phase := .done (.ok (.value w)) } := h
  rw [Table.get?_modify] at h
  split at h
  · rename_i he
    subst he
    rw [hc] at h
    cases h
    exact Or.inl ⟨rfl, rfl, rfl⟩
  · exact Or.inr ⟨Ne.symm ‹_›, h⟩

lemma update_eq_some {b : CallId} {j m : Nat} (hu : ∀ j, source c ≠ some j) :
    Function.update source c (some j) b = some m ↔ b = c ∧ m = j ∨ source b = some m := by
  by_cases he : b = c
  · rw [he, Function.update_self, Option.some.injEq, eq_comm]
    simp [hu]
  · rw [Function.update_of_ne he]
    simp [he]

lemma Drawn.read (h : Drawn p source) {v : Json.Value} {k : Correlator} (hn : c < p.nextCall)
    (hc : p.calls.get? c = some { op := .nextNotification s, phase := ph }) (hd : ∀ r, ph ≠ .done r)
    (hk : p.correlator.popSubscription s = (some v, k))
    (hq : q = { p with correlator := k }.finish c (.ok (.value v)))
    (ho : ∀ b, Over p b (fun _ => True) → Over q b fun _ => True) :
    ∃ next, Drawn q next ∧ Later p.notes source next := by
  have undrawn : ∀ j, source c ≠ some j := fun j hs => by
    obtain ⟨r, hr, -⟩ := (h.ended c j hs).2.done ph (phaseOf_of_call hc)
    exact hd r hr
  obtain ⟨rest, hv, hk⟩ := popSubscription_some hk
  obtain ⟨ks, hnd, hks, hlate⟩ := h.queue s
  rw [hv] at hks
  -- the reader gets the oldest notification
  obtain ⟨j, js, hj, hjs, rfl⟩ := List.forall₂_cons_right_iff.mp hks
  obtain ⟨hnj, hnd⟩ := List.nodup_cons.mp hnd
  obtain ⟨recent, free⟩ := hlate j List.mem_cons_self
  subst hq
  have update : ∀ {b m}, Function.update source c (some j) b = some m ↔
      b = c ∧ m = j ∨ source b = some m :=
    update_eq_some undrawn
  refine ⟨Function.update source c (some j), ⟨fun b i w ht => ?_, fun b b' m hb hb' => ?_, fun b m hb => ?_,
    fun i => ?_⟩, fun b m hb => update.mpr (Or.inr hb), fun b m hb => ?_⟩
  · rcases took_finish hc ht with ⟨rfl, rfl, rfl⟩ | ⟨hne, ht⟩
    · exact ⟨j, update.mpr (Or.inl ⟨rfl, rfl⟩), hj⟩
    · obtain ⟨m, hm, hp⟩ := h.took b i w ht
      exact ⟨m, update.mpr (Or.inr hm), hp⟩
  · rcases update.mp hb with ⟨hb, he⟩ | hb <;> rcases update.mp hb' with ⟨hb', he'⟩ | hb'
    · exact hb.trans hb'.symm
    · exact absurd (he ▸ hb') (free b')
    · exact absurd (he' ▸ hb) (free b)
    · exact h.own b b' m hb hb'
  · rcases update.mp hb with ⟨rfl, rfl⟩ | hb
    · refine ⟨⟨s, v, hj⟩, hn, fun y hy => ⟨.ok (.value v), ?_, trivial⟩⟩
      exact eq_of_setPhase (p := { p with correlator := k }) hy
    · exact (h.ended b m hb).imp_right (ho b)
  · show ∃ ks : List Nat, ks.Nodup ∧ List.Forall₂ (Pushed p.notes i) ks (k.queue i) ∧ _
    rw [hk i]
    split
    · subst i
      refine ⟨js, hnd, hjs, fun m hm => ?_⟩
      obtain ⟨hl, hs⟩ := hlate m (List.mem_cons_of_mem _ hm)
      refine ⟨hl, fun b hb => ?_⟩
      rcases update.mp hb with ⟨-, rfl⟩ | hb
      · exact hnj hm
      · exact hs b hb
    · obtain ⟨is, hnd, his, hlate⟩ := h.queue i
      refine ⟨is, hnd, his, fun m hm => ⟨(hlate m hm).1, fun b hb => ?_⟩⟩
      rcases update.mp hb with ⟨-, he⟩ | hb
      · obtain ⟨w, hw⟩ := pushed_of_mem his hm
        exact absurd (hj.unique (he ▸ hw)) ‹_›
      · exact (hlate m hm).2 b hb
  · rcases update.mp hb with ⟨-, rfl⟩ | hb
    · exact Or.inr recent
    · exact Or.inl hb

lemma not_cleared_of_quiet (hq : ∀ x ∈ ns, x.quiet) : ∀ x ∈ ns, x ≠ .cleared := by
  rintro x hx rfl
  cases hq _ hx

theorem Drawn.calm (h : Drawn p source) (ho : Orderly p) (hm : Calm F p a q) :
    ∃ next, Drawn q next ∧ Later p.notes source next := by
  have ended : ∀ c, Over p c (fun _ => True) → Over q c fun _ => True := fun c hc => hc.calm hm
  have same : Drawn q source → ∃ next, Drawn q next ∧ Later p.notes source next :=
    fun hq => ⟨source, hq, Later.refl _ _⟩
  cases calm_passage ho.suited hm with
  | rest hr =>
    obtain ⟨ns, hn, hq⟩ := hr.notes
    exact same (h.rest hn (not_cleared_of_quiet hq) hr.queues hr.took ended)
  | takeOut ha hs hr hc =>
    obtain ⟨ns, hn, hq⟩ := hr.notes
    exact same (h.rest hn (not_cleared_of_quiet hq) hr.queues hr.took ended)
  | connect ha hp hr =>
    obtain ⟨ns, hn, hq⟩ := hr.notes
    exact same (h.rest (hn.trans (List.append_assoc _ _ _))
      (List.forall_mem_cons.mpr ⟨nofun, not_cleared_of_quiet hq⟩) hr.queues hr.took ended)
  | deposit ha hr w =>
    obtain ⟨ns, he, hns⟩ := p.leave_notes _ w
    have quiet : ∀ l r, ∀ x ∈ Note.deposited l w r :: ns, x ≠ .cleared := fun l r =>
      List.forall_mem_cons.mpr ⟨nofun, fun x hx => by rcases hns x hx with rfl | ⟨t, rfl⟩ <;> simp⟩
    rcases p.correlator.deposit_queues w (isPush w) with ⟨n, -, hw, hr, hq⟩ | ⟨-, hq⟩
    · rw [hr] at he
      exact same (h.push hw (by rw [he]) (quiet _ _) (by rw [he]; exact hq)
        (by rw [he]; exact fun _ _ _ ht => ht) ended)
    · exact same (h.rest (by rw [he]) (quiet _ _)
        (by rw [he]; exact fun s => hq s ▸ List.suffix_rfl) (by rw [he]; exact fun _ _ _ ht => ht) ended)
  | read ha hc hp hk =>
    exact h.read (ho.ledger.known _ (by rw [hc]; rfl)) hc hp hk rfl ended

lemma Drawn.upheaval (h : Drawn p source) (hu : Upheaval p q) : Drawn q source := by
  have ended : ∀ c, Over p c (fun _ => True) → Over q c fun _ => True := fun c hc => hc.upheaval hu
  rcases upheaval_passage hu with ⟨hr, -⟩ | ⟨-, hr⟩
  · obtain ⟨ns, hn, hq⟩ := hr.notes
    exact h.rest hn (not_cleared_of_quiet hq) hr.queues hr.took ended
  · obtain ⟨ms, hm, -⟩ := p.notes_dismissing Correlator.clear
    obtain ⟨ns, hn, -⟩ := hr.notes
    have hn : q.notes = p.notes ++ (ms ++ .cleared :: ns) := by
      rw [hn, note, hm]
      simp
    refine h.grow hn hr.took ended fun s => ⟨[], List.nodup_nil, ?_, fun _ h => absurd h List.not_mem_nil⟩
    have hq : q.correlator.queue s = [] := List.suffix_nil.mp (hr.queues s)
    rw [hq]
    exact .nil

lemma Drawn.steps (h : Drawn p source) (ho : Orderly p) (es : List Event) :
    ∃ next, Drawn (p.steps es) next ∧ Later p.notes source next := by
  have hq : Orderly (p.steps es) ∧ ∃ next ns, (p.steps es).notes = p.notes ++ ns ∧
      Drawn (p.steps es) next ∧ Later p.notes source next := by
    refine invariant_of_moves (F := fun _ => True)
      (I := fun q => Orderly q ∧ ∃ next ns, q.notes = p.notes ++ ns ∧ Drawn q next ∧
        Later p.notes source next)
      (fun q a r ⟨hq, next, ns, hn, hd, hl⟩ hm => ⟨hq.calm hm, ?_⟩)
      (fun q r ⟨hq, next, ns, hn, hd, hl⟩ hu => ⟨hq.upheaval hu, ?_⟩)
      ⟨ho, source, [], (List.append_nil _).symm, h, Later.refl _ _⟩ fun _ _ _ _ => trivial
    · obtain ⟨last, hr, hlast⟩ := hd.calm hq hm
      obtain ⟨ms, f⟩ := entries_frame (calm_entries hm)
      exact ⟨last, ns ++ ms, by rw [f.notes, hn, List.append_assoc], hr, hl.trans (hn ▸ hlast)⟩
    · obtain ⟨b, ms, -, f⟩ := upheaval_frame hu
      exact ⟨next, ns ++ ms, by rw [f.notes, hn, List.append_assoc], hd.upheaval hu, hl⟩
  obtain ⟨-, next, ns, -, hd, hl⟩ := hq
  exact ⟨next, hd, hl⟩

lemma Over.not_fresh {P : Except Failure Reply → Prop} (h : Over p c P) : ¬ p.Fresh c := by
  rintro (hc | hc)
  · exact absurd h.known (Nat.not_lt.mpr hc)
  · obtain ⟨r, hr, -⟩ := h.done _ hc
    cases hr

lemma notes_of_initial (p : Provider) {ds es : List Event} (h : ds <+: es) :
    ∃ ns, (p.steps es).notes = (p.steps ds).notes ++ ns := by
  obtain ⟨fs, rfl⟩ := h
  rw [Provider.steps, List.foldl_append]
  exact notes_steps _ fs

theorem drawn_run (endpoint : Endpoint) (config : Config) (es : List Event) :
    ∃ source, Drawn ((new endpoint config).steps es) source ∧ ∀ ds, ds <+: es →
      (∀ c s v, ((new endpoint config).steps ds).Took c s v →
        ∃ k, source c = some k ∧ Pushed ((new endpoint config).steps es).notes s k v) ∧
      ∀ c k (j : Nat), ((new endpoint config).steps ds).Fresh c → source c = some k →
        ((new endpoint config).steps ds).notes[j]? = some .cleared → j < k := by
  -- what a run gives holds of the run itself
  have whole : ∀ {es : List Event} {source}, Drawn ((new endpoint config).steps es) source →
      (∀ c s v, ((new endpoint config).steps es).Took c s v →
        ∃ k, source c = some k ∧ Pushed ((new endpoint config).steps es).notes s k v) ∧
      ∀ c k (j : Nat), ((new endpoint config).steps es).Fresh c → source c = some k →
        ((new endpoint config).steps es).notes[j]? = some .cleared → j < k :=
    fun h => ⟨h.took, fun c k j hc hk _ => absurd hc (h.ended c k hk).2.not_fresh⟩
  induction es using List.reverseRecOn with
  | nil =>
    refine ⟨_, drawn_new endpoint config, fun ds hds => ?_⟩
    rw [List.prefix_nil.mp hds]
    exact @whole [] _ (drawn_new endpoint config)
  | append_singleton es e ih =>
    obtain ⟨source, h, hp⟩ := ih
    have ho : Orderly ((new endpoint config).steps es) := (orderly_new endpoint config).steps es
    have hs : (new endpoint config).steps (es ++ [e]) = ((new endpoint config).steps es).steps [e] :=
      List.foldl_append
    obtain ⟨next, hn, hl⟩ := h.steps ho [e]
    rw [← hs] at hn
    refine ⟨next, hn, fun ds hds => ?_⟩
    rcases List.prefix_concat_iff.mp hds with rfl | hds
    · exact whole hn
    · obtain ⟨took, fresh⟩ := hp ds hds
      refine ⟨fun c s v hc => ?_, fun c k j hc hk hj => ?_⟩
      · obtain ⟨k, hk, hv⟩ := took c s v hc
        obtain ⟨ns, hns⟩ := (new endpoint config).notes_of_initial (List.prefix_append es [e])
        exact ⟨k, hl.keeps c k hk, hns ▸ hv.append⟩
      · rcases hl.adds c k hk with hk | hlate
        · exact fresh c k j hc hk hj
        · obtain ⟨ns, hns⟩ := (new endpoint config).notes_of_initial hds
          exact hlate j (hns ▸ place_append hj)

def Since (N : List Note) (n k : Nat) : Prop :=
  ∃ l w r b, N[k]? = some (.deposited l w r) ∧ N[b]? = some (.spawned l) ∧ n ≤ b ∧ b < k

lemma since_of_recent (hs : Serial p) (hr : Renewed p) {n k b : Nat} {w : Json.Value}
    {r : Except Failure Deposit} (hn : p.notes[n]? = some (.spawned l))
    (hk : p.notes[k]? = some (.deposited b w r))
    (hc : ∀ j : Nat, j < n → p.notes[j]? = some .cleared → j < k) : Since p.notes n k := by
  obtain ⟨i, hik, hi, hlate⟩ := hs.spoken k b w r hk
  refine ⟨b, w, r, i, hk, hi, ?_, hik⟩
  by_contra hlt
  obtain ⟨j, hij, hjn, hj⟩ := hr.cleared i n b l (by omega) hi hn
  have := hlate j hij hj
  have := hc j hjn hj
  omega

/-- Listeners fall silent when their connections are cleared, which they are before the next ones are up, and
neither requests nor readers get what came in on a connection before that on which they begin. -/
structure Apart (p : Provider) (es : List Event) : Prop where
  silent : ∀ (i j k : Nat) l w r, i < j → (p.steps es).notes[i]? = some (.spawned l) →
    (p.steps es).notes[j]? = some .cleared → (p.steps es).notes[k]? = some (.deposited l w r) → k < j
  cleared : ∀ (i n : Nat) l k, i < n → (p.steps es).notes[i]? = some (.spawned l) →
    (p.steps es).notes[n]? = some (.spawned k) →
      ∃ j : Nat, i < j ∧ j < n ∧ (p.steps es).notes[j]? = some .cleared
  requests : ∃ source : Nat → Nat,
    (∀ i j r t, HandsOut (p.steps es).notes i r → HandsOut (p.steps es).notes j t →
      source i = source j → i = j) ∧
    ∀ i c q r, (p.steps es).notes[i]? = some (.settled c q (.ok r)) →
      (∃ y, (p.steps es).notes[source i]? = some y ∧ y.Brings r) ∧
      ∃ m t, LastClaim (p.steps es).notes c i m q t ∧
        ∀ (n : Nat) l, n < m → (p.steps es).notes[n]? = some (.spawned l) →
          Since (p.steps es).notes n (source i)
  readers : ∃ source : CallId → Option Nat,
    (∀ b c k, source b = some k → source c = some k → b = c) ∧ ∀ ds, ds <+: es →
      (∀ c s v, (p.steps ds).Took c s v → ∃ k, source c = some k ∧ Pushed (p.steps es).notes s k v) ∧
      ∀ c k (n : Nat) l, (p.steps ds).Fresh c → source c = some k →
        (p.steps ds).notes[n]? = some (.spawned l) → Since (p.steps es).notes n k

theorem epochs_apart (os : List Correlator.Op) {endpoint : Endpoint} {config : Config} {es : List Event}
    (h : Completes (new endpoint config) es) :
    (Correlator.Exchange.run os).Apart ∧ Apart (new endpoint config) es := by
  refine ⟨Correlator.Exchange.apart_run os, ?_⟩
  have ho : Orderly ((new endpoint config).steps es) := (orderly_new endpoint config).steps es
  have hr := (renewed_new endpoint config).steps (orderly_new endpoint config) h
  refine ⟨fun i j k l w r hij hi hj hk => ?_, hr.cleared, ?_, ?_⟩
  -- a listener is set to work only once
  · obtain ⟨b, -, hb, hlate⟩ := ho.serial.spoken k l w r hk
    exact hlate j (ho.serial.once i b l hi hb ▸ hij) hj
  · obtain ⟨source, ht⟩ := traced_steps endpoint config es
    refine ⟨fun i => source (.taken i), fun i j r t hi hj he => ?_, fun i c q r hi => ?_⟩
    · cases ht.own (.taken i) (.taken j) r t hi hj he
      rfl
    · have hout : HandsOut ((new endpoint config).steps es).notes i r := ⟨_, hi, Or.inl ⟨c, q, rfl⟩⟩
      obtain ⟨-, m, t, hl⟩ := allSound_steps endpoint config es i _ (Nat.zero_le i) hi
      obtain ⟨y, hy, hb⟩ := ht.brings (.taken i) r hout
      refine ⟨⟨y, hy, hb⟩, m, t, hl, fun n l hnm hn => ?_⟩
      obtain ⟨b, w, o, rfl, -⟩ := hb
      refine since_of_recent ho.serial hr hn hy fun j hjn hj => ?_
      exact ht.recent (.taken i) r j hout hj ⟨c, q, r, m, t, hi, hl, by omega⟩
  · obtain ⟨source, hd, hp⟩ := drawn_run endpoint config es
    refine ⟨source, hd.own, fun ds hds => ⟨(hp ds hds).1, fun c k n l hc hk hn => ?_⟩⟩
    obtain ⟨s, v, b, w, y, hy, -⟩ := (hd.ended c k hk).1
    obtain ⟨ns, hns⟩ := (new endpoint config).notes_of_initial hds
    refine since_of_recent ho.serial hr (hns ▸ place_append hn) hy fun j hjn hj => ?_
    refine (hp ds hds).2 c k j hc hk ?_
    rw [hns, List.getElem?_append_left (Nat.lt_trans hjn (place_lt hn))] at hj
    exact hj

def delivery (result : String) : Chunk :=
  .ok (some (Utf8.ofText ("\x7b\"id\":1,\"result\":\"" ++ result ++ "\"\x7d\x7b\"jsonrpc\":\"2.0\"," ++
    "\"method\":\"eth_subscription\",\"params\":\x7b\"subscription\":\"s\",\"result\":\"" ++ result ++
    "\"\x7d\x7d")))

def reconnected : List Event :=
  [.call .connect, .turn 0, .opened 0 (.ok ()), .listen 0, .listen 0, .arrive 0 (delivery "old"),
    .call (.nextNotification ⟨"t"⟩), .turn 1, .drop 1,
    .call .disconnect, .turn 2, .closed 2, .listen 0, .turn 2, .drop 2,
    .call .connect, .turn 3, .opened 3 (.ok ()), .listen 1, .listen 1,
    .call (.send { method := "a", params := [], id := .number 1 }), .turn 4, .sink 4 (.accept 1000),
    .sink 4 .flushed, .arrive 1 (delivery "new"), .turn 4, .call (.nextNotification ⟨"s"⟩), .turn 5]

theorem reconnected_apart :
    let p := (new here {}).steps reconnected
    Completes (new here {}) reconnected ∧
      p.result? 4 = some (.ok (.response { id := .number 1, result := some (.text "new") })) ∧
      p.result? 5 = some (.ok (.value (.text "new"))) ∧
      (Correlator.Exchange.run [.register (.number 1), .read ⟨"s"⟩, .clear, .poll 0]).Apart ∧
      Apart (new here {}) reconnected := by
  have h : Completes (new here {}) reconnected := by decide +kernel
  exact ⟨h, by decide +kernel, by decide +kernel, epochs_apart _ h⟩

end SocketRpc.Provider
