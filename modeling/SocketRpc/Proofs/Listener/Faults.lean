import SocketRpc.Proofs.Provider.Undisturbed

namespace SocketRpc

variable {v : Json.Value} {us vs rest : List Json.Value}

def IsNotification (v : Json.Value) : Prop := isPush v = true ∧ ∃ n, Notification.ofValue v = .ok n

def IsResponse (v : Json.Value) (r : Response) : Prop :=
  isPush v = false ∧ (v.get? "id").isSome ∧ Response.ofValue v = .ok r

namespace Correlator

variable {c d : Correlator} {f : Failure}

def deposited (c : Correlator) (vs : List Json.Value) : Correlator :=
  vs.foldl (fun k v => (k.deposit v (isPush v)).2) c

def Rejects (c : Correlator) (v : Json.Value) (f : Failure) : Prop :=
  ∃ r first, IsResponse v r ∧ r.id.key ∉ c.abandoned ∧ c.waiting.get? r.id.key = none ∧
    c.parked.get? r.id.key = some first ∧ f = .duplicateResponseId first.id

def Accepts (c : Correlator) (vs : List Json.Value) : Prop :=
  ∀ us v rest, vs = us ++ v :: rest → ∀ f, ¬ (c.deposited us).Rejects v f

lemma deposit_of_rejects (h : c.Rejects v f) :
    c.deposit v (isPush v) = (.error f, c) ∧ ∃ id, f = .duplicateResponseId id := by
  obtain ⟨r, first, ⟨hp, hi, hr⟩, ha, hw, hk, rfl⟩ := h
  obtain ⟨i, hi⟩ := Option.isSome_iff_exists.mp hi
  refine ⟨?_, _, rfl⟩
  simp [deposit, depositResponse, hp, hi, hr, ha, hw, hk]

lemma deposit_error_cases (h : c.deposit v (isPush v) = (.error f, d)) :
    c.Rejects v f ∨ (¬ IsNotification v ∧ ∀ r, ¬ IsResponse v r) ∧ Provider.isSkipped f = true := by
  rw [deposit] at h
  split at h
  · rename_i hp
    refine Or.inr ⟨⟨fun hv => ?_, fun r hr => ?_⟩, ?_⟩
    · obtain ⟨-, n, hn⟩ := hv
      simp [depositPush, hn] at h
    · cases hp.symm.trans hr.1
    · rw [depositPush] at h
      split at h <;> cases h
      rfl
  · rename_i hp
    have hp : isPush v = false := by simpa using hp
    have hn : ¬ IsNotification v := fun hn => by cases hp.symm.trans hn.1
    split at h
    · rename_i hi
      cases h
      exact Or.inr ⟨⟨hn, fun r hr => by simp [IsResponse, hi] at hr⟩, rfl⟩
    · rename_i i hi
      split at h
      · rename_i e he
        cases h
        exact Or.inr ⟨⟨hn, fun r hr => by simp [IsResponse, he] at hr⟩, rfl⟩
      · rename_i r hr
        refine Or.inl ?_
        simp only [depositResponse] at h
        split at h
        · cases h
        · rename_i ha
          split at h
          · split at h <;> cases h
          · rename_i first hw hk
            cases h
            exact ⟨r, first, ⟨hp, by simp [hi], hr⟩, ha, hw, hk, rfl⟩
          · cases h

lemma deposit_ok {o : Deposit} (h : c.deposit v (isPush v) = (.ok o, d)) :
    IsNotification v ∨ ∃ r, IsResponse v r := by
  rw [deposit] at h
  split at h
  · rename_i hp
    rw [depositPush] at h
    split at h
    · cases h
    · exact Or.inl ⟨hp, _, ‹_›⟩
  · rename_i hp
    split at h
    · cases h
    · rename_i i hi
      split at h
      · cases h
      · exact Or.inr ⟨_, by simpa using hp, by rw [hi]; rfl, ‹_›⟩

lemma deposit_misshapen (c : Correlator) (hn : ¬ IsNotification v) (hr : ∀ r, ¬ IsResponse v r) :
    (c.deposit v (isPush v)).2 = c ∧ ∀ f, ¬ c.Rejects v f := by
  refine ⟨?_, fun f ⟨r, _, h, _⟩ => hr r h⟩
  rcases hd : c.deposit v (isPush v) with ⟨_ | o, d⟩
  · exact (deposit_error hd).2
  · exact absurd (deposit_ok hd) (by simp [hn, hr])

lemma accepts_cons : c.Accepts (v :: vs) ↔
    (∀ f, ¬ c.Rejects v f) ∧ (c.deposit v (isPush v)).2.Accepts vs := by
  constructor
  · exact fun h => ⟨h [] v vs rfl, fun us w rest he => h (v :: us) w rest (congrArg (v :: ·) he)⟩
  · intro h us w rest he
    cases us with
    | nil =>
      cases he
      exact h.1
    | cons u us =>
      cases he
      exact h.2 us w rest rfl

lemma depositAll_cons (h : ∀ f, ¬ c.Rejects v f) (vs : List Json.Value) :
    c.depositAll (v :: vs) = (c.deposit v (isPush v)).2.depositAll vs := by
  rcases hd : c.deposit v (isPush v) with ⟨e | o, d⟩
  · obtain ⟨-, rfl⟩ := deposit_error hd
    obtain ⟨-, hs⟩ := (deposit_error_cases hd).resolve_left (h e)
    cases e with
    | deserialization | invalidMessage => simp only [depositAll, hd]
    | _ => cases hs
  · simp only [depositAll, hd]

lemma depositAll_of_accepts (h : c.Accepts vs) : c.depositAll vs = (c.deposited vs, none) := by
  induction vs generalizing c with
  | nil => rfl
  | cons v vs ih =>
    obtain ⟨hv, hvs⟩ := accepts_cons.mp h
    rw [depositAll_cons hv, ih hvs]
    rfl

lemma depositAll_of_rejects (h : c.Accepts us) (hv : (c.deposited us).Rejects v f) (rest : List Json.Value) :
    c.depositAll (us ++ v :: rest) = (c.deposited us, some f) := by
  obtain ⟨hd, id, rfl⟩ := deposit_of_rejects hv
  rw [depositAll_append, depositAll_of_accepts h]
  simp only [depositAll, hd]

lemma accepts_or_rejects (c : Correlator) (vs : List Json.Value) : c.Accepts vs ∨
    ∃ us v rest f, vs = us ++ v :: rest ∧ c.Accepts us ∧ (c.deposited us).Rejects v f := by
  induction vs generalizing c with
  | nil => exact Or.inl fun us v rest he => by simp at he
  | cons v vs ih =>
    by_cases hv : ∃ f, c.Rejects v f
    · obtain ⟨f, hv⟩ := hv
      exact Or.inr ⟨[], v, vs, f, rfl, fun us w rest he => by simp at he, hv⟩
    · have hv := not_exists.mp hv
      rcases ih (c.deposit v (isPush v)).2 with h | ⟨us, w, rest, f, rfl, hus, hw⟩
      · exact Or.inl (accepts_cons.mpr ⟨hv, h⟩)
      · exact Or.inr ⟨v :: us, w, rest, f, rfl, accepts_cons.mpr ⟨hv, hus⟩, hw⟩

end Correlator

namespace Provider

variable {F : Failure → Prop} {p q m : Provider} {c : CallId} {l k : ListenerId} {li : Listener} {f : Failure}
  {chunk : Chunk} {bs : Bytes}

def failure? (p : Provider) (l : ListenerId) : Option Failure :=
  match p.listenerPhase l with
  | some (.finished (.failed f)) => some f
  | _ => none

inductive Faults (p : Provider) (l : ListenerId) : Chunk → List Json.Value → Failure → Prop where
  | read (h : p.Reads l) (f : Failure) : Faults p l (.error f) [] f
  | rejected {li : Listener} {bs : Bytes} {us rest : List Json.Value} {v : Json.Value} {f : Failure}
      (hl : p.listeners.get? l = some li) (ha : li.Attentive)
      (hm : (li.framer.push bs).messages.1 = us ++ v :: rest) (hu : p.correlator.Accepts us)
      (hv : (p.correlator.deposited us).Rejects v f) : Faults p l (.ok (some bs)) us f

def leaving (p : Provider) (vs : List Json.Value) (ns : List Note) : Provider :=
  { p with correlator := p.correlator.deposited vs, notes := p.notes ++ ns }

lemma arrive_deaf (h : ¬ p.Reads l) : p.arrive l chunk = p := by
  rw [arrive]
  split
  · rfl
  · rename_i li hl
    split
    · exact absurd ⟨li, hl, ‹_›, ‹_›, ‹_›, ‹_›⟩ h
    · rfl

lemma arrive_eq (hl : p.listeners.get? l = some li) (ha : li.Attentive) (chunk : Chunk) :
    p.arrive l chunk = match chunk with
      | .error f => p.fault l f
      | .ok none => p.orphan l
      | .ok (some bs) => p.takeChunk l li.framer bs := by
  obtain ⟨hr, hn, hf, hb⟩ := ha
  rcases chunk with f | _ | bs <;> simp only [arrive, hl, hr, hn, hf, hb]

lemma Faults.arrive (h : p.Faults l chunk us f) :
    ∃ ns, p.arrive l chunk = (p.leaving us ns).fault l f := by
  cases h with
  | read h =>
    obtain ⟨li, hl, ha⟩ := h
    exact ⟨[], by rw [arrive_eq hl ha, leaving, List.append_nil]; rfl⟩
  | rejected hl ha hm hu hv =>
    rename_i rest v
    obtain ⟨ns, hd⟩ := p.depositAll_eq l (us ++ v :: rest)
    rw [Correlator.depositAll_of_rejects hu hv] at hd
    refine ⟨ns, ?_⟩
    rw [arrive_eq hl ha]
    simp only [takeChunk, hm, hd]
    rfl

lemma arrive_accepted (hl : p.listeners.get? l = some li) (ha : li.Attentive)
    (hv : p.correlator.Accepts (li.framer.push bs).messages.1) :
    ∃ ns, p.arrive l (.ok (some bs)) = (p.leaving (li.framer.push bs).messages.1 ns).setListener l fun li' =>
      { li' with
        framer := if (li.framer.push bs).messages.2.1.isSome then {} else (li.framer.push bs).messages.2.2
        phase := .resting } := by
  obtain ⟨ns, hd⟩ := p.depositAll_eq l (li.framer.push bs).messages.1
  rw [Correlator.depositAll_of_accepts hv] at hd
  refine ⟨ns, ?_⟩
  rw [arrive_eq hl ha]
  simp only [takeChunk, hd]
  rfl

lemma faults_or (hl : p.listeners.get? l = some li) (ha : li.Attentive) (chunk : Chunk) :
    (∃ us f, p.Faults l chunk us f) ∨ chunk = .ok none ∨
      ∃ bs, chunk = .ok (some bs) ∧ p.correlator.Accepts (li.framer.push bs).messages.1 := by
  match chunk with
  | .error f => exact Or.inl ⟨[], f, .read ⟨li, hl, ha⟩ f⟩
  | .ok none => exact Or.inr (Or.inl rfl)
  | .ok (some bs) =>
    rcases p.correlator.accepts_or_rejects (li.framer.push bs).messages.1 with h | h
    · exact Or.inr (Or.inr ⟨bs, rfl, h⟩)
    · obtain ⟨us, v, rest, f, hm, hu, hv⟩ := h
      exact Or.inl ⟨us, f, .rejected hl ha hm hu hv⟩

def settings (p : Provider) : Endpoint × Config := (p.endpoint, p.config)

structure Unmoved (p q : Provider) : Prop where
  settings : q.settings = p.settings
  nextListener : p.nextListener ≤ q.nextListener
  phase : ∀ l < p.nextListener, q.listenerPhase l = p.listenerPhase l

lemma Unmoved.trans (h : Unmoved p m) (g : Unmoved m q) : Unmoved p q where
  settings := g.settings.trans h.settings
  nextListener := Nat.le_trans h.nextListener g.nextListener
  phase l hl := (g.phase l (Nat.lt_of_lt_of_le hl h.nextListener)).trans (h.phase l hl)

lemma unmoved_same (hc : q.settings = p.settings) (hn : q.nextListener = p.nextListener)
    (hl : q.listeners = p.listeners) : Unmoved p q :=
  ⟨hc, Nat.le_of_eq hn.symm, fun l _ => by rw [listenerPhase, listenerPhase, hl]⟩

lemma listenerPhase_modify {g : Listener → Listener} (hl : q.listeners = p.listeners.modify k g)
    (l : ListenerId) : q.listenerPhase l =
      if k = l then (p.listeners.get? l).map fun li => (g li).phase else p.listenerPhase l := by
  simp only [listenerPhase, hl, Table.get?_modify]
  split
  · rw [Option.map_map]
    rfl
  · rfl

lemma unmoved_modify {g : Listener → Listener} (hc : q.settings = p.settings)
    (hn : q.nextListener = p.nextListener) (hl : q.listeners = p.listeners.modify k g)
    (hg : ∀ li, (g li).phase = li.phase) : Unmoved p q := by
  refine ⟨hc, Nat.le_of_eq hn.symm, fun l _ => ?_⟩
  rw [listenerPhase_modify hl]
  split
  · simp only [hg]
    rfl
  · rfl

lemma Unmoved.release (h : Unmoved p m) : Unmoved p m.release := by
  obtain ⟨k, ns, he⟩ := release_eq m
  rw [he]
  exact h.trans (unmoved_same rfl rfl rfl)

lemma Unmoved.settle (h : Unmoved p m) (c : CallId) (y : Request) (r : Except Failure Response) :
    Unmoved p (m.settle c y r) := by
  obtain ⟨k, x, -, -, he⟩ := settle_eq m c y r
  rw [he]
  exact h.trans (unmoved_same rfl rfl rfl)

lemma Unmoved.setPhase (h : Unmoved p m) (c : CallId) (ph : Phase) : Unmoved p (m.setPhase c ph) :=
  h.trans (unmoved_same rfl rfl rfl)

lemma unmoved_drop (p : Provider) (c : CallId) : Unmoved p (p.drop c) := by
  rw [drop]
  split
  · exact unmoved_same rfl rfl rfl
  · rename_i ph hp
    have hg : Unmoved p (p.giveBack ph) := by
      unfold giveBack
      split
      · exact unmoved_same rfl rfl rfl
      · exact unmoved_modify rfl rfl rfl fun _ => rfl
      · exact unmoved_same rfl rfl rfl
    unfold unlock
    dsimp only
    split
    · refine Unmoved.release ?_
      exact hg.trans (unmoved_same rfl rfl rfl)
    · exact hg.trans (unmoved_same rfl rfl rfl)

lemma unmoved_calm (hm : Calm F p (some c) q) : Unmoved p q := by
  have released : Unmoved p p.release := Unmoved.release (unmoved_same rfl rfl rfl)
  cases hm with
  | call | seek | claim | collect | attempt | replace | disconnect | reset | write | pause | retry | resetClosed
  | resetOpened | progress | breakPipe | reclaim => exact unmoved_same rfl rfl rfl
  | refuse | reclaimRefused | receive | closedOut | timeOut =>
    refine Unmoved.settle ?_ _ _ _
    exact unmoved_same rfl rfl rfl
  | giveUp =>
    refine Unmoved.settle ?_ _ _ _
    exact released.trans (unmoved_same rfl rfl rfl)
  | drop => exact unmoved_drop p c
  | read =>
    rw [readNotification]
    split <;> exact unmoved_same rfl rfl rfl
  | leave | yield | written => exact released.trans (unmoved_same rfl rfl rfl)
  | exhaust =>
    refine Unmoved.setPhase (Unmoved.release ?_) _ _
    exact unmoved_same rfl rfl rfl
  | letGo h =>
    rename_i conn next
    have hr : Unmoved p (p.letGo conn.listener) := unmoved_modify rfl rfl rfl fun _ => rfl
    exact hr.trans (unmoved_modify rfl rfl rfl fun _ => rfl)
  | hand => exact unmoved_modify rfl rfl rfl fun _ => rfl
  | connect =>
    refine Unmoved.setPhase (Unmoved.release ?_) _ _
    refine ⟨rfl, Nat.le_succ _, fun l hl => ?_⟩
    show ((p.listeners.set p.nextListener _).get? l).map Listener.phase = _
    rw [Table.get?_set, if_neg (Nat.ne_of_gt hl)]
    rfl

lemma unmoved_calms (hm : Calms F (some c) p q) : Unmoved p q :=
  chain_preserves (I := Unmoved p) (fun _ _ h hm => h.trans (unmoved_calm hm)) (unmoved_same rfl rfl rfl) hm

lemma TearsDown.unmoved (h : p.TearsDown c q) : Unmoved p q := by
  obtain ⟨l, next, -, -, rfl⟩ := h
  cases next with
  | connect => exact unmoved_same rfl rfl rfl
  | disconnect =>
    refine Unmoved.setPhase (Unmoved.release ?_) _ _
    exact unmoved_same rfl rfl rfl

lemma unmoved_step (e : Event) (hl : ∀ k, e ≠ .listen k) (ha : ∀ k chunk, e ≠ .arrive k chunk) :
    Unmoved p (p.step e) := by
  cases e with
  | call op => exact unmoved_same rfl rfl rfl
  | turn c =>
    rcases turn_moves (F := fun _ => True) p c with h | h
    · exact unmoved_calms h
    · exact h.unmoved
  | listen k => exact absurd rfl (hl k)
  | arrive k chunk => exact absurd rfl (ha k chunk)
  | opened c r => exact unmoved_calms (calms_opened (F := fun _ => True) p c r fun _ _ => trivial)
  | closed c =>
    obtain ⟨m, hm, -, h | h⟩ := closed_moves (F := fun _ => True) p c
    · rw [step, h]
      exact unmoved_calms hm
    · exact (unmoved_calms hm).trans h.unmoved
  | sink c u => exact unmoved_calms (calms_sink (F := fun _ => True) p c u fun _ _ => trivial)
  | collect c => exact unmoved_calms (calms_collect (F := fun _ => True) p c)
  | drop c => exact unmoved_drop p c
  | pop | take | elapse => exact unmoved_same rfl rfl rfl

lemma failure?_congr (h : q.listenerPhase l = p.listenerPhase l) : q.failure? l = p.failure? l := by
  rw [failure?, failure?, h]

lemma failure?_of_unfinished (hl : p.listeners.get? l = some li) (hf : li.isFinished = false) :
    p.failure? l = none := by
  rw [failure?, listenerPhase, hl]
  cases hp : li.phase with
  | finished r => simp [Listener.isFinished, hp] at hf
  | _ => simp [hp]

lemma failure?_modify (hk : p.listeners.get? k = some li) (hf : li.isFinished = false) {g : Listener → Listener}
    (l : ListenerId) (hq : q.listeners = p.listeners.modify k g)
    (hg : ∀ f, (g li).phase ≠ .finished (.failed f)) : q.failure? l = p.failure? l := by
  by_cases hkl : k = l
  · subst hkl
    rw [failure?_of_unfinished hk hf, failure?, listenerPhase_modify hq, if_pos rfl, hk]
    split
    · rename_i f hp
      exact absurd (Option.some.inj hp) (hg f)
    · rfl
  · exact failure?_congr (by rw [listenerPhase_modify hq, if_neg hkl])

lemma listen_rest (p : Provider) (k : ListenerId) :
    (p.listen k).settings = p.settings ∧ (p.listen k).nextListener = p.nextListener ∧
      ∀ l, (p.listen k).failure? l = p.failure? l := by
  rw [listen]
  split
  · exact ⟨rfl, rfl, fun _ => rfl⟩
  · rename_i li hk
    split
    · exact ⟨rfl, rfl, fun _ => rfl⟩
    · rename_i hf
      have hf : li.isFinished = false := Bool.eq_false_iff.mpr hf
      split
      · exact ⟨rfl, rfl, fun l => failure?_modify hk hf l rfl (by simp)⟩
      · split
        · exact ⟨rfl, rfl, fun l => failure?_modify hk hf l rfl (by simp)⟩
        · unfold resume
          dsimp only
          split <;> exact ⟨rfl, rfl, fun l => failure?_modify hk hf l rfl (by simp)⟩
        · exact ⟨rfl, rfl, fun l => failure?_modify hk hf l rfl (by simp)⟩
        · exact ⟨rfl, rfl, fun l => failure?_modify hk hf l rfl (by simp)⟩
        · exact ⟨rfl, rfl, fun _ => rfl⟩

lemma Faults.reads (h : p.Faults l chunk us f) : p.Reads l := by
  cases h with
  | read h => exact h
  | rejected hl ha => exact ⟨_, hl, ha⟩

lemma failure?_fault (hl : p.listeners.get? k = some li) (hs : p.config.policy = .strict) (l : ListenerId) :
    (p.fault k f).failure? l = if k = l then some f else p.failure? l := by
  have hq : (p.fault k f).listeners =
      p.listeners.modify k fun li => { li with phase := .finished (.failed f) } := by
    simp only [fault, hs]
    rfl
  split
  · rename_i hkl
    subst hkl
    rw [failure?, listenerPhase_modify hq, if_pos rfl, hl]
    rfl
  · rename_i hkl
    exact failure?_congr (by rw [listenerPhase_modify hq, if_neg hkl])

lemma Faults.failure (h : p.Faults l chunk us f) (hs : p.config.policy = .strict) :
    (p.arrive l chunk).failure? l = some f := by
  obtain ⟨li, hl, ha⟩ := h.reads
  obtain ⟨ns, he⟩ := h.arrive
  rw [he, failure?_fault (p := p.leaving us ns) hl hs, if_pos rfl]

lemma fault_lenient (hs : p.config.policy = .lenient) (k : ListenerId) (f : Failure) :
    p.fault k f = p.setListener k fun li => { li with framer := {}, phase := .resting } := by
  simp only [fault, hs]

lemma fault_rest (p : Provider) (k : ListenerId) (f : Failure) :
    (p.fault k f).settings = p.settings ∧ (p.fault k f).nextListener = p.nextListener := by
  rw [fault]
  split <;> exact ⟨rfl, rfl⟩

lemma arrive_rest (p : Provider) (k : ListenerId) (chunk : Chunk) :
    (p.arrive k chunk).settings = p.settings ∧ (p.arrive k chunk).nextListener = p.nextListener ∧
      ∀ l, (p.arrive k chunk).failure? l = p.failure? l ∨
        p.config.policy = .strict ∧ k = l ∧ ∃ us f, p.Faults l chunk us f := by
  by_cases hr : p.Reads k
  · obtain ⟨li, hk, ha⟩ := hr
    have hu := ha.unfinished
    rcases faults_or hk ha chunk with ⟨us, f, hf⟩ | rfl | ⟨bs, rfl, hv⟩
    · obtain ⟨ns, he⟩ := hf.arrive
      obtain ⟨hc, hn⟩ := (p.leaving us ns).fault_rest k f
      rw [he]
      refine ⟨hc, hn, fun l => ?_⟩
      cases hs : p.config.policy with
      | strict =>
        rw [failure?_fault (p := p.leaving us ns) hk hs]
        split
        · rename_i hkl
          exact Or.inr ⟨rfl, hkl, us, f, hkl ▸ hf⟩
        · exact Or.inl rfl
      | lenient =>
        rw [fault_lenient (p := p.leaving us ns) hs]
        exact Or.inl (failure?_modify hk hu l rfl (by simp))
    · rw [arrive_eq hk ha]
      exact ⟨rfl, rfl, fun l => Or.inl (failure?_modify hk hu l rfl (by simp))⟩
    · obtain ⟨ns, he⟩ := arrive_accepted hk ha hv
      rw [he]
      exact ⟨rfl, rfl, fun l => Or.inl (failure?_modify hk hu l rfl (by simp))⟩
  · rw [arrive_deaf hr]
    exact ⟨rfl, rfl, fun _ => Or.inl rfl⟩

lemma failure?_step (hl : l < p.nextListener) (e : Event) : (p.step e).failure? l = some f ↔
    p.failure? l = some f ∨
      p.config.policy = .strict ∧ ∃ chunk us, e = .arrive l chunk ∧ p.Faults l chunk us f := by
  by_cases ha : ∃ k chunk, e = .arrive k chunk
  · obtain ⟨k, chunk, rfl⟩ := ha
    constructor
    · intro hq
      rcases (arrive_rest p k chunk).2.2 l with h | ⟨hs, rfl, us, g, hf⟩
      · exact Or.inl (h ▸ hq)
      · cases (hf.failure hs).symm.trans hq
        exact Or.inr ⟨hs, chunk, us, rfl, hf⟩
    · rintro (hq | ⟨hs, chunk', us, he, hf⟩)
      · rcases (arrive_rest p k chunk).2.2 l with h | ⟨-, -, us, g, hf⟩
        · exact h.trans hq
        · obtain ⟨li, hli, ha⟩ := hf.reads
          cases (failure?_of_unfinished hli ha.unfinished).symm.trans hq
      · cases he
        exact hf.failure hs
  · have ha := fun k chunk he => ha ⟨k, chunk, he⟩
    have kept : (p.step e).failure? l = p.failure? l := by
      by_cases hk : ∃ k, e = .listen k
      · obtain ⟨k, rfl⟩ := hk
        exact (listen_rest p k).2.2 l
      · exact failure?_congr ((unmoved_step e (fun k he => hk ⟨k, he⟩) ha).phase l hl)
    rw [kept]
    exact ⟨Or.inl, fun h => h.resolve_right fun ⟨_, chunk, _, he, _⟩ => ha l chunk he⟩

lemma settings_step (p : Provider) (e : Event) :
    (p.step e).settings = p.settings ∧ p.nextListener ≤ (p.step e).nextListener := by
  by_cases ha : ∃ k chunk, e = .arrive k chunk
  · obtain ⟨k, chunk, rfl⟩ := ha
    obtain ⟨hc, hn, -⟩ := arrive_rest p k chunk
    exact ⟨hc, Nat.le_of_eq hn.symm⟩
  · by_cases hk : ∃ k, e = .listen k
    · obtain ⟨k, rfl⟩ := hk
      obtain ⟨hc, hn, -⟩ := listen_rest p k
      exact ⟨hc, Nat.le_of_eq hn.symm⟩
    · have hs := unmoved_step (p := p) e (fun k he => hk ⟨k, he⟩) fun k chunk he => ha ⟨k, chunk, he⟩
      exact ⟨hs.settings, hs.nextListener⟩

lemma settings_steps (p : Provider) (es : List Event) : (p.steps es).settings = p.settings := by
  induction es generalizing p with
  | nil => rfl
  | cons e es ih => exact (ih (p.step e)).trans (settings_step p e).1

lemma config_steps (p : Provider) (es : List Event) : (p.steps es).config = p.config :=
  congrArg Prod.snd (settings_steps p es)

lemma failure?_steps (hl : l < p.nextListener) (es : List Event) : (p.steps es).failure? l = some f ↔
    p.failure? l = some f ∨ p.config.policy = .strict ∧
      ∃ ds chunk us fs, es = ds ++ .arrive l chunk :: fs ∧ (p.steps ds).Faults l chunk us f := by
  induction es generalizing p with
  | nil => simp [steps]
  | cons e es ih =>
    have hc : (p.step e).config = p.config := config_steps p [e]
    have hi := ih (Nat.lt_of_lt_of_le hl (settings_step p e).2)
    rw [hc, failure?_step hl e, or_assoc, ← and_or_left] at hi
    refine hi.trans (or_congr_right (and_congr_right fun _ => ⟨?_, ?_⟩))
    · rintro (⟨chunk, us, rfl, hf⟩ | ⟨ds, chunk, us, fs, rfl, hf⟩)
      · exact ⟨[], chunk, us, es, rfl, hf⟩
      · exact ⟨e :: ds, chunk, us, fs, rfl, hf⟩
    · rintro ⟨ds, chunk, us, fs, he, hf⟩
      cases ds with
      | nil =>
        cases he
        exact Or.inl ⟨chunk, us, rfl, hf⟩
      | cons d ds =>
        cases he
        exact Or.inr ⟨ds, chunk, us, fs, rfl, hf⟩

structure Succumbs (k : Correlator) (l : ListenerId) (f : Failure) (q : Provider) : Prop where
  failure : q.failure? l = some f
  waiting : q.correlator.waiting = {}
  closed : ∀ i t, k.waiting.get? i = some t → (q.correlator.receive t).1 = .closed
  parked : q.correlator.parked = k.parked
  abandoned : q.correlator.abandoned = k.abandoned
  queues : q.correlator.queues = k.queues
  told : q.correlator.closedFailure = .listener f.message
  state : q.state = .disconnected

structure GoesOn (p : Provider) (k : Correlator) (l : ListenerId) (left : Framer) (q : Provider) : Prop where
  correlator : q.correlator = k
  state : q.state = p.state
  listener : ∃ li, q.listeners.get? l = some li ∧ li.phase = .resting ∧ li.framer = left

lemma Faults.succumbs (h : p.Faults l chunk us f) (hs : p.config.policy = .strict) :
    Succumbs (p.correlator.deposited us) l f (p.arrive l chunk) := by
  obtain ⟨ns, he⟩ := h.arrive
  have hq : (p.arrive l chunk).correlator = (p.correlator.deposited us).fail f.message ∧
      (p.arrive l chunk).state = .disconnected := by
    rw [he]
    simp only [fault, show (p.leaving us ns).config.policy = .strict from hs]
    exact ⟨rfl, rfl⟩
  generalize p.correlator.deposited us = k at hq
  obtain ⟨mail, hd, hm⟩ := k.foldl_closeTicket k.waiting.values
  have hc : k.dismiss = { k with mail, waiting := {} } := by rw [Correlator.dismiss, hd]
  refine ⟨h.failure hs, ?_, fun i t ht => ?_, ?_, ?_, ?_, ?_, hq.2⟩ <;> rw [hq.1, Correlator.fail, hc]
  · rw [receive_fst]
    show (mail.get? t).getD .closed = .closed
    rw [hm, if_pos (Table.mem_values_of_get? ht)]
    cases k.mail.get? t <;> rfl
  · rfl

lemma Faults.goesOn (h : p.Faults l chunk us f) (hs : p.config.policy = .lenient) :
    GoesOn p (p.correlator.deposited us) l {} (p.arrive l chunk) := by
  obtain ⟨li, hl, ha⟩ := h.reads
  obtain ⟨ns, he⟩ := h.arrive
  rw [he, fault_lenient (p := p.leaving us ns) hs]
  exact ⟨rfl, rfl, { li with framer := {}, phase := .resting }, by simp [setListener, leaving, hl], rfl, rfl⟩

/-- In every run, a listener ends with an error if and only if it is strict and a read has failed or a
response was rejected. Then all who wait are told, and what the messages before the fault have left is kept; a
lenient listener has left the same, and goes on with nothing buffered. Where no message of a chunk is rejected,
all of them are left with the correlator, up to a malformed one, and the listener goes on; a value that is
neither a notification nor a response is not rejected and changes nothing. -/
theorem fault_policy (hl : l < p.nextListener) (hn : p.failure? l = none) (es : List Event) :
    let m := p.steps es
    (∀ f, m.failure? l = some f ↔ p.config.policy = .strict ∧
      ∃ ds chunk us fs, es = ds ++ .arrive l chunk :: fs ∧ (p.steps ds).Faults l chunk us f) ∧
    (∀ chunk us f, m.Faults l chunk us f →
      match p.config.policy with
      | .strict => Succumbs (m.correlator.deposited us) l f (m.step (.arrive l chunk))
      | .lenient => GoesOn m (m.correlator.deposited us) l {} (m.step (.arrive l chunk))) ∧
    (∀ li bs, m.listeners.get? l = some li → li.Attentive →
      let (vs, bad, left) := (li.framer.push bs).messages
      m.correlator.Accepts vs → GoesOn m (m.correlator.deposited vs) l (if bad.isSome then {} else left)
        (m.step (.arrive l (.ok (some bs))))) ∧
    ∀ (k : Correlator) (v : Json.Value), ¬ IsNotification v → (∀ r, ¬ IsResponse v r) →
      (k.deposit v (isPush v)).2 = k ∧ ∀ f, ¬ k.Rejects v f := by
  intro m
  have hc : m.config = p.config := config_steps p es
  refine ⟨fun f => ?_, fun chunk us f hf => ?_, fun li bs hli ha hv => ?_,
    fun k _ hv hr => k.deposit_misshapen hv hr⟩
  · rw [failure?_steps hl es, hn]
    simp
  · cases hs : p.config.policy with
    | strict => exact hf.succumbs (hc ▸ hs)
    | lenient => exact hf.goesOn (hc ▸ hs)
  · obtain ⟨ns, he⟩ := arrive_accepted hli ha hv
    refine ⟨?_, ?_, ?_⟩ <;> rw [step, he]
    · rfl
    · rfl
    · exact ⟨_, by simp [setListener, leaving, hli]; rfl, rfl, rfl⟩

def connected : List Event := [.call .connect, .turn 0, .opened 0 (.ok ()), .listen 0, .listen 0]

theorem rejected_ends_listener :
    let p := (new here {}).steps connected
    let chunk : Chunk := .ok (some (Utf8.ofText "\x7b\"id\":7\x7d\x7b\"id\":7\x7d"))
    let es := [.arrive 0 chunk]
    0 < p.nextListener ∧ p.failure? 0 = none ∧ p.config.policy = .strict ∧
      (p.steps es).failure? 0 = some (.duplicateResponseId (.number 7)) ∧
      ∃ ds c us fs, es = ds ++ .arrive 0 c :: fs ∧
        (p.steps ds).Faults 0 c us (.duplicateResponseId (.number 7)) := by
  intro p chunk es
  have hl : 0 < p.nextListener := by decide +kernel
  have hn : p.failure? 0 = none := by decide +kernel
  have hf : (p.steps es).failure? 0 = some (.duplicateResponseId (.number 7)) := by decide +kernel
  obtain ⟨hs, h⟩ := ((fault_policy hl hn es).1 _).mp hf
  exact ⟨hl, hn, hs, hf, h⟩

end Provider

end SocketRpc
