import SocketRpc.Proofs.Provider.Upkeep

/-!
The calls in line at the lock. These are the calls that work under it or have asked for it, each of them once, so the
lock is never left to a call that is gone.
-/

namespace SocketRpc.Provider

variable {F : Failure → Prop} {a : Option CallId} {p q m : Provider} {b c : CallId} {l : ListenerId} {ph : Phase}
  {k : Lock} {cut : Phase → Bool} {e : Event} {es : List Event}

def Lock.line (k : Lock) : List CallId := k.holder.toList ++ k.queue

def Phase.lined : Phase → Bool
  | .locking _ => true
  | ph => ph.guarded

structure Lined (p : Provider) : Prop where
  nodup : p.lock.line.Nodup
  taken : p.lock.holder = none → p.lock.queue = []
  mem : ∀ c, c ∈ p.lock.line ↔ p.inside Phase.lined c = true

lemma lined_new (endpoint : Endpoint) (config : Config) : Lined (new endpoint config) :=
  ⟨List.nodup_nil, fun _ => rfl, fun _ => ⟨nofun, nofun⟩⟩

lemma line_ask (h : k.holder = none → k.queue = []) (c : CallId) : (k.ask c).line = k.line ++ [c] := by
  rw [Lock.ask]
  split
  · rename_i hn
    simp [Lock.line, hn, h hn]
  · rename_i hs
    simp [Lock.line, hs]

lemma holder_ask_ne_none (k : Lock) (c : CallId) : (k.ask c).holder ≠ none := by
  rw [Lock.ask]
  split
  · exact Option.some_ne_none _
  · rename_i h
    exact fun hn => by cases h.symm.trans hn

lemma line_release (h : p.lock.holder = some c) : p.lock.line = c :: p.release.lock.line := by
  rw [release]
  split
  · rename_i hq
    simp [Lock.line, h, hq]
  · rename_i b rest hq
    simp [Lock.line, h, hq, note]

lemma lock_release (h : q.lock = p.lock) : q.release.lock = p.release.lock := by
  rw [release, release, h]
  split <;> rfl

lemma taken_release (p : Provider) : p.release.lock.holder = none → p.release.lock.queue = [] := by
  rw [release]
  split
  · exact fun _ => rfl
  · exact fun hn => absurd hn (Option.some_ne_none _)

lemma inside_of_phase (h : p.phaseOf c = some ph) : p.inside cut c = cut ph := by rw [inside, h]; rfl

lemma inside_of_gone (h : p.phaseOf c = none) : p.inside cut c = false := by rw [inside, h]; rfl

lemma inside_congr (h : q.phaseOf c = p.phaseOf c) : q.inside cut c = p.inside cut c := by rw [inside, h, inside]

lemma Lined.same (h : Lined p) (hc : q.calls = p.calls) (hk : q.lock = p.lock) : Lined q where
  nodup := hk ▸ h.nodup
  taken := hk ▸ h.taken
  mem c := by rw [hk, inside_congr (phaseOf_of_calls hc c), h.mem]

lemma Lined.stay (h : Lined p) (ho : ∀ b, c ≠ b → q.phaseOf b = p.phaseOf b) (hk : q.lock = p.lock)
    (hc : q.inside Phase.lined c = p.inside Phase.lined c) : Lined q where
  nodup := hk ▸ h.nodup
  taken := hk ▸ h.taken
  mem b := by
    rw [hk, h.mem]
    by_cases hb : c = b
    · rw [← hb, hc]
    · rw [inside_congr (ho b hb)]

lemma Lined.enter (h : Lined p) (ho : ∀ b, c ≠ b → q.phaseOf b = p.phaseOf b) (hk : q.lock = p.lock.ask c)
    (hp : p.inside Phase.lined c = false) (hq : q.inside Phase.lined c = true) : Lined q where
  nodup := by
    rw [hk, line_ask h.taken, List.nodup_append_comm]
    refine List.nodup_cons.mpr ⟨fun hc => ?_, h.nodup⟩
    cases hp.symm.trans ((h.mem c).mp hc)
  taken hn := absurd (hk ▸ hn) (holder_ask_ne_none _ _)
  mem b := by
    rw [hk, line_ask h.taken, List.mem_append, List.mem_singleton, h.mem]
    by_cases hb : c = b
    · subst hb
      simp [hq]
    · simp [inside_congr (ho b hb), Ne.symm hb]

lemma Lined.leave (h : Lined p) (ho : ∀ b, c ≠ b → q.phaseOf b = p.phaseOf b) (hh : p.lock.holder = some c)
    (hk : q.lock = p.release.lock) (hq : q.inside Phase.lined c = false) : Lined q := by
  have line : p.lock.line = c :: q.lock.line := hk ▸ line_release hh
  have nodup : c ∉ q.lock.line ∧ q.lock.line.Nodup := List.nodup_cons.mp (line ▸ h.nodup)
  refine ⟨nodup.2, hk ▸ taken_release p, fun b => ?_⟩
  by_cases hb : c = b
  · subst hb
    rw [hq]
    exact iff_of_false nodup.1 nofun
  · rw [inside_congr (ho b hb), ← h.mem, line, List.mem_cons]
    exact (or_iff_right (Ne.symm hb)).symm

lemma Lined.giveWay (h : Lined p) (ho : ∀ b, c ≠ b → q.phaseOf b = p.phaseOf b) (hh : p.lock.holder ≠ some c)
    (hk : q.lock = { p.lock with queue := p.lock.queue.filter (· ≠ c) }) (hq : q.inside Phase.lined c = false) :
    Lined q := by
  have line : q.lock.line = p.lock.line.filter (· ≠ c) := by
    rw [hk, Lock.line, Lock.line, List.filter_append]
    congr 1
    cases hx : p.lock.holder with
    | none => rfl
    | some x =>
      have hne : x ≠ c := fun he => hh (he ▸ hx)
      simp [hne]
  refine ⟨line ▸ h.nodup.filter _, fun hn => ?_, fun b => ?_⟩
  · rw [hk] at hn ⊢
    simp [h.taken hn]
  · rw [line, List.mem_filter, h.mem]
    by_cases hb : c = b
    · subst hb
      simp [hq]
    · simp [inside_congr (ho b hb), Ne.symm hb]

lemma lock_settle (p : Provider) (c : CallId) (y : Request) (r : Except Failure Response) :
    (p.settle c y r).lock = p.lock := by
  obtain ⟨k, z, -, -, he⟩ := settle_eq p c y r
  rw [he]
  rfl

lemma lined_of_setPhase {ph' : Phase} (hp : p.phaseOf c = some ph') (h : ph.lined) :
    (p.setPhase c ph).inside Phase.lined c = true := (inside_of_phase (phaseOf_setPhase_self hp)).trans h

lemma unlined_of_setPhase (h : ph.lined = false) : (p.setPhase c ph).inside Phase.lined c = false := by
  rw [inside, phaseOf_setPhase, if_pos rfl]
  cases p.phaseOf c with
  | none => rfl
  | some => exact h

lemma unlined_settle (p : Provider) (c : CallId) (y : Request) (r : Except Failure Response) :
    (p.settle c y r).inside Phase.lined c = false := by
  obtain ⟨k, z, -, -, he⟩ := settle_eq p c y r
  rw [he]
  exact unlined_of_setPhase (p := { p.note _ with correlator := k }) rfl

lemma Lined.drop (h : Lined p) (hp : p.phaseOf c = some ph)
    (ho : ∀ b, c ≠ b → (p.drop c).phaseOf b = p.phaseOf b) : Lined (p.drop c) := by
  have hk : (p.giveBack ph).lock = p.lock := by
    simp only [giveBack]
    split <;> rfl
  have hq : (p.drop c).inside Phase.lined c = false := inside_of_gone (phaseOf_drop hp)
  have hd : p.drop c = ({ p.giveBack ph with calls := (p.giveBack ph).calls.erase c }.unlock c) := by
    simp only [Provider.drop, hp]
  rw [unlock] at hd
  split at hd
  · rename_i hh
    exact h.leave ho (hk ▸ hh) (by rw [hd]; exact lock_release hk) hq
  · rename_i hh
    exact h.giveWay ho (fun hx => hh (hk.symm ▸ hx)) (by rw [hd, hk]) hq

theorem Lined.calm (h : Lined p) (hl : Ledger p) (hg : Guarded p) (hm : Calm F p a q) : Lined q := by
  have others : ∀ c, a = some c → ∀ b, c ≠ b → q.phaseOf b = p.phaseOf b := fun c ha b hb =>
    calm_others hm b (ha ▸ fun he => hb (Option.some.inj he))
  have works : ∀ {c ph}, a = some c → p.phaseOf c = some ph → ph.lined → q.lock = p.lock →
      q.inside Phase.lined c = true → Lined q := fun ha hp hx hk hq =>
    h.stay (others _ ha) hk (by rw [hq, inside_of_phase hp, hx])
  have ends : ∀ {c ph}, a = some c → p.phaseOf c = some ph → ph.lined = false → q.lock = p.lock →
      q.inside Phase.lined c = false → Lined q := fun ha hp hx hk hq =>
    h.stay (others _ ha) hk (by rw [hq, inside_of_phase hp, hx])
  have leaves : ∀ {c}, a = some c → p.lock.holder = some c → q.lock = p.release.lock →
      q.inside Phase.lined c = false → Lined q := fun ha hh hk hq => h.leave (others _ ha) hh hk hq
  cases hm with
  | call op =>
    exact h.stay (others _ rfl) rfl (by
      rw [inside_of_gone (phaseOf_nextCall hl.known), inside_of_phase (phaseOf_of_call (get?_newCall p op))]
      rfl)
  | seek hs he =>
    have hp := phaseOf_of_call hs
    exact h.enter (others _ rfl) rfl (inside_of_phase hp) (lined_of_setPhase (p := { p with lock := _ }) hp rfl)
  | claim hs hd hr =>
    rename_i c op r n t k
    have hp := phaseOf_of_call hs
    exact h.enter (others _ rfl) rfl (inside_of_phase hp)
      (lined_of_setPhase (p := { p with nextId := n, correlator := k, lock := _, notes := _ }) hp rfl)
  | refuse hs hd hr => exact ends rfl (phaseOf_of_call hs) rfl (lock_settle _ _ _ _) (unlined_settle _ _ _ _)
  | collect hp => exact ends rfl hp rfl rfl (inside_of_gone (by simp [phaseOf]))
  | drop hp => exact h.drop hp (others _ rfl)
  | read hp =>
    rename_i c s epoch
    have hq : (p.readNotification c s epoch).inside Phase.lined c = false := by
      rw [readNotification]
      split
      · exact unlined_of_setPhase (p := { p with correlator := _ }) rfl
      · exact unlined_of_setPhase rfl
    have hk := (readNotification_rest p c s epoch).1
    rcases hp with ⟨hs, -⟩ | hp
    · exact ends rfl (phaseOf_of_call hs) rfl hk hq
    · exact ends rfl hp rfl hk hq
  | leave hh he r => exact leaves rfl hh.2 rfl (unlined_of_setPhase rfl)
  | yield hh =>
    -- it goes to the end of the line
    rename_i c
    have hp : p.release.phaseOf c = some (.locking .ensureConnected) := (phaseOf_release p c).trans hh.1
    have out : Lined (p.release.setPhase c .start) := h.leave
      (fun b hb => (phaseOf_setPhase _ _ _ _).trans ((if_neg hb).trans (phaseOf_release p b))) hh.2 rfl
      (unlined_of_setPhase rfl)
    refine out.enter (fun b hb => ?_) rfl (unlined_of_setPhase rfl)
      (lined_of_setPhase (p := { p.release with lock := _ }) hp rfl)
    rw [phaseOf_setPhase, if_neg hb, phaseOf_release]
    exact others c rfl b hb
  | attempt hh | reset hh | write hh => exact works rfl hh.1 rfl rfl (lined_of_setPhase (by exact hh.1) rfl)
  | replace hh | disconnect hh => exact works rfl hh.1 rfl rfl (lined_of_setPhase (by exact hh.1) rfl)
  | giveUp hgu => exact leaves rfl (givesUp_holder hg hgu).1 (lock_settle _ _ _ _) (unlined_settle _ _ _ _)
  | letGo hp | pause hp | retry hp | resetClosed hp | resetOpened hp | hand hp | progress _ hp | breakPipe hp =>
    exact works rfl hp rfl rfl (lined_of_setPhase (by exact hp) rfl)
  | connect hp | exhaust hp =>
    exact leaves rfl (hg.holds _ _ hp rfl) (lock_release (by rfl)) (unlined_of_setPhase rfl)
  | written hp => exact leaves rfl (hg.holds _ _ hp rfl) rfl (unlined_of_setPhase rfl)
  | reclaim hp hm hr => exact ends rfl hp rfl rfl (unlined_of_setPhase rfl)
  | reclaimRefused hp | receive hp | closedOut hp | timeOut hp =>
    exact ends rfl hp rfl (lock_settle _ _ _ _) (unlined_settle _ _ _ _)
  | take | elapse | pop => exact h.same rfl rfl
  | deposit hr v =>
    obtain ⟨ms, he⟩ := p.leave_eq _ v
    rw [he]
    exact h.same rfl rfl
  | work | retire => exact h.same rfl rfl
  | resume =>
    unfold resume
    dsimp only
    split <;> exact h.same rfl rfl

lemma Lined.upheaval (h : Lined p) (hg : Guarded p) (hu : Upheaval p q) : Lined q := by
  cases hu with
  | tear hp hf =>
    rename_i c l next
    have others : ∀ b, c ≠ b → (p.tornDown c next).phaseOf b = p.phaseOf b := fun b hb => by
      rw [phaseOf, TearsDown.others ⟨l, next, hp, hf, rfl⟩ hb, phaseOf]
    cases next with
    | connect => exact h.stay others rfl (by rw [inside_of_phase hp]; exact lined_of_setPhase (by exact hp) rfl)
    | disconnect => exact h.leave others (hg.holds c _ hp rfl) (lock_release (by rfl)) (unlined_of_setPhase rfl)
  | orphan => exact h.same rfl rfl
  | fail hr hs f =>
    simp only [fault, hs]
    exact h.same rfl rfl

lemma Lined.steps (h : Lined p) (hl : Ledger p) (hg : Guarded p) (es : List Event) : Lined (p.steps es) :=
  (invariant_of_moves (F := fun _ => True) (I := fun p => (Ledger p ∧ Guarded p) ∧ Lined p)
    (fun _ _ _ ⟨⟨hl, hg⟩, h⟩ hm => ⟨⟨hl.calm hm, hg.calm hl.known hm⟩, h.calm hl hg hm⟩)
    (fun _ _ ⟨⟨hl, hg⟩, h⟩ hu => ⟨⟨hl.upheaval hu, hg.upheaval hu⟩, h.upheaval hg hu⟩)
    ⟨⟨hl, hg⟩, h⟩ fun _ _ _ _ => trivial).2

theorem lined_steps (endpoint : Endpoint) (config : Config) (es : List Event) :
    Lined ((new endpoint config).steps es) :=
  (lined_new endpoint config).steps (ledger_new endpoint config) (guarded_new endpoint config) es

def Sole (p : Provider) (c : CallId) : Prop := ∀ b, b ≠ c → p.calls.get? b = none

lemma Lined.holder (h : Lined p) (hs : p.Sole c) :
    p.lock.holder = if p.inside Phase.lined c then some c else none := by
  have only : ∀ b, b ∈ p.lock.line → b = c := fun b hb => by
    by_contra hne
    have hn : p.inside Phase.lined b = false := inside_of_gone (Option.map_eq_none_iff.mpr (hs b hne))
    cases hn.symm.trans ((h.mem b).mp hb)
  cases hx : p.lock.holder with
  | none =>
    rw [if_neg]
    intro hc
    have hm := (h.mem c).mpr hc
    rw [Lock.line, hx, h.taken hx] at hm
    cases hm
  | some b =>
    have hb : b ∈ p.lock.line := by simp [Lock.line, hx]
    obtain rfl := only b hb
    rw [if_pos ((h.mem b).mp hb)]

variable {conn : Connection} {o : ℕ → Except Failure Unit}

lemma joining_ends (ho : Orderly p) (hp : p.phaseOf c = some (.joining l .disconnect)) : p.CanReturn c o := by
  obtain ⟨n, hn⟩ := joined_ends ho.guarded hp
  have hq := (phaseOf_listens p c l n).trans hp
  refine .listens (n := n) (l := l) (.after (e := .turn c) ?_ (decide_eq_true rfl) rfl)
  generalize p.steps (List.replicate n (.listen l)) = m at *
  obtain ⟨op, hc⟩ := call_of_phase hq
  have ht : m.step (.turn c) = m.tornDown c .disconnect := by simp only [Provider.step, turn, hc, join, hn, if_true]
  rw [ht]
  exact canReturn_done (dissolves_tornDown hq).done

lemma closing_ends (ho : Orderly p) (hp : p.phaseOf c = some (.closing conn .disconnect)) : p.CanReturn c o := by
  refine .after (e := .closed c) ?_ (decide_eq_true rfl) rfl
  rcases dissolves_closed hp with ⟨hj, -⟩ | hd
  · exact joining_ends (ho.steps [.closed c]) hj
  · exact canReturn_done hd.done

lemma Asks.performs (h : p.Asks c) (hl : Lined p) (hs : p.Sole c) :
    ∃ m : Provider, m.Holds c .disconnect ∧ p.turn c = m.disconnectLocked c := by
  have hh := hl.holder hs
  rcases h with h | h
  · have hp : p.phaseOf c = some .start := phaseOf_of_call h
    rw [inside_of_phase hp, if_neg nofun] at hh
    refine ⟨p.askLock c .disconnect, holds_askLock hp hh, ?_⟩
    simp only [turn, h, begin, run, withLock, hh, perform]
  · rw [inside_of_phase h, if_pos (by rfl)] at hh
    obtain ⟨op, hc⟩ := call_of_phase h
    exact ⟨p, ⟨h, hh⟩, by simp only [turn, hc, hh, if_true, perform]⟩

theorem Departs.returns (h : p.Departs c) (hl : Lined p) (hs : p.Sole c) (ho : Orderly p) : p.CanReturn c o := by
  rcases h with h | ⟨conn, h | h⟩
  · obtain ⟨m, hm, hq⟩ := h.performs hl hs
    refine .after (e := .turn c) ?_ (decide_eq_true rfl) rfl
    have ht : p.step (.turn c) = m.disconnectLocked c := hq
    cases hsl : m.slot with
    | none =>
      rw [ht, disconnectLocked, hsl]
      exact canReturn_done (phaseOf_setPhase_self ((phaseOf_release m c).trans hm.1))
    | some conn =>
      have hp : (p.step (.turn c)).phaseOf c = some (.closing conn .disconnect) := by
        rw [ht, disconnectLocked, hsl]
        exact phaseOf_setPhase_self (p := { m with slot := none }.publish .closing) hm.1
      exact closing_ends (ho.steps [.turn c]) hp
  · exact closing_ends ho h
  · exact joining_ends ho h

end SocketRpc.Provider
