import SocketRpc.Proofs.Provider.Connections

namespace SocketRpc.Provider

variable {p : Provider} {c : CallId} {l : ListenerId} {d : Dispatch} {ph : Phase} {r : Except Failure Reply}

def callers (p : Provider) : List CallId := p.calls.keys

@[simp] lemma callers_setPhase : (p.setPhase c ph).callers = p.callers :=
  Table.keys_modify _ _ _

@[simp] lemma callers_finish : (p.finish c r).callers = p.callers :=
  callers_setPhase

@[simp] lemma callers_release : p.release.callers = p.callers := by
  rw [callers, calls_release, callers]

@[simp] lemma callers_releaseAndFinish : (p.releaseAndFinish c r).callers = p.callers := by
  simp [releaseAndFinish]

@[simp] lemma callers_askLock {e : Errand} : (p.askLock c e).callers = p.callers :=
  callers_setPhase

lemma callers_withLock {e : Errand} {act : Provider → Provider}
    (h : ∀ q : Provider, (act q).callers = q.callers) : (p.withLock c e act).callers = p.callers := by
  rw [withLock]
  split <;> simp [h]

lemma callers_connectLocked : (p.connectLocked c).callers = p.callers := by
  rw [connectLocked]
  split
  · exact callers_setPhase
  · split
    · exact callers_releaseAndFinish
    · exact callers_setPhase

lemma callers_disconnectLocked : (p.disconnectLocked c).callers = p.callers := by
  rw [disconnectLocked]
  split
  · exact callers_releaseAndFinish
  · exact callers_setPhase

lemma callers_settle {y : Request} {z : Except Failure Response} :
    (p.settle c y z).callers = p.callers := by
  obtain ⟨r, hr⟩ := calls_settle p c y z
  rw [callers, hr, Table.keys_modify, callers]

lemma callers_failSend {f : Failure} : (p.failSend c d f).callers = p.callers :=
  (callers_settle).trans (callers_release)

lemma callers_perform {e : Errand} : (p.perform c e).callers = p.callers := by
  cases e with
  | connect => exact callers_connectLocked
  | disconnect => exact callers_disconnectLocked
  | isLive => exact callers_releaseAndFinish
  | ensureConnected =>
    rw [perform, ensureLocked]
    split
    · exact callers_releaseAndFinish
    · exact (callers_withLock fun q => callers_connectLocked).trans (callers_release)
  | send d =>
    rw [perform, sendLocked]
    split
    · exact callers_failSend
    · split
      · exact callers_failSend
      · split <;> exact callers_setPhase

lemma callers_await {start : Nat} : (p.await c d start).callers = p.callers := by
  rw [await]
  split
  · exact callers_settle
  · exact callers_settle
  · split
    · exact callers_settle
    · rfl

lemma callers_begin {op : Operation} : (p.begin c op).callers = p.callers := by
  cases he : op.errand? with
  | some e =>
    rw [begin_of_errand he]
    exact callers_withLock fun q => callers_perform
  | none =>
    obtain ⟨r, n, -, hb⟩ | ⟨s, rfl⟩ := draw_of_errand_none (p := p) (c := c) he
    · rw [hb, beginSend]
      split
      · exact callers_settle
      · exact callers_withLock fun q => callers_perform
    · rw [begin, readNotification]
      split <;> exact callers_setPhase

lemma callers_join {next : AfterTeardown} : (p.join c l next).callers = p.callers := by
  rw [join]
  split
  · cases next with
    | connect => exact callers_setPhase
    | disconnect => exact callers_releaseAndFinish
  · rfl

lemma callers_hand {cause : ResetCause} {s : SocketId} : (p.hand c d cause s).callers = p.callers := by
  rw [hand]
  split
  · rw [resetFailed_eq]
    exact callers_failSend
  · split
    · rw [resetFailed_eq]
      exact callers_failSend
    · split
      · rfl
      · exact callers_setPhase

lemma callers_turn : (p.turn c).callers = p.callers := by
  rw [turn]
  split
  · rfl
  · split
    · exact callers_begin
    · split
      · exact callers_perform
      · rfl
    · exact callers_join
    · split
      · exact callers_setPhase
      · rfl
    · exact callers_hand
    · exact callers_await
    · rw [readNotification]
      split <;> exact callers_setPhase
    · rfl

lemma callers_opened {u : Except Failure Unit} : (p.opened c u).callers = p.callers := by
  simp only [opened]
  split
  · exact callers_releaseAndFinish
  · split
    · exact callers_setPhase
    · exact callers_releaseAndFinish
  · exact callers_hand.trans (callers_setPhase)
  · rw [resetFailed_eq]
    exact callers_failSend
  · rfl

lemma callers_closed : (p.closed c).callers = p.callers := by
  rw [closed]
  split
  · exact callers_join.trans (callers_setPhase)
  · exact callers_setPhase
  · rfl

lemma callers_awaitAfterReset : (p.awaitAfterReset c d).callers = p.callers := by
  rw [awaitAfterReset]
  split
  · split
    · exact callers_await.trans (callers_setPhase)
    · exact callers_settle
  · exact callers_await

lemma callers_sink {u : SinkAnswer} : (p.sink c u).callers = p.callers := by
  rw [sink]
  split
  · split
    · exact callers_setPhase
    · rename_i d out after hp _ _ _
      have h : (p.release.setPhase c (.awaiting d p.now)).callers = p.callers := by simp
      dsimp only
      split
      · exact callers_awaitAfterReset.trans h
      · exact callers_await.trans h
    · split
      · exact callers_setPhase
      · exact callers_failSend
  · rfl

lemma calls_listen (p : Provider) (l : ListenerId) : (p.listen l).calls = p.calls := by
  rw [listen]
  split
  · rfl
  · split
    · rfl
    · split
      · rfl
      · split <;> try rfl
        unfold resume
        dsimp only
        split <;> rfl

lemma calls_takeChunk (p : Provider) (l : ListenerId) (framer : Framer) (chunk : Bytes) :
    (p.takeChunk l framer chunk).calls = p.calls := by
  rcases hm : (framer.push chunk).messages with ⟨vs, bad, left⟩
  obtain ⟨ns, h⟩ := p.depositAll_eq l vs
  simp only [takeChunk, hm, h]
  cases (p.correlator.depositAll vs).2 with
  | some f => exact calls_fault _ _ _
  | none => rfl

lemma calls_arrive (p : Provider) (l : ListenerId) (chunk : Chunk) : (p.arrive l chunk).calls = p.calls := by
  rw [arrive]
  split
  · rfl
  · split
    · split
      · exact calls_fault _ _ _
      · rfl
      · exact calls_takeChunk _ _ _ _
    · rfl

theorem known_step {e : Event} (hc : (p.calls.get? c).isSome) (hd : e ≠ .drop c) (ht : e ≠ .collect c) :
    ((p.step e).calls.get? c).isSome := by
  have same : ∀ {q : Provider}, q.calls = p.calls → (q.calls.get? c).isSome := fun h => by rwa [h]
  have keeps : ∀ {q : Provider}, q.callers = p.callers → (q.calls.get? c).isSome := fun h => by
    obtain ⟨call, hcall⟩ := Option.isSome_iff_exists.mp hc
    have hm : c ∈ p.callers := Table.mem_keys.mpr ⟨call, hcall⟩
    obtain ⟨call', h'⟩ := Table.mem_keys.mp (h ▸ hm)
    rw [h']
    rfl
  have others : ∀ {b}, b ≠ c → ((p.calls.erase b).get? c).isSome := fun h => by
    rwa [Table.get?_erase, if_neg h]
  cases e with
  | call op =>
    show ((p.calls.set p.nextCall { op }).get? c).isSome
    rw [Table.get?_set]
    split
    · rfl
    · exact hc
  | turn b => exact keeps callers_turn
  | listen l => exact same (calls_listen p l)
  | arrive l chunk => exact same (calls_arrive p l chunk)
  | opened b r => exact keeps callers_opened
  | closed b => exact keeps callers_closed
  | sink b u => exact keeps callers_sink
  | collect b =>
    have hb : b ≠ c := fun he => ht (he ▸ rfl)
    rw [step, collect]
    split
    · exact others hb
    · exact hc
  | drop b =>
    have hb : b ≠ c := fun he => hd (he ▸ rfl)
    rw [step]
    cases hp : p.phaseOf b with
    | none => simpa [drop, hp] using hc
    | some ph =>
      rw [calls_drop hp]
      exact others hb
  | pop | take | elapse => exact hc

end SocketRpc.Provider
