import SocketRpc.Provider.Run
import SocketRpc.Proofs.Correlator
import SocketRpc.Proofs.Framing.Messages

/-! A strict listener does the same however the stream is cut. -/

namespace SocketRpc

namespace Correlator

def depositAll (c : Correlator) : List Json.Value → Correlator × Option Failure
  | [] => (c, none)
  | v :: rest =>
    match c.deposit v (isPush v) with
    | (.error (.duplicateResponseId id), _) => (c, some (.duplicateResponseId id))
    | (.error (.deserialization _), _) | (.error (.invalidMessage _), _) => c.depositAll rest
    | (.error e, _) => (c, some e)
    | (.ok _, d) => d.depositAll rest

variable {c d : Correlator} {v : Json.Value}

lemma depositAll_append (c : Correlator) (vs ws : List Json.Value) :
    c.depositAll (vs ++ ws) =
      match c.depositAll vs with
      | (d, none) => d.depositAll ws
      | (d, some e) => (d, some e) := by
  induction vs generalizing c with
  | nil => rfl
  | cons v vs ih =>
    rw [List.cons_append, depositAll, depositAll]
    split <;> first | rfl | exact ih _

end Correlator

namespace Provider

variable {p q : Provider} {l : ListenerId} {li : Listener}

def hearing (l : ListenerId) (chunks : List Bytes) : List Event :=
  chunks.flatMap fun chunk => [.arrive l (.ok (some chunk)), .listen l]

def Listener.Attentive (li : Listener) : Prop :=
  li.phase = .reading ∧ li.replacement = none ∧ li.released = false ∧ li.aborted = false

lemma Listener.Attentive.unfinished {li : Listener} (h : li.Attentive) : li.isFinished = false := by
  simp [isFinished, h.1]

def Hears (p : Provider) (l : ListenerId) : Prop :=
  ∃ li, p.listeners.get? l = some li ∧ li.Attentive ∧ li.framer = {}

def listenerPhase (p : Provider) (l : ListenerId) : Option ListenerPhase :=
  (p.listeners.get? l).map Listener.phase

def view (p : Provider) (l : ListenerId) : Correlator × ConnectionState × Option ListenerPhase :=
  (p.correlator, p.state, p.listenerPhase l)

/-- The same after messages in order, the first fault of which ends the listener. -/
def viewAfter (p : Provider) (vs : List Json.Value) :
    Correlator × ConnectionState × Option ListenerPhase :=
  match p.correlator.depositAll vs with
  | (c, none) => (c, p.state, some .reading)
  | (c, some e) => (c.fail e.message, .disconnected, some (.finished (.failed e)))

lemma leave_eq (p : Provider) (l : ListenerId) (v : Json.Value) :
    ∃ ns, p.leave l v = ((p.correlator.deposit v (isPush v)).1,
      { p with correlator := (p.correlator.deposit v (isPush v)).2, notes := p.notes ++ ns }) := by
  rcases h : p.correlator.deposit v (isPush v) with ⟨r, k⟩
  simp only [leave, h]
  simp only [noteDeposit]
  split <;> exact ⟨_, by simp only [note, List.append_assoc]; rfl⟩

lemma depositAll_eq (p : Provider) (l : ListenerId) (vs : List Json.Value) :
    ∃ ns, p.depositAll l vs =
      ({ p with correlator := (p.correlator.depositAll vs).1, notes := p.notes ++ ns },
        (p.correlator.depositAll vs).2) := by
  induction vs generalizing p with
  | nil => exact ⟨[], by simp [depositAll, Correlator.depositAll]⟩
  | cons v vs ih =>
    obtain ⟨ns, hl⟩ := p.leave_eq l v
    rcases hd : p.correlator.deposit v (isPush v) with ⟨_ | o, k⟩
    · rename_i e
      obtain ⟨he, rfl⟩ := Correlator.deposit_error hd
      simp only [depositAll, hl, hd, Correlator.depositAll]
      cases he with
      | deserialization x | invalidMessage x =>
        obtain ⟨ms, hm⟩ := ih { p with notes := p.notes ++ ns }
        exact ⟨ns ++ ms, by simpa only [isSkipped, if_true, List.append_assoc] using hm⟩
      | duplicateResponseId id => exact ⟨ns, rfl⟩
    · obtain ⟨ms, hm⟩ := ih { p with correlator := k, notes := p.notes ++ ns }
      exact ⟨ns ++ ms, by simpa only [depositAll, hl, hd, Correlator.depositAll, List.append_assoc]
        using hm⟩

lemma hear_finished (h : p.listeners.get? l = some li) {r : ListenerEnd} (hr : li.phase = .finished r)
    (chunk : Bytes) : (p.arrive l (.ok (some chunk))).listen l = p := by
  have ha : p.arrive l (.ok (some chunk)) = p := by
    simp only [arrive, h, hr]
  simp only [ha, listen, h, Listener.isFinished, hr, if_true]

lemma hearing_cons (l : ListenerId) (chunk : Bytes) (chunks : List Bytes) :
    p.steps (hearing l (chunk :: chunks)) =
      ((p.arrive l (.ok (some chunk))).listen l).steps (hearing l chunks) := rfl

lemma hearing_finished (h : p.listeners.get? l = some li) {r : ListenerEnd}
    (hr : li.phase = .finished r) (chunks : List Bytes) : p.steps (hearing l chunks) = p := by
  induction chunks with
  | nil => rfl
  | cons chunk chunks ih => rw [hearing_cons, hear_finished h hr, ih]

lemma hear_chunk (h : p.listeners.get? l = some li) (ha : li.Attentive) {chunk : Bytes}
    {vs : List Json.Value} {bad : Option Malformed} {left : Framer} {c : Correlator}
    (hm : (li.framer.push chunk).messages = (vs, bad, left))
    (hd : p.correlator.depositAll vs = (c, none)) :
    ∃ q, (p.arrive l (.ok (some chunk))).listen l = q ∧ q.config = p.config ∧ q.correlator = c ∧
      q.state = p.state ∧ ∃ lj, q.listeners.get? l = some lj ∧ lj.Attentive ∧
        lj.framer = if bad.isSome then {} else left := by
  obtain ⟨hr, hn, hf, hb⟩ := ha
  obtain ⟨ns, hp⟩ := p.depositAll_eq l vs
  rw [hd] at hp
  simp only [arrive, h, hr, hn, hf, hb, takeChunk, hm, hp, listen, setListener, Table.get?_modify,
    if_true, Option.map_some, Listener.isFinished, Bool.false_eq_true, if_false]
  refine ⟨_, rfl, rfl, rfl, rfl, ?_⟩
  simp only [Table.get?_modify, h, if_true, Option.map_some]
  exact ⟨_, rfl, ⟨rfl, hn, hf, hb⟩, rfl⟩

lemma hear_fault (h : p.listeners.get? l = some li) (ha : li.Attentive)
    (hs : p.config.policy = .strict) {chunk : Bytes} {vs : List Json.Value} {bad : Option Malformed}
    {left : Framer} {c : Correlator} {e : Failure}
    (hm : (li.framer.push chunk).messages = (vs, bad, left))
    (hd : p.correlator.depositAll vs = (c, some e)) :
    ∃ q lj, (p.arrive l (.ok (some chunk))).listen l = q ∧
      q.view l = (c.fail e.message, .disconnected, some (.finished (.failed e))) ∧
      q.listeners.get? l = some lj ∧ lj.phase = .finished (.failed e) := by
  obtain ⟨hr, hn, hf, hb⟩ := ha
  obtain ⟨ns, hp⟩ := p.depositAll_eq l vs
  rw [hd] at hp
  simp only [arrive, h, hr, hn, hf, hb, takeChunk, hm, hp, fault, hs, listen, endListener,
    setListener, note, publish, dismissing, Table.get?_modify, if_true, Option.map_some,
    Listener.isFinished]
  exact ⟨_, _, rfl, by simp [view, listenerPhase, h], by simp [h]; rfl, rfl⟩

lemma hearing_view (h : p.listeners.get? l = some li) (ha : li.Attentive)
    (hs : p.config.policy = .strict) {chunks : List Bytes} (hm : (li.framer.feed chunks).2.1 = []) :
    (p.steps (hearing l chunks)).view l = p.viewAfter (li.framer.feed chunks).1 := by
  induction chunks generalizing p li with
  | nil => simp [hearing, steps, view, listenerPhase, viewAfter, h, ha.1, Framer.feed,
      Correlator.depositAll]
  | cons chunk chunks ih =>
    rw [hearing_cons]
    rcases hf : (li.framer.push chunk).messages with ⟨vs, bad, left⟩
    simp only [Framer.feed, hf, List.append_eq_nil_iff] at hm ⊢
    rw [viewAfter]
    rw [Correlator.depositAll_append]
    rcases hd : p.correlator.depositAll vs with ⟨c, _ | e⟩
    · obtain ⟨q, hq, hconf, hcorr, hstate, lj, hl, hatt, hfr⟩ := hear_chunk h ha hf hd
      have := ih hl hatt (hconf ▸ hs) (hfr ▸ hm.2)
      rw [hq, this, viewAfter, hcorr, hstate, hfr]
    · obtain ⟨q, lj, hq, hv, hl, hph⟩ := hear_fault h ha hs hf hd
      rw [hq, hearing_finished hl hph, hv]

/-- Two cuts of one stream, none of which makes the buffer complain, show the same: what comes of the
messages of the whole stream in order. -/
theorem hearing_view_of_flatten_eq (hp : p.Hears l) (hs : p.config.policy = .strict)
    {chunks others : List Bytes} (hc : chunks.flatten = others.flatten)
    (clean : (Framer.feed {} chunks).2.1 = []) (cleanOthers : (Framer.feed {} others).2.1 = [])
    (shown : ∀ v ∈ (Framer.feed {} chunks).1, ¬ v.IsBare)
    (shownOthers : ∀ v ∈ (Framer.feed {} others).1, ¬ v.IsBare) :
    (p.steps (hearing l chunks)).view l = p.viewAfter (Framer.messages ⟨chunks.flatten⟩).1 ∧
      (p.steps (hearing l others)).view l = p.viewAfter (Framer.messages ⟨chunks.flatten⟩).1 := by
  obtain ⟨li, hl, ha, hf⟩ := hp
  have hv : ∀ cs : List Bytes, (Framer.feed {} cs).2.1 = [] →
      (∀ v ∈ (Framer.feed {} cs).1, ¬ v.IsBare) →
      (p.steps (hearing l cs)).view l = p.viewAfter (Framer.messages ⟨cs.flatten⟩).1 := by
    intro cs hm hw
    have hmess := Framer.feed_eq_messages Framer.drained_new hm hw
    simp only [Framer.push, List.nil_append] at hmess
    rw [hearing_view hl ha hs (by rw [hf]; exact hm), hf, hmess]
  exact ⟨hv chunks clean shown, hc ▸ hv others cleanOthers shownOthers⟩

def attended (config : Config) : Provider where
  endpoint := ⟨"IpcProvider", "node.ipc"⟩
  config := config
  correlator := (({} : Correlator).register (.number 5)).2
  listeners := (Table.empty).set 0 { reader := 0, phase := .reading }

lemma attended_hears (config : Config) : (attended config).Hears 0 :=
  ⟨{ reader := 0, phase := .reading }, rfl, ⟨rfl, rfl, rfl, rfl⟩, rfl⟩

theorem hearing_view_attended :
    ((attended {}).steps (hearing 0
        [Utf8.ofText "\x7b\"id\":5,\"res", Utf8.ofText "ult\":1\x7d \x7b\x7d\x7b\"id"])).view 0 =
      (attended {}).viewAfter
        (Framer.messages ⟨Utf8.ofText "\x7b\"id\":5,\"result\":1\x7d \x7b\x7d\x7b\"id"⟩).1 ∧
    ((attended {}).steps (hearing 0
        [Utf8.ofText "\x7b\"id\":5,\"result\":1\x7d ", Utf8.ofText "\x7b",
          Utf8.ofText "\x7d\x7b\"id"])).view 0 =
      (attended {}).viewAfter
        (Framer.messages ⟨Utf8.ofText "\x7b\"id\":5,\"result\":1\x7d \x7b\x7d\x7b\"id"⟩).1 := by
  have hc : [Utf8.ofText "\x7b\"id\":5,\"res", Utf8.ofText "ult\":1\x7d \x7b\x7d\x7b\"id"].flatten =
      Utf8.ofText "\x7b\"id\":5,\"result\":1\x7d \x7b\x7d\x7b\"id" := by decide +kernel
  rw [← hc]
  exact hearing_view_of_flatten_eq (attended_hears {}) (by decide) (by decide +kernel)
    (by decide +kernel) (by decide +kernel) (by decide +kernel) (by decide +kernel)

end Provider

end SocketRpc
