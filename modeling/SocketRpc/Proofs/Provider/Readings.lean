import SocketRpc.Proofs.Framing.Written
import SocketRpc.Proofs.Listener.Handed
import SocketRpc.Proofs.Provider.Hands

namespace SocketRpc.Provider

open Json (Value)

variable {F : Failure → Prop} {p q : Provider} {c : CallId} {l : ListenerId} {li : Listener} {s : SocketId}

instance (li : Listener) : Decidable li.Attentive := inferInstanceAs (Decidable (_ ∧ _))

structure Reading where
  listener : ListenerId
  socket : SocketId
  octets : Bytes
  messages : List Value

def reading? (p : Provider) : Event → Option Reading
  | .arrive l (.ok (some bs)) =>
    match p.listeners.get? l with
    | some li =>
      if li.Attentive then
        some ⟨l, li.reader, bs, ((p.arrive l (.ok (some bs))).deposits l).drop (p.deposits l).length⟩
      else none
    | none => none
  | _ => none

def readings (p : Provider) : List Event → List Reading
  | [] => []
  | e :: es => (p.reading? e).toList ++ (p.step e).readings es

def received (rs : List Reading) (s : SocketId) : Bytes :=
  (rs.filter fun r => r.socket = s).flatMap Reading.octets

def decoded (rs : List Reading) (s : SocketId) : List Value :=
  (rs.filter fun r => r.socket = s).flatMap Reading.messages

def reported (rs : List Reading) (l : ListenerId) : List Value :=
  (rs.filter fun r => r.listener = l).flatMap Reading.messages

lemma leave_deposits_other (p : Provider) {k : ListenerId} (hk : l ≠ k) (v : Value) :
    (p.leave l v).2.deposits k = p.deposits k := by
  unfold leave noteDeposit
  dsimp only
  split <;> simp [deposits_note, Note.deposit?, hk] <;> rfl

lemma depositAll_deposits_other (p : Provider) {k : ListenerId} (hk : l ≠ k) (vs : List Value) :
    (p.depositAll l vs).1.deposits k = p.deposits k := by
  induction vs generalizing p with
  | nil => rfl
  | cons v vs ih =>
    have hl := p.leave_deposits_other hk v
    rw [depositAll]
    split
    · rename_i q hq
      rw [hq] at hl
      exact (ih q).trans hl
    · rename_i f q hq
      rw [hq] at hl
      split
      · exact (ih q).trans hl
      · exact hl

lemma deposits_fault (p : Provider) (l k : ListenerId) (f : Failure) :
    (p.fault l f).deposits k = p.deposits k := by
  rw [fault]
  split <;> simp

structure Chunked (li lj : Listener) (f : Framer) : Prop where
  reader : lj.reader = li.reader
  replacement : lj.replacement = li.replacement
  buffer : lj.isFinished = false → lj.framer = {} ∨ f.messages.2.1 = none ∧ lj.framer = f.messages.2.2

lemma arrive_chunked (hl : p.listeners.get? l = some li) (ha : li.Attentive) (bs : Bytes) :
    ∃ n g, (p.arrive l (.ok (some bs))).calls = p.calls ∧
      (p.arrive l (.ok (some bs))).nextSocket = p.nextSocket ∧
      (p.arrive l (.ok (some bs))).listeners = p.listeners.modify l g ∧
      Chunked li (g li) (li.framer.push bs) ∧
      (p.arrive l (.ok (some bs))).deposits l =
        p.deposits l ++ (li.framer.push bs).messages.1.take n ∧
      ∀ k, l ≠ k → (p.arrive l (.ok (some bs))).deposits k = p.deposits k := by
  have ha' := ha
  obtain ⟨hr, hn, hf, hb⟩ := ha'
  simp only [arrive, hl, hr, hn, hf, hb, takeChunk]
  rcases hm : (li.framer.push bs).messages with ⟨vs, bad, left⟩
  obtain ⟨n, -, hd⟩ := p.depositAll_deposits l vs
  have ho := fun k (hk : l ≠ k) => p.depositAll_deposits_other hk vs
  obtain ⟨ns, hp⟩ := p.depositAll_eq l vs
  dsimp only
  rcases hq : p.depositAll l vs with ⟨q, _ | f⟩
  · rw [hq] at hd ho hp
    obtain ⟨rfl, -⟩ := Prod.mk.inj hp
    refine ⟨n, fun li => { li with framer := if bad.isSome then {} else left, phase := .resting }, rfl, rfl,
      rfl, ⟨rfl, rfl, fun _ => ?_⟩, hd, ho⟩
    cases bad with
    | none => exact Or.inr (by rw [hm]; exact ⟨rfl, rfl⟩)
    | some m => exact Or.inl rfl
  · rw [hq] at hd ho hp
    obtain ⟨rfl, -⟩ := Prod.mk.inj hp
    dsimp only at hd ho ⊢
    simp only [deposits_fault]
    cases hc : p.config.policy with
    | strict =>
      simp only [fault, hc]
      refine ⟨n, fun li => { li with phase := .finished (.failed f) }, rfl, rfl, rfl, ⟨rfl, rfl, fun hg => ?_⟩, hd, ho⟩
      cases hg
    | lenient =>
      simp only [fault, hc]
      exact ⟨n, fun li => { li with framer := {}, phase := .resting }, rfl, rfl, rfl,
        ⟨rfl, rfl, fun _ => Or.inl rfl⟩, hd, ho⟩

structure Read (p : Provider) (rs : List Reading) : Prop where
  allotted : Allotted p
  own : ∀ r ∈ rs, r.socket < p.nextSocket ∧ ∀ k, p.kept k = some r.socket → k = .reader r.listener
  single : ∀ r ∈ rs, ∀ r' ∈ rs, r.socket = r'.socket → r.listener = r'.listener
  written : ∀ s, Written (decoded rs s) (received rs s)
  buffers : ∀ l li, p.listeners.get? l = some li → li.isFinished = false →
    ∃ used, received rs li.reader = used ++ li.framer.pending ∧ Written (decoded rs li.reader) used ∧
      li.framer.Drained
  deposits : ∀ l, p.deposits l = reported rs l

lemma read_new (endpoint : Endpoint) (config : Config) : Read (new endpoint config) [] where
  allotted := allotted_new endpoint config
  own := nofun
  single := nofun
  written _ := .nil _
  buffers _ _ h := by cases h
  deposits _ := rfl

lemma Passes.nextSocket_le (h : Passes p q) : p.nextSocket ≤ q.nextSocket := by
  cases h with
  | rest hn | pass hn => exact Nat.le_of_eq hn.symm
  | gain hn => exact hn ▸ Nat.le_succ _

lemma Passes.own (h : Passes p q) {r : Reading} (hr : r.socket < p.nextSocket)
    (ho : ∀ k, p.kept k = some r.socket → k = .reader r.listener) (k : Keeper)
    (hk : q.kept k = some r.socket) : k = .reader r.listener := by
  cases h with
  | rest _ h => exact ho k (h k _ hk)
  | gain _ h =>
    rcases h k _ hk with hk | ⟨-, hs⟩
    · exact ho k hk
    · exact absurd hr (hs ▸ Nat.lt_irrefl _)
  | pass _ hj hp _ h =>
    rcases h k _ hk with hk | ⟨-, hs⟩
    · exact ho k hk
    · exact absurd (ho _ (hs ▸ hp)) (hj _)

lemma buffer_empty {rs : List Reading} (h : ∀ s, Written (decoded rs s) (received rs s)) (hf : li.framer = {}) :
    ∃ used, received rs li.reader = used ++ li.framer.pending ∧ Written (decoded rs li.reader) used ∧
      li.framer.Drained :=
  ⟨_, by rw [hf]; exact (List.append_nil _).symm, h li.reader, hf ▸ Framer.drained_new⟩

lemma Read.still {rs : List Reading} (h : Read p rs) (hp : Passes p q) (hr : Retains p q)
    (hd : ∀ l, q.deposits l = p.deposits l) : Read q rs where
  allotted := h.allotted.pass hp
  own r hm := ⟨Nat.lt_of_lt_of_le (h.own r hm).1 hp.nextSocket_le, hp.own (h.own r hm).1 (h.own r hm).2⟩
  single := h.single
  written := h.written
  buffers l lj hl hf := by
    rcases hr l lj hl hf with he | ⟨li, hl', hf', hreader, hframer⟩
    · exact buffer_empty h.written he
    · rw [hreader, hframer]
      exact h.buffers l li hl' hf'
  deposits l := (hd l).trans (h.deposits l)

section Snoc

variable (rs : List Reading) (r : Reading)

lemma received_snoc (s : SocketId) :
    received (rs ++ [r]) s = received rs s ++ if r.socket = s then r.octets else [] := by
  simp only [received, List.filter_append, List.flatMap_append]
  split <;> simp [*]

lemma decoded_snoc (s : SocketId) :
    decoded (rs ++ [r]) s = decoded rs s ++ if r.socket = s then r.messages else [] := by
  simp only [decoded, List.filter_append, List.flatMap_append]
  split <;> simp [*]

lemma reported_snoc (l : ListenerId) :
    reported (rs ++ [r]) l = reported rs l ++ if r.listener = l then r.messages else [] := by
  simp only [reported, List.filter_append, List.flatMap_append]
  split <;> simp [*]

end Snoc

lemma Chunked.passes {g : Listener → Listener} {f : Framer} (hl : p.listeners.get? l = some li)
    (hc : q.calls = p.calls) (hn : q.nextSocket = p.nextSocket) (hq : q.listeners = p.listeners.modify l g)
    (hg : Chunked li (g li) f) : Passes p q := by
  refine .rest hn fun k s hk => ?_
  cases k with
  | reader k =>
    simp only [kept, hq, Table.get?_modify] at hk ⊢
    split at hk
    · rename_i he
      subst he
      rw [hl] at hk ⊢
      exact (congrArg some hg.reader).symm.trans hk
    · exact hk
  | next k =>
    simp only [kept, hq, Table.get?_modify] at hk ⊢
    split at hk
    · rename_i he
      subst he
      rw [hl] at hk ⊢
      exact hg.replacement.symm.trans hk
    · exact hk
  | call b => simpa only [kept, phaseOf, hc] using hk

lemma written_chunk {vs : List Value} {used : Bytes} {f : Framer} (hw : Written vs used) (bs : Bytes) (n : Nat) :
    ∃ used', used ++ (f.pending ++ bs) = used' ++ (f.push bs).messages.2.2.pending ∧
      Written (vs ++ (f.push bs).messages.1.take n) used' := by
  obtain ⟨mid, hm, hv⟩ := (f.push bs).messages_written
  refine ⟨used ++ mid, ?_, hw.append (hv.take n)⟩
  rw [List.append_assoc, ← hm]
  rfl

lemma Read.arrive {rs : List Reading} (h : Read p rs) (hl : p.listeners.get? l = some li)
    (ha : li.Attentive) (bs : Bytes) :
    Read (p.arrive l (.ok (some bs)))
      (rs ++ [⟨l, li.reader, bs, ((p.arrive l (.ok (some bs))).deposits l).drop (p.deposits l).length⟩]) := by
  obtain ⟨n, g, hc, hn, hq, hg, hd, ho⟩ := arrive_chunked hl ha bs
  have hp := hg.passes hl hc hn hq
  rw [hd, List.drop_left]
  generalize p.arrive l (.ok (some bs)) = q at hc hn hq hd ho hp ⊢
  have hkept : p.kept (.reader l) = some li.reader := by simp only [kept, hl, Option.map_some]
  obtain ⟨used, hu, hw, -⟩ := h.buffers l li hl ha.unfinished
  obtain ⟨used', hu', hw'⟩ := written_chunk hw bs n
  have hwritten : ∀ s, Written (decoded (rs ++ [⟨l, li.reader, bs, (li.framer.push bs).messages.1.take n⟩]) s)
      (received (rs ++ [⟨l, li.reader, bs, (li.framer.push bs).messages.1.take n⟩]) s) := fun s => by
    rw [decoded_snoc, received_snoc]
    split
    · rename_i hs
      subst hs
      rw [hu, List.append_assoc, hu']
      exact hw'.extend _
    · simpa using h.written s
  refine ⟨h.allotted.pass hp, fun r hr => ?_, fun r hr r' hr' he => ?_, hwritten, fun k lk hk hf => ?_,
    fun k => ?_⟩
  · rcases List.mem_append.mp hr with hr | hr
    · exact ⟨hn ▸ (h.own r hr).1, hp.own (h.own r hr).1 (h.own r hr).2⟩
    · obtain rfl := List.mem_singleton.mp hr
      have hs := h.allotted.given _ _ hkept
      exact ⟨hn ▸ hs, hp.own hs fun k hk => h.allotted.distinct _ _ _ hk hkept⟩
  · have reader : ∀ r ∈ rs, r.socket = li.reader → r.listener = l := fun r hr hs =>
      (Keeper.reader.inj ((h.own r hr).2 _ (hs ▸ hkept))).symm
    rcases List.mem_append.mp hr with hr | hr <;> rcases List.mem_append.mp hr' with hr' | hr'
    · exact h.single r hr r' hr' he
    · obtain rfl := List.mem_singleton.mp hr'
      exact reader r hr he
    · obtain rfl := List.mem_singleton.mp hr
      exact (reader r' hr' he.symm).symm
    · rw [List.mem_singleton.mp hr, List.mem_singleton.mp hr']
  · rw [hq, Table.get?_modify] at hk
    split at hk
    · rename_i he
      subst he
      rw [hl] at hk
      obtain rfl := Option.some.inj hk
      rcases hg.buffer hf with he | ⟨hb, he⟩
      · exact buffer_empty hwritten he
      · refine ⟨used', ?_, ?_, he ▸ Framer.messages_drained _ _ (Prod.ext rfl (Prod.ext hb rfl))⟩
        · rw [hg.reader, received_snoc, if_pos rfl, hu, List.append_assoc, hu', he]
        · rw [hg.reader, decoded_snoc, if_pos rfl]
          exact hw'
    · rename_i hne
      have hs : li.reader ≠ lk.reader := fun he => hne <| by
        have := h.allotted.distinct (.reader l) (.reader k) _ hkept (by simp only [kept, hk, Option.map_some, he])
        exact Keeper.reader.inj this
      rw [received_snoc, decoded_snoc, if_neg hs, if_neg hs, List.append_nil, List.append_nil]
      exact h.buffers k lk hk hf
  · rw [reported_snoc]
    split
    · rename_i he
      subst he
      rw [hd, h.deposits]
    · rename_i hne
      rw [ho k hne, h.deposits, List.append_nil]

lemma Hushes.deposits (h : Hushes p q) (l : ListenerId) : q.deposits l = p.deposits l := by
  obtain ⟨ns, hn, hq⟩ := h.notes
  have : ns.filterMap (Note.deposit? l) = [] := by
    refine List.filterMap_eq_nil_iff.mpr fun x hx => ?_
    cases x <;> first | rfl | cases hq _ hx
  rw [Provider.deposits, hn, List.filterMap_append, this, List.append_nil]
  rfl

lemma deposits_call (hs : Suited p) (hm : Calm F p (some c) q) (l : ListenerId) :
    q.deposits l = p.deposits l := by
  generalize ha : some c = a at hm
  cases calm_passage hs hm with
  | rest h => exact h.deposits l
  | takeOut _ _ h => exact h.deposits l
  | connect _ _ h =>
    rw [h.deposits l, spawn, deposits_note]
    exact List.append_nil _
  | deposit hn => cases ha.trans hn
  | read => rfl

lemma deposits_upheaval (hu : Upheaval p q) (l : ListenerId) : q.deposits l = p.deposits l := by
  rcases upheaval_passage hu with ⟨h, -⟩ | ⟨-, h⟩
  · exact h.deposits l
  · rw [h.deposits l, deposits_note, deposits_dismissing]
    exact List.append_nil _

lemma deposits_orphan (p : Provider) (l k : ListenerId) : (p.orphan l).deposits k = p.deposits k := by
  simp [orphan]

lemma deposits_resume (p : Provider) (l k : ListenerId) (s : SocketId) :
    (p.resume l s).deposits k = p.deposits k := by
  have h : ∀ q : Provider, q.notes = p.notes → (q.note (.resumed l)).deposits k = p.deposits k := fun q hq => by
    rw [deposits_note, deposits, hq]
    exact List.append_nil _
  unfold resume
  dsimp only
  split
  · exact h _ rfl
  · rw [deposits_publish]
    exact h _ rfl

lemma deposits_listen (p : Provider) (l k : ListenerId) : (p.listen l).deposits k = p.deposits k := by
  rw [listen]
  split
  · rfl
  · split
    · rfl
    · split
      · exact deposits_endListener p l _
      · split
        · rfl
        · exact deposits_resume p l k _
        · exact deposits_endListener p l _
        · rfl
        · rfl

lemma Read.calms {rs : List Reading} (ho : Orderly p) (h : Read p rs) (hm : Calms F (some c) p q) :
    Read q rs := by
  refine (chain_preserves (I := fun p => Orderly p ∧ Read p rs) (fun p q ⟨ho, h⟩ hm => ?_) ⟨ho, h⟩ hm).2
  obtain ⟨hp, hr⟩ := call_passes hm
  exact ⟨ho.calm hm, h.still hp hr (deposits_call ho.suited hm)⟩

lemma Read.upheaval {rs : List Reading} (h : Read p rs) (hu : Upheaval p q) : Read q rs :=
  h.still (upheaval_passes hu).1 (upheaval_passes hu).2 (deposits_upheaval hu)

lemma Read.about {rs : List Reading} {e : Event} (ho : Orderly p) (h : Read p rs)
    (hs : p.subject e = some c) : Read (p.step e) rs := by
  obtain ⟨m, hm, he⟩ := step_moves (F := fun _ => True) p e fun _ _ => trivial
  rw [hs] at hm
  rcases he with he | ⟨-, hu, -⟩
  · exact he ▸ h.calms ho hm
  · exact (h.calms ho hm).upheaval hu

lemma reading_arrive_none (chunk : Chunk) (h : ∀ li, p.listeners.get? l = some li → ¬ li.Attentive) :
    p.reading? (.arrive l chunk) = none ∧ p.arrive l chunk = p := by
  constructor
  · rcases chunk with _ | _ | bs
    · rfl
    · rfl
    · simp only [reading?]
      split
      · exact if_neg (h _ ‹_›)
      · rfl
  · rw [Provider.arrive]
    split
    · rfl
    · rename_i li hl
      split
      · rename_i hr hn hf hb
        exact absurd ⟨hr, hn, hf, hb⟩ (h li hl)
      · rfl

lemma Read.step {rs : List Reading} (ho : Orderly p) (h : Read p rs) (e : Event) :
    Read (p.step e) (rs ++ (p.reading? e).toList) := by
  have silent : p.reading? e = none → Read (p.step e) rs → Read (p.step e) (rs ++ (p.reading? e).toList) :=
    fun hn h => by rwa [hn, Option.toList_none, List.append_nil]
  have aside : ∀ {q}, Aside p none q → (∀ l, q.deposits l = p.deposits l) → Read q rs := fun ha hd =>
    h.still ha.passes ha.retains hd
  cases e with
  | call | turn | opened | closed | sink | collect | drop => exact silent rfl (h.about ho rfl)
  | listen l =>
    obtain ⟨hp, hr⟩ := listen_passes p l
    exact silent rfl (h.still hp hr (deposits_listen p l))
  | arrive l chunk =>
    by_cases ha : ∃ li, p.listeners.get? l = some li ∧ li.Attentive
    · obtain ⟨li, hl, ha⟩ := ha
      have hr : p.Reads l := ⟨li, hl, ha⟩
      obtain ⟨hp, hn, hf, hb⟩ := id ha
      rcases chunk with f | _ | bs
      · have he : p.step (.arrive l (.error f)) = p.fault l f := by
          simp only [Provider.step, Provider.arrive, hl, hp, hn, hf, hb]
        exact silent rfl (he ▸ aside (aside_fault hr f) fun k => deposits_fault p l k f)
      · have he : p.step (.arrive l (.ok none)) = p.orphan l := by
          simp only [Provider.step, Provider.arrive, hl, hp, hn, hf, hb]
        exact silent rfl (he ▸ aside (aside_orphan hr) (deposits_orphan p l))
      · have hread : p.reading? (.arrive l (.ok (some bs))) =
            some ⟨l, li.reader, bs, ((p.arrive l (.ok (some bs))).deposits l).drop (p.deposits l).length⟩ := by
          simp only [reading?, hl, if_pos ha]
        rw [hread]
        exact h.arrive hl ha bs
    · obtain ⟨hn, he⟩ := reading_arrive_none chunk fun li hl hat => ha ⟨li, hl, hat⟩
      exact silent hn (by rw [Provider.step, he]; exact h)
  | pop k =>
    refine silent rfl (aside (aside_same rfl rfl rfl) fun l => ?_)
    simp only [Provider.step, deposits_note]
    exact List.append_nil _
  | take s => exact silent rfl (aside (aside_same rfl rfl rfl) fun _ => rfl)
  | elapse ms => exact silent rfl (aside (aside_same rfl rfl rfl) fun _ => rfl)

lemma Read.steps {rs : List Reading} (ho : Orderly p) (h : Read p rs) (es : List Event) :
    Read (p.steps es) (rs ++ p.readings es) := by
  induction es generalizing p rs with
  | nil => exact (List.append_nil rs).symm ▸ h
  | cons e es ih =>
    have := ih (ho.steps [e]) (h.step ho e)
    rwa [List.append_assoc] at this

/-- However sockets are replaced: what a listener that goes on has buffered is the end of what was read of its
present socket, behind the messages of that socket, and holds no whole message; and the messages it has left
are those that are written in the octets of the sockets it has read, each socket by itself. -/
theorem messages_of_one_socket (endpoint : Endpoint) (config : Config) (es : List Event) :
    let p := (new endpoint config).steps es
    let rs := (new endpoint config).readings es
    (∀ l li, p.listeners.get? l = some li → li.isFinished = false →
      (∃ used, received rs li.reader = used ++ li.framer.pending ∧ Written (decoded rs li.reader) used) ∧
        li.framer.next.1 = .ok none) ∧
    (∀ l, p.deposits l = reported rs l) ∧
    (∀ s, Written (decoded rs s) (received rs s)) ∧
    ∀ r ∈ rs, ∀ r' ∈ rs, r.socket = r'.socket → r.listener = r'.listener := by
  intro p rs
  have h : Read p rs := (read_new endpoint config).steps (orderly_new endpoint config) es
  refine ⟨fun l li hl hf => ?_, h.deposits, h.written, h.single⟩
  obtain ⟨used, hu, hw, hd⟩ := h.buffers l li hl hf
  exact ⟨⟨used, hu, hw⟩, by rw [hd.next]⟩

example :
    ((new here {}).readings
      [.call .connect, .turn 0, .opened 0 (.ok ()), .listen 0, .listen 0,
        .arrive 0 (.ok (some (Utf8.ofText "\x7b\"id\":1,\"res"))), .listen 0,
        .call (.send { method := "a", params := [], id := .number 1 }), .turn 1,
        .sink 1 (.failure (.io ⟨.brokenPipe, none⟩)), .closed 1, .opened 1 (.ok ()), .listen 0, .listen 0,
        .arrive 0 (.ok (some (Utf8.ofText "\x7b\"id\":1\x7d")))]).map
      (fun r => (r.socket, r.messages.length)) = [(0, 0), (1, 1)] := by
  decide +kernel

end SocketRpc.Provider
