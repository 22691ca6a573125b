import Mathlib.Tactic.Lemma
import SocketRpc.Transport

/-! A stream read in chunks and written in parts: octets are neither lost, repeated nor reordered. -/

namespace SocketRpc

inductive Moment where
  | arrives (a : Arrival)
  | read

def Moment.arrival? : Moment → Option Arrival
  | arrives a => some a
  | read => none

variable {size : Nat} {w arrived left rest more : List Arrival} {es : List Moment} {cs : List Chunk}
  {bs buffer : Bytes} {a : Arrival} {c : Chunk}

def reads (size : Nat) : List Arrival → List Moment → List Chunk × List Arrival
  | w, [] => ([], w)
  | w, .arrives a :: es => reads size (w ++ [a]) es
  | w, .read :: es =>
    let r := readChunk size w
    let s := reads size r.2 es
    (r.1.toList ++ s.1, s.2)

def readInto (buffer : Bytes) : List Arrival → Option Chunk × Bytes × List Arrival
  | [] => (none, buffer, [])
  | .ended :: rest => (some (.ok none), buffer, .ended :: rest)
  | .failure e :: rest => (some (.error (.io e)), buffer, rest)
  | .data bs :: rest =>
    let got := bs.take buffer.length
    let filled := got ++ buffer.drop got.length
    let left := bs.drop buffer.length
    (some (.ok (if got.length = 0 then none else some (filled.take got.length))), filled,
      if left = [] then rest else .data left :: rest)

def readsInto (buffer : Bytes) : List Arrival → List Moment → List Chunk × List Arrival
  | w, [] => ([], w)
  | w, .arrives a :: es => readsInto buffer (w ++ [a]) es
  | w, .read :: es =>
    let r := readInto buffer w
    let s := readsInto r.2.1 r.2.2 es
    (r.1.toList ++ s.1, s.2)

def stream : List Arrival → Bytes
  | .data bs :: rest => bs ++ stream rest
  | _ => []

def closing : List Arrival → Option Chunk
  | [] => none
  | .data _ :: rest => closing rest
  | .ended :: _ => some (.ok none)
  | .failure e :: _ => some (.error (.io e))

def content : List Arrival → List (UInt8 ⊕ Failure)
  | [] => []
  | .data bs :: rest => bs.map .inl ++ content rest
  | .ended :: _ => []
  | .failure e :: rest => .inr (.io e) :: content rest

def gathered : List Chunk → Bytes
  | .ok (some bs) :: cs => bs ++ gathered cs
  | _ => []

def ending : List Chunk → Option Chunk
  | [] => none
  | .ok (some _) :: cs => ending cs
  | c :: _ => some c

def collected : List Chunk → List (UInt8 ⊕ Failure)
  | [] => []
  | .ok (some bs) :: cs => bs.map .inl ++ collected cs
  | .ok none :: cs => collected cs
  | .error e :: cs => .inr e :: collected cs

/-- Answers that give back what arrived. -/
structure Faithful (size : Nat) (arrived left : List Arrival) (cs : List Chunk) : Prop where
  sized : ∀ bs, .ok (some bs) ∈ cs → bs ≠ [] ∧ bs.length ≤ max size 1
  underway : ending cs = none → gathered cs ++ stream left = stream arrived
  atEnd : ∀ c, ending cs = some c → closing arrived = some c ∧ gathered cs = stream arrived
  ended : ∀ before after, cs = before ++ .ok none :: after →
    .ended ∈ arrived ∧ collected before = content arrived ∧ ∀ c ∈ after, c = .ok none

def Solid (w : List Arrival) : Prop := ∀ bs, .data bs ∈ w → bs ≠ []

lemma chunkLimit_eq : chunkLimit size = max size 1 := by
  unfold chunkLimit
  split <;> omega

def putBack (left : Bytes) (rest : List Arrival) : List Arrival :=
  if left = [] then rest else .data left :: rest

lemma stream_putBack : stream (putBack bs rest ++ more) = bs ++ stream (rest ++ more) := by
  unfold putBack
  split
  · simp [*]
  · rfl

lemma closing_putBack : closing (putBack bs rest ++ more) = closing (rest ++ more) := by
  unfold putBack
  split <;> rfl

lemma content_putBack :
    content (putBack bs rest ++ more) = bs.map .inl ++ content (rest ++ more) := by
  unfold putBack
  split
  · simp [*]
  · rfl

lemma ended_mem_putBack : .ended ∈ putBack bs rest ++ more ↔ .ended ∈ rest ++ more := by
  unfold putBack
  split <;> simp

lemma Solid.putBack (hs : Solid (rest ++ more)) : Solid (putBack bs rest ++ more) := by
  intro cs hc
  unfold SocketRpc.putBack at hc
  split at hc
  · exact hs cs hc
  · simp only [List.cons_append, List.mem_cons, Arrival.data.injEq] at hc
    rcases hc with rfl | hc
    · assumption
    · exact hs cs hc

lemma Solid.tail (hs : Solid (a :: w)) : Solid w := fun bs hb => hs bs (.tail a hb)

lemma readChunk_data (hb : bs ≠ []) : readChunk size (.data bs :: rest) =
    (some (.ok (some (bs.take (max size 1)))), putBack (bs.drop (max size 1)) rest) := by
  have ht : bs.take (max size 1) ≠ [] := by simp [hb]
  simp only [readChunk, chunkLimit_eq, chunkOf, ht, if_false, putBack]

lemma reads_read : reads size w (.read :: es) = ((readChunk size w).1.toList ++
    (reads size (readChunk size w).2 es).1, (reads size (readChunk size w).2 es).2) := rfl

lemma readChunk_waits : (readChunk size w).1 = none ↔ w = [] := by
  rcases w with _ | ⟨_ | _ | _, rest⟩ <;> simp [readChunk]

lemma reads_after_end : ∀ c ∈ (reads size (.ended :: w) es).1, c = .ok none := by
  induction es generalizing w with
  | nil => simp [reads]
  | cons e es ih =>
    cases e with
    | arrives a => exact ih
    | read =>
      simp only [reads_read, readChunk, Option.toList_some, List.singleton_append, List.mem_cons, forall_eq_or_imp,
        true_and]
      exact ih

namespace Faithful

lemma nothing : Faithful size arrived arrived [] where
  sized := by simp
  underway _ := rfl
  atEnd := by simp [SocketRpc.ending]
  ended := by simp

lemma data (hb : bs ≠ [])
    (hf : Faithful size (putBack (bs.drop (max size 1)) rest ++ more) left cs) :
    Faithful size (.data bs :: rest ++ more) left (.ok (some (bs.take (max size 1))) :: cs) where
  sized := by
    simp only [List.mem_cons, Except.ok.injEq, Option.some.injEq]
    rintro as (rfl | ha)
    · refine ⟨by simp [hb], ?_⟩
      rw [List.length_take]
      omega
    · exact hf.sized as ha
  underway hc := by
    rw [gathered, List.append_assoc, hf.underway hc, stream_putBack, ← List.append_assoc,
      List.take_append_drop]
    rfl
  atEnd c hc := by
    obtain ⟨hl, hg⟩ := hf.atEnd c hc
    rw [closing_putBack] at hl
    refine ⟨hl, ?_⟩
    rw [gathered, hg, stream_putBack, ← List.append_assoc, List.take_append_drop]
    rfl
  ended before after hc := by
    rcases before with _ | ⟨b, before⟩
    · simp at hc
    · simp only [List.cons_append, List.cons.injEq] at hc
      obtain ⟨rfl, hc⟩ := hc
      obtain ⟨he, hm, ha⟩ := hf.ended before after hc
      refine ⟨.tail _ (ended_mem_putBack.mp he), ?_, ha⟩
      rw [collected, hm, content_putBack, ← List.append_assoc, ← List.map_append, List.take_append_drop]
      rfl

lemma failure {e : IoError} (hf : Faithful size w left cs) :
    Faithful size (.failure e :: w) left (.error (.io e) :: cs) where
  sized := by simpa using hf.sized
  underway := by simp [SocketRpc.ending]
  atEnd := by simp [SocketRpc.ending, closing, gathered, stream]
  ended before after hc := by
    rcases before with _ | ⟨b, before⟩
    · simp at hc
    · simp only [List.cons_append, List.cons.injEq] at hc
      obtain ⟨rfl, hc⟩ := hc
      obtain ⟨he, hm, ha⟩ := hf.ended before after hc
      exact ⟨.tail _ he, by rw [collected, hm, content], ha⟩

lemma finish (hn : ∀ c ∈ cs, c = .ok none) (hf : Faithful size (.ended :: w) left cs) :
    Faithful size (.ended :: w) left (.ok none :: cs) where
  sized := by simpa using hf.sized
  underway := by simp [SocketRpc.ending]
  atEnd := by simp [SocketRpc.ending, closing, gathered, stream]
  ended before after hc := by
    rcases before with _ | ⟨b, before⟩
    · simp only [List.nil_append, List.cons.injEq, true_and] at hc
      exact ⟨.head _, rfl, hc ▸ hn⟩
    · simp only [List.cons_append, List.cons.injEq] at hc
      obtain ⟨rfl, hc⟩ := hc
      obtain ⟨he, hm, ha⟩ := hf.ended before after hc
      exact ⟨he, hm, ha⟩

end Faithful

lemma faithful_reads (hs : Solid (w ++ es.filterMap Moment.arrival?)) :
    Faithful size (w ++ es.filterMap Moment.arrival?) (reads size w es).2 (reads size w es).1 := by
  induction es generalizing w with
  | nil => simpa [reads] using Faithful.nothing
  | cons e es ih =>
    cases e with
    | arrives a =>
      have hw : w ++ (Moment.arrives a :: es).filterMap Moment.arrival? =
          (w ++ [a]) ++ es.filterMap Moment.arrival? := by simp [Moment.arrival?]
      rw [hw] at hs ⊢
      exact ih hs
    | read =>
      rw [List.filterMap_cons_none rfl] at hs ⊢
      rw [reads_read]
      rcases w with _ | ⟨bs | _ | e, w⟩
      · exact ih hs
      · have hb : bs ≠ [] := hs bs (.head _)
        rw [readChunk_data hb]
        exact (ih (Solid.tail hs).putBack).data hb
      · exact (ih hs).finish reads_after_end
      · exact (ih hs.tail).failure

lemma readInto_eq (hb : buffer.length = chunkLimit size) :
    (readInto buffer w).1 = (readChunk size w).1 ∧ (readInto buffer w).2.2 = (readChunk size w).2 ∧
      (readInto buffer w).2.1.length = chunkLimit size := by
  rcases w with _ | ⟨bs | _ | e, w⟩
  case cons.data =>
    refine ⟨?_, by simp [readInto, readChunk, hb], ?_⟩
    · simp only [readInto, readChunk, chunkOf, hb, List.length_eq_zero_iff, List.take_left]
    · simp only [readInto, List.length_append, List.length_drop, List.length_take]
      omega
  all_goals exact ⟨rfl, rfl, hb⟩

theorem readsInto_eq (hb : buffer.length = chunkLimit size) :
    readsInto buffer w es = reads size w es := by
  induction es generalizing buffer w with
  | nil => rfl
  | cons e es ih =>
    cases e with
    | arrives a => exact ih hb
    | read =>
      obtain ⟨hc, hw, hl⟩ := readInto_eq (w := w) hb
      simp only [readsInto, reads, hc, hw, ih hl]

namespace Outgoing

variable {o o' : Outgoing} {as : List SinkAnswer} {x : SinkAnswer} {r : Except Failure Unit}

def accepted : Outgoing → List SinkAnswer → Bytes
  | _, [] => []
  | o, x :: as =>
    o.taken x ++
      match o.step x with
      | .more o => accepted o as
      | .done _ => []

/-- What an outcome says of a write: all was taken and then flushed, a part was taken and the sink
failed, or what was not taken is still to be written. -/
def Tells (o : Outgoing) (as : List SinkAnswer) : Step → Prop
  | .more o' => o.accepted as ++ o'.left = o.left
  | .done (.ok _) => o.accepted as = o.left ∧
      ∃ before after, as = before ++ .flushed :: after ∧ o.accepted before = o.left
  | .done (.error e) => o.accepted as <+: o.left ∧
      (.failure e ∈ as ∨ .accept 0 ∈ as ∧ e = .io ⟨.writeZero, none⟩)

inductive Writes (o : Outgoing) (x : SinkAnswer) : Step → Prop where
  | more {o' : Outgoing} (h : o.taken x ++ o'.left = o.left) : Writes o x (.more o')
  | flushed (hl : o.left = []) (hx : x = .flushed) : Writes o x (.done (.ok ()))
  | failed {e : Failure} (hx : x = .failure e ∨ x = .accept 0 ∧ e = .io ⟨.writeZero, none⟩) :
      Writes o x (.done (.error e))

lemma step_writes (o : Outgoing) (x : SinkAnswer) : Writes o x (o.step x) := by
  cases x with
  | accept n =>
    rw [step]
    split
    · exact .more (by simp [taken, *])
    · split
      · exact .failed (Or.inr ⟨by rw [‹n = 0›], rfl⟩)
      · exact .more (List.take_append_drop n o.left)
  | failure e => exact .failed (Or.inl rfl)
  | flushed =>
    rw [step]
    split
    · exact .flushed ‹_› rfl
    · exact .more rfl

lemma left_of_more (h : o.step x = .more o') : o.taken x ++ o'.left = o.left := by
  cases h ▸ step_writes o x with
  | more ho => exact ho

lemma accepted_more (h : o.step x = .more o') : o.accepted (x :: as) = o.taken x ++ o'.accepted as := by
  rw [accepted, h]

lemma accepted_done (h : o.step x = .done r) : o.accepted (x :: as) = [] := by
  have hx : Writes o x (.done r) := h ▸ step_writes o x
  rw [accepted, h, List.append_nil]
  cases hx with
  | flushed hl hx =>
    rw [hx]
    rfl
  | failed hx => rcases hx with rfl | ⟨rfl, -⟩ <;> rfl

lemma Tells.cons {s : Step} (h : o.step x = .more o') (ht : Tells o' as s) : Tells o (x :: as) s := by
  have ho := left_of_more h
  rcases s with o'' | ⟨e | ⟨⟩⟩
  · rw [Tells, accepted_more h, List.append_assoc, ht, ho]
  · obtain ⟨hp, he⟩ := ht
    refine ⟨?_, he.imp (.tail x) (And.imp_left (.tail x))⟩
    rw [accepted_more h, ← ho]
    exact (List.prefix_append_right_inj _).mpr hp
  · obtain ⟨ha, before, after, rfl, hb⟩ := ht
    exact ⟨by rw [accepted_more h, ha, ho], x :: before, after, rfl, by rw [accepted_more h, hb, ho]⟩

lemma tells_run : Tells o as (o.run as) := by
  induction as generalizing o with
  | nil => rfl
  | cons x as ih =>
    rcases hx : o.step x with o' | r
    · rw [run, hx]
      exact ih.cons hx
    · have ha : o.accepted (x :: as) = [] := accepted_done hx
      rw [run, hx]
      cases hx ▸ step_writes o x with
      | flushed hl hf => exact ⟨by rw [ha, hl], [], as, by rw [hf]; rfl, by rw [hl, accepted]⟩
      | failed he =>
        refine ⟨ha ▸ List.nil_prefix, ?_⟩
        rcases he with rfl | ⟨rfl, he⟩
        · exact .inl (.head _)
        · exact .inr ⟨.head _, he⟩

end Outgoing

/-- A reader with a buffer of any size gives back what arrives, in pieces that are neither empty nor
too long, and waits only where nothing is there. A write succeeds only with all of its message taken,
each octet once and in order, and then flushed; one that fails has written a front of it. -/
theorem stream_kept (size : Nat) (buffer : Bytes) (hb : buffer.length = max size 1)
    (es : List Moment) (hs : ∀ bs, .arrives (.data bs) ∈ es → bs ≠ []) (message : String)
    (as : List SinkAnswer) :
    Faithful size (es.filterMap Moment.arrival?) (readsInto buffer [] es).2 (readsInto buffer [] es).1 ∧
      readsInto buffer [] es = reads size [] es ∧
      (∀ w, (readChunk size w).1 = none ↔ w = []) ∧
      (Outgoing.ofText message).Tells as ((Outgoing.ofText message).run as) := by
  have hr : readsInto buffer [] es = reads size [] es := readsInto_eq (hb.trans chunkLimit_eq.symm)
  have hd : Solid ([] ++ es.filterMap Moment.arrival?) := fun bs hm => by
    obtain ⟨m, hm, ha⟩ := List.mem_filterMap.mp hm
    cases m <;> cases ha
    exact hs bs hm
  have hf := @faithful_reads size [] es hd
  exact ⟨hr ▸ hf, hr, fun w => readChunk_waits, Outgoing.tells_run⟩

theorem stream_kept_short :
    (readsInto (Utf8.ofText "....") [] [.arrives (.data (Utf8.ofText "\x7b\"id\":")), .read, .read,
        .arrives (.data (Utf8.ofText "1")), .read, .read, .arrives (.data (Utf8.ofText "\x7d")),
        .arrives .ended, .read, .read, .read]).1 =
      [.ok (some (Utf8.ofText "\x7b\"id")), .ok (some (Utf8.ofText "\":")),
        .ok (some (Utf8.ofText "1")), .ok (some (Utf8.ofText "\x7d")), .ok none, .ok none] ∧
      gathered [.ok (some (Utf8.ofText "\x7b\"id")), .ok (some (Utf8.ofText "\":")),
        .ok (some (Utf8.ofText "1")), .ok (some (Utf8.ofText "\x7d")), .ok none, .ok none] =
        Utf8.ofText "\x7b\"id\":1\x7d" ∧
      (Outgoing.ofText "\x7b\"id\":1\x7d").accepted [.accept 1, .accept 1, .accept 9, .flushed] =
        Utf8.ofText "\x7b\"id\":1\x7d" := by
  have h := stream_kept 4 (Utf8.ofText "....") (by decide)
    [.arrives (.data (Utf8.ofText "\x7b\"id\":")), .read, .read, .arrives (.data (Utf8.ofText "1")),
      .read, .read, .arrives (.data (Utf8.ofText "\x7d")), .arrives .ended, .read, .read, .read]
    (by simp +decide) "\x7b\"id\":1\x7d" [.accept 1, .accept 1, .accept 9, .flushed]
  exact ⟨rfl, (h.1.atEnd (.ok none) rfl).2, h.2.2.2.1⟩

end SocketRpc
