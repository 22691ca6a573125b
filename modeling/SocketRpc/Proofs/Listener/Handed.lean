import SocketRpc.Proofs.Framing.Places
import SocketRpc.Proofs.Listener.Cuts
import Mathlib.Data.List.Sort

namespace SocketRpc.Provider

open Json (Value)

variable {p q : Provider} {l : ListenerId} {li : Listener}

def framerOf (p : Provider) (l : ListenerId) : Framer :=
  ((p.listeners.get? l).map Listener.framer).getD {}

def Note.deposit? (l : ListenerId) : Note → Option Value
  | .deposited k v _ => if k = l then some v else none
  | _ => none

def deposits (p : Provider) (l : ListenerId) : List Value := p.notes.filterMap (Note.deposit? l)

def restarts (p : Provider) (l : ListenerId) (chunk : Bytes) : Bool :=
  let f := (p.framerOf l).push chunk
  f.messages.2.1.isSome || (p.depositAll l f.messages.1).2.isSome

/-- A message handed over, the place in the stream where it begins, and the place where the listener
last began with nothing buffered. -/
structure Handed where
  start : Nat
  offset : Nat
  value : Value

def handed (p : Provider) (l : ListenerId) (start n : Nat) : List Bytes → List Handed
  | [] => []
  | chunk :: chunks =>
    let q := p.steps (hearing l [chunk])
    let next := n + chunk.length
    let count := (q.deposits l).length - (p.deposits l).length
    (((p.framerOf l).push chunk).placed.take count).map
        (fun (m, v) => { start, offset := next - m, value := v }) ++
      q.handed l (if p.restarts l chunk then next else start) next chunks

lemma deposits_note (p : Provider) (l : ListenerId) (n : Note) :
    (p.note n).deposits l = p.deposits l ++ (n.deposit? l).toList := by
  simp only [deposits, note, List.filterMap_append]
  cases h : n.deposit? l <;> simp [h]

lemma leave_deposits (p : Provider) (l : ListenerId) (v : Value) :
    (p.leave l v).2.deposits l = p.deposits l ++ [v] := by
  unfold leave noteDeposit
  dsimp only
  split <;> simp [deposits_note, Note.deposit?] <;> rfl

lemma depositAll_deposits (p : Provider) (l : ListenerId) (vs : List Value) :
    ∃ k ≤ vs.length, (p.depositAll l vs).1.deposits l = p.deposits l ++ vs.take k := by
  induction vs generalizing p with
  | nil => exact ⟨0, le_rfl, by simp [depositAll]⟩
  | cons v vs ih =>
    have hl := p.leave_deposits l v
    have go : ∀ q : Provider, q.deposits l = p.deposits l ++ [v] →
        ∃ k ≤ (v :: vs).length, (q.depositAll l vs).1.deposits l = p.deposits l ++ (v :: vs).take k := by
      intro q hq
      obtain ⟨k, hk, h⟩ := ih q
      exact ⟨k + 1, by simpa using hk, by simp [h, hq]⟩
    rw [depositAll]
    split
    · rename_i q hq
      rw [hq] at hl
      exact go q hl
    · rename_i e q hq
      rw [hq] at hl
      split
      · exact go q hl
      · exact ⟨1, by simp, by simpa using hl⟩

@[simp] lemma deposits_dismissing (p : Provider) (f : Correlator → Correlator) :
    (p.dismissing f).deposits l = p.deposits l := by
  simp [deposits, dismissing, List.filterMap_append, List.filterMap_map, Function.comp_def,
    Note.deposit?]

@[simp] lemma deposits_publish (p : Provider) (s : ConnectionState) :
    (p.publish s).deposits l = p.deposits l := by
  rw [publish, deposits_note]
  simp [Note.deposit?, deposits]

@[simp] lemma deposits_setListener (p : Provider) (k : ListenerId) (f : Listener → Listener) :
    (p.setListener k f).deposits l = p.deposits l := rfl

@[simp] lemma deposits_endListener (p : Provider) (k : ListenerId) (r : ListenerEnd) :
    (p.endListener k r).deposits l = p.deposits l := by
  rw [endListener, deposits_note]
  simp [Note.deposit?]

lemma hear_cases (h : p.listeners.get? l = some li) (ha : li.Attentive) (chunk : Bytes) :
    (∃ k ≤ (li.framer.push chunk).messages.1.length,
      (p.steps (hearing l [chunk])).deposits l =
        p.deposits l ++ (li.framer.push chunk).messages.1.take k) ∧
    ∃ lj, (p.steps (hearing l [chunk])).listeners.get? l = some lj ∧
      ((∃ r, lj.phase = .finished r) ∨ lj.Attentive ∧
        lj.framer = if p.restarts l chunk then {} else (li.framer.push chunk).messages.2.2) := by
  obtain ⟨hr, hn, hf, hb⟩ := ha
  have hstep : p.steps (hearing l [chunk]) = (p.arrive l (.ok (some chunk))).listen l := rfl
  have hfr : p.framerOf l = li.framer := by simp [framerOf, h]
  obtain ⟨k, hk, hd⟩ := p.depositAll_deposits l (li.framer.push chunk).messages.1
  obtain ⟨ns, hp⟩ := p.depositAll_eq l (li.framer.push chunk).messages.1
  rw [hstep]
  simp only [arrive, h, hr, hn, hf, hb, takeChunk, restarts, hfr]
  rcases hm : (li.framer.push chunk).messages with ⟨vs, bad, left⟩
  rw [hm] at hk hd hp
  rcases hq : p.depositAll l vs with ⟨q, _ | e⟩
  · rw [hq] at hd hp
    have hl : q.listeners.get? l = some li := by
      rw [(Prod.mk.inj hp).1]
      exact h
    simp only [listen, setListener, Table.get?_modify, hl, if_true, Option.map_some, hn, hf, hb,
      Listener.isFinished, Bool.false_eq_true, if_false, Option.isSome_none, Bool.or_false]
    exact ⟨⟨k, hk, hd⟩, _, rfl, Or.inr ⟨⟨rfl, rfl, rfl, rfl⟩, rfl⟩⟩
  · rw [hq] at hd hp
    have hl : q.listeners.get? l = some li := by
      rw [(Prod.mk.inj hp).1]
      exact h
    cases hc : q.config.policy with
    | strict =>
      simp only [fault, hc]
      have hl' : (((q.dismissing fun c => c.fail e.message).publish .disconnected).endListener l
          (.failed e)).listeners.get? l = some { li with phase := .finished (.failed e) } := by
        simp [endListener, setListener, note, publish, dismissing, hl]
      simp only [listen, hl', Listener.isFinished, if_true]
      exact ⟨⟨k, hk, by simpa using hd⟩, _, rfl, Or.inl ⟨_, rfl⟩⟩
    | lenient =>
      simp only [fault, hc, listen, setListener, Table.get?_modify, hl, if_true, Option.map_some,
        hn, hf, hb, Listener.isFinished, Bool.false_eq_true, if_false, Option.isSome_some,
        Bool.or_true]
      exact ⟨⟨k, hk, hd⟩, _, rfl, Or.inr ⟨⟨rfl, rfl, rfl, rfl⟩, rfl⟩⟩

lemma handed_finished (h : p.listeners.get? l = some li) {r : ListenerEnd}
    (hr : li.phase = .finished r) (start n : Nat) (chunks : List Bytes) :
    p.handed l start n chunks = [] := by
  induction chunks generalizing start n with
  | nil => rfl
  | cons chunk chunks ih =>
    rw [handed]
    simp only [hearing_finished h hr, Nat.sub_self, List.take_zero, List.map_nil, List.nil_append]
    exact ih _ _

variable {s pre : Bytes} {os : List (Nat × Value)} {start first n : Nat} {chunks : List Bytes}

/-- What a listener has handed over lies in the order of the stream, from a first place on, and is an
object of the stream just if the listener last began between two of them. -/
structure Faithful (s : Bytes) (os : List (Nat × Value)) (first : Nat) (hs : List Handed) :
    Prop where
  object_iff : ∀ e ∈ hs, (e.offset, e.value) ∈ os ↔ Boundary s e.start
  ordered : hs.Pairwise fun a b => a.offset < b.offset
  later : ∀ e ∈ hs, first ≤ e.offset

lemma Faithful.nil : Faithful s os first [] := ⟨by simp, List.Pairwise.nil, by simp⟩

lemma Faithful.append {hs ts : List Handed} {last : Nat} (h : Faithful s os first hs)
    (ht : Faithful s os last ts) (hl : first ≤ last) (hb : ∀ e ∈ hs, e.offset < last) :
    Faithful s os first (hs ++ ts) where
  object_iff e he := (List.mem_append.mp he).elim (h.object_iff e) (ht.object_iff e)
  ordered := List.pairwise_append.mpr
    ⟨h.ordered, ht.ordered, fun a ha b hb' => Nat.lt_of_lt_of_le (hb a ha) (ht.later b hb')⟩
  later e he := (List.mem_append.mp he).elim (h.later e) fun h' => hl.trans (ht.later e h')

lemma faithful_placed (ho : Objects 0 s os) {f : Framer} {rest : Bytes}
    (hs : s = pre ++ f.pending ++ rest) (hstart : Boundary s start ↔ Place.between.run pre = .between)
    (count : Nat) :
    Faithful s os pre.length ((f.placed.take count).map fun (m, v) =>
      { start, offset := (pre ++ f.pending).length - m, value := v }) := by
  have hsound := Place.run_sound (p := .between) trivial pre
  have hlost : (Place.between.run pre).run f.pending ≠ .lost := by
    rw [← Place.run_append]
    exact ho.run_ne_lost hs
  obtain ⟨hord, hbound, -⟩ := f.placed_order
  have place : ∀ m v, (m, v) ∈ f.placed.take count → ∃ a text b, f.pending = a ++ text ++ b ∧
      (pre ++ f.pending).length - m = (pre ++ a).length ∧
      (Place.between.run (pre ++ a) = .between ↔ Boundary s start) ∧
      (Boundary s start → ∃ rest, text = 123 :: rest ∧
        Json.readValue Json.Reader.maxDepth text = .ok (v, [])) := by
    intro m v hm
    obtain ⟨a, text, b, hf, rfl, ha, hr⟩ := Framer.placed_place hsound hlost (List.mem_of_mem_take hm)
    refine ⟨a, text, b, hf, ?_, by rw [Place.run_append, ha, hstart], fun h => hr (hstart.mp h)⟩
    rw [hf]
    simp only [List.length_append]
    omega
  refine ⟨fun e he => ?_, ?_, fun e he => ?_⟩
  · obtain ⟨⟨m, v⟩, hm, rfl⟩ := List.mem_map.mp he
    obtain ⟨a, text, b, hf, hoff, ha, hr⟩ := place m v hm
    dsimp only
    rw [hoff]
    refine ⟨fun hmem => ?_, fun hb => ?_⟩
    · obtain ⟨a', b', hs', hlen, ha', -⟩ := ho.boundary_of_mem hmem
      rw [hf, List.append_assoc, List.append_assoc, List.append_assoc, ← List.append_assoc] at hs
      obtain ⟨rfl, -⟩ := List.append_inj (hs.symm.trans hs') (by simpa using hlen)
      exact ha.mp ha'
    · obtain ⟨rest', rfl, hv⟩ := hr hb
      have := ho.mem_of_between (a := pre ++ a) (b := b ++ rest)
        (by rw [hs, hf]; simp) (ha.mpr hb) hv
      rwa [Nat.zero_add] at this
  · rw [List.pairwise_map]
    refine (hord.sublist (List.take_sublist _ _)).imp_of_mem fun {x y} hx hy hlt => ?_
    have hx' := hbound x (List.mem_of_mem_take hx)
    simp only [List.length_append]
    omega
  · obtain ⟨⟨m, v⟩, hm, rfl⟩ := List.mem_map.mp he
    obtain ⟨a, text, b, hf, hoff, -⟩ := place m v hm
    dsimp only
    rw [hoff, List.length_append]
    exact Nat.le_add_right _ _

lemma keeps (ho : Objects 0 s os) {f : Framer} {rest : Bytes}
    (hs : s = pre ++ f.pending ++ rest) (hstart : Boundary s start ↔ Place.between.run pre = .between)
    (restarted : Bool) (hm : restarted = false → f.messages.2.1 = none) :
    ∃ pre' : Bytes, pre' ++ (if restarted then ({} : Framer) else f.messages.2.2).pending =
        pre ++ f.pending ∧ pre.length ≤ pre'.length ∧
      (Boundary s (if restarted then (pre ++ f.pending).length else start) ↔
        Place.between.run pre' = .between) ∧
      (if restarted then ({} : Framer) else f.messages.2.2).pending.length ≤
        f.kept.pending.length := by
  cases restarted with
  | true => exact ⟨pre ++ f.pending, by simp, by simp, ho.boundary_iff hs, by simp⟩
  | false =>
    have hnone := hm rfl
    have hlost : (Place.between.run pre).run f.pending ≠ .lost := by
      rw [← Place.run_append]
      exact ho.run_ne_lost hs
    obtain ⟨a, ha, hrun⟩ := Framer.messages_place (g := f.messages.2.2)
      (Place.run_sound (p := .between) trivial pre) hlost f.messages.1 (by rw [← hnone])
    simp only [Bool.false_eq_true, if_false]
    refine ⟨pre ++ a, by rw [List.append_assoc, ← ha], by simp, ?_, ?_⟩
    · rw [Place.run_append, hrun, hstart]
    · simp [Framer.kept, hnone]

lemma handed_faithful (pre : Bytes) (chunks : List Bytes) (ho : Objects 0 s os)
    (h : p.listeners.get? l = some li) (ha : li.Attentive)
    (hs : s = pre ++ li.framer.pending ++ chunks.flatten)
    (hn : n = (pre ++ li.framer.pending).length)
    (hstart : Boundary s start ↔ Place.between.run pre = .between) :
    Faithful s os pre.length (p.handed l start n chunks) ∧
      (p.steps (hearing l chunks)).deposits l =
        p.deposits l ++ (p.handed l start n chunks).map Handed.value := by
  induction chunks generalizing p li start n pre with
  | nil => exact ⟨Faithful.nil, by simp [hearing, steps, handed]⟩
  | cons chunk chunks ih =>
    have hfr : p.framerOf l = li.framer := by simp [framerOf, h]
    have hstep : p.steps (hearing l (chunk :: chunks)) =
        (p.steps (hearing l [chunk])).steps (hearing l chunks) := rfl
    obtain ⟨⟨k, hk, hd⟩, lj, hj, hlj⟩ := hear_cases h ha chunk
    have hpend : (li.framer.push chunk).pending = li.framer.pending ++ chunk := rfl
    have hs' : s = pre ++ (li.framer.push chunk).pending ++ chunks.flatten := by
      rw [hs, hpend]
      simp
    have hnext : n + chunk.length = (pre ++ (li.framer.push chunk).pending).length := by
      rw [hn, hpend]
      simp [Nat.add_assoc]
    have hcount : ((p.steps (hearing l [chunk])).deposits l).length - (p.deposits l).length = k := by
      rw [hd, List.length_append, List.length_take, Nat.min_eq_left hk]
      omega
    have hvalues : ((li.framer.push chunk).placed.take k).map Prod.snd =
        (li.framer.push chunk).messages.1.take k := by
      rw [← Framer.placed_values, List.map_take]
    have here := faithful_placed ho hs' hstart k
    rw [handed, hfr, hnext, hstep]
    simp only [hcount]
    rcases hlj with ⟨r, hr⟩ | ⟨hatt, hframer⟩
    · rw [handed_finished hj hr, hearing_finished hj hr, List.append_nil, hd, List.map_map]
      exact ⟨here, by rw [← hvalues]; rfl⟩
    · obtain ⟨pre', hp', hle, hst, hkept⟩ := keeps ho hs' hstart (p.restarts l chunk)
        (fun hr => by simpa [restarts, hfr] using (Bool.or_eq_false_iff.mp hr).1)
      rw [← hframer] at hp' hkept
      obtain ⟨hih, hdep⟩ := ih (n := (pre ++ (li.framer.push chunk).pending).length) pre' hj hatt
        (by rw [hp']; exact hs') (by rw [hp']) hst
      refine ⟨here.append hih hle ?_, ?_⟩
      · intro e he
        obtain ⟨⟨m, v⟩, hm, rfl⟩ := List.mem_map.mp he
        have hb := (li.framer.push chunk).placed_order.2.1 _ (List.mem_of_mem_take hm)
        have hlen := congrArg List.length hp'
        simp only [List.length_append] at hlen ⊢
        dsimp only at hb
        omega
      · rw [hdep, hd, List.map_append, List.map_map, List.append_assoc, ← hvalues]
        rfl

/-- Of a stream of objects, however it is cut and whatever becomes of the messages, a listener hands
over objects of the stream in their order, and nothing else, just if it hands over nothing after it
has dropped what it had buffered inside an object, until it drops what it has buffered between two. -/
theorem handed_sublist_iff (hp : p.Hears l) (ho : Objects 0 chunks.flatten os) :
    (p.steps (hearing l chunks)).deposits l =
        p.deposits l ++ (p.handed l 0 0 chunks).map Handed.value ∧
      (((p.handed l 0 0 chunks).map fun e => (e.offset, e.value)).Sublist os ↔
        ∀ e ∈ p.handed l 0 0 chunks, Boundary chunks.flatten e.start) := by
  obtain ⟨li, hl, ha, hf⟩ := hp
  have hstart : Boundary chunks.flatten 0 ↔ Place.between.run [] = .between :=
    ho.boundary_iff (a := []) rfl
  obtain ⟨⟨hobj, hord, -⟩, hdep⟩ := handed_faithful (n := 0) [] chunks ho hl ha
    (by simp [hf]) (by simp [hf]) hstart
  refine ⟨hdep, fun hsub e he => ?_, fun hall => ?_⟩
  · exact (hobj e he).mp (hsub.subset (List.mem_map.mpr ⟨e, he, rfl⟩))
  · have : Std.Antisymm fun a b : Nat × Value => a.1 < b.1 := ⟨fun a b h h' => by omega⟩
    have hord' : ((p.handed l 0 0 chunks).map fun e => (e.offset, e.value)).Pairwise
        fun a b => a.1 < b.1 := List.pairwise_map.mpr hord
    refine List.sublist_of_subperm_of_pairwise (List.subperm_of_subset ?_ fun x hx => ?_) hord'
      ho.ordered.1
    · exact hord'.imp fun h heq => absurd (heq ▸ h) (Nat.lt_irrefl _)
    · obtain ⟨e, he, rfl⟩ := List.mem_map.mp hx
      exact (hobj e he).mpr (hall e he)

def faultInside : List Bytes :=
  [Utf8.ofText "\x7b\"id\":9\x7d\x7b\"id\":9\x7d\x7b\"a\":", Utf8.ofText "\x7b\"id\":5\x7d\x7d"]

def numberInside : List Bytes :=
  [Utf8.ofText "\x7b\"x\":1" ++ List.replicate 400 48, Utf8.ofText "e-800,\"y\":",
    Utf8.ofText "\x7b\"id\":5\x7d\x7d"]

def idObject (n : Nat) : Value := .object [("id", .ofNat n)]

lemma objects_faultInside : Objects 0 faultInside.flatten
    [(0, idObject 9), (8, idObject 9), (16, .object [("a", idObject 5)])] := by
  have hs : faultInside.flatten = 123 :: Utf8.ofText "\"id\":9\x7d" ++
      (123 :: Utf8.ofText "\"id\":9\x7d" ++ (123 :: Utf8.ofText "\"a\":\x7b\"id\":5\x7d\x7d" ++ [])) := by
    decide +kernel
  rw [hs]
  exact Objects.cons_brace (by decide +kernel) (Objects.cons_brace (by decide +kernel)
    (Objects.cons_brace (by decide +kernel) (.nil (by simp))))

lemma objects_numberInside : Objects 0 numberInside.flatten
    [(0, .object [("x", .number (.real (.ofBits 0))), ("y", idObject 5)])] := by
  have hs : numberInside.flatten = 123 :: (Utf8.ofText "\"x\":1" ++ List.replicate 400 48 ++
      Utf8.ofText "e-800,\"y\":\x7b\"id\":5\x7d\x7d") ++ [] := by
    decide +kernel
  rw [hs]
  exact Objects.cons_brace (by decide +kernel) (.nil (by simp))

/-- The caller of `attended` is given a response that stands inside another object of the stream: by
a lenient listener after a fault, and even by a strict one. -/
theorem nested_object_handed :
    (∃ os, Objects 0 faultInside.flatten os ∧
      ¬ (((attended { silenceListenerFaults := true }).steps (hearing 0 faultInside)).deposits 0).Sublist
        (os.map Prod.snd) ∧
      ((attended { silenceListenerFaults := true }).steps
        (hearing 0 faultInside)).correlator.mail.get? 0 = some (.filled { id := .number 5 })) ∧
    ∃ os, Objects 0 numberInside.flatten os ∧
      ¬ (((attended {}).steps (hearing 0 numberInside)).deposits 0).Sublist (os.map Prod.snd) ∧
      ((attended {}).steps (hearing 0 numberInside)).correlator.mail.get? 0 =
        some (.filled { id := .number 5 }) :=
  ⟨⟨_, objects_faultInside, by decide +kernel, by decide +kernel⟩,
    _, objects_numberInside, by decide +kernel, by decide +kernel⟩

theorem handed_faultInside :
    let p := attended { silenceListenerFaults := true }
    (p.steps (hearing 0 faultInside)).deposits 0 =
        p.deposits 0 ++ (p.handed 0 0 0 faultInside).map Handed.value ∧
      (((p.handed 0 0 0 faultInside).map fun e => (e.offset, e.value)).Sublist
          [(0, idObject 9), (8, idObject 9), (16, .object [("a", idObject 5)])] ↔
        ∀ e ∈ p.handed 0 0 0 faultInside, Boundary faultInside.flatten e.start) :=
  handed_sublist_iff (attended_hears _) objects_faultInside

end SocketRpc.Provider
