import SocketRpc.Message.Request
import SocketRpc.Proofs.Framing.Messages
import SocketRpc.Proofs.Json.Printing

namespace SocketRpc.Framer

open Json (Value)
open Json.Reader (maxDepth)

variable {f g : Framer} {v : Value} {vs : List Value} {bs cs gap rest : Bytes}

/-- Neither a number nor a word, not too deep, and with whole numbers only. -/
structure Sendable (v : Value) : Prop where
  closed : ¬ v.IsBare
  integral : v.integral = true
  depth : v.depth ≤ maxDepth

/-- Printed values with gaps of any length before, between and behind them. -/
inductive Spelled : List Value → Bytes → Prop where
  | nil {gap : Bytes} (h : ∀ b ∈ gap, isGap b) : Spelled [] gap
  | cons {v : Value} {vs : List Value} {gap bs : Bytes} (h : ∀ b ∈ gap, isGap b) (hs : Spelled vs bs) :
      Spelled (v :: vs) (gap ++ (Utf8.ofText v.compact ++ bs))

lemma next_gap (h : ∀ b ∈ gap, isGap b) : (⟨gap⟩ : Framer).next = (.ok none, {}) := by
  have hs : skipGap gap = [] := by
    rw [← List.append_nil gap, skipGap_gap h]
    rfl
  simp only [next, hs]

lemma printed_first (hb : ¬ v.IsBare) :
    ∃ b rest, Utf8.ofText v.compact = b :: rest ∧ isGap b = false ∧ isDelimited b = true := by
  rw [Utf8.ofText, Value.compact, String.toList_ofList]
  cases v with
  | text s => exact ⟨34, _, Json.Reader.encode_quoteChars s, rfl, rfl⟩
  | array vs => cases vs <;> exact ⟨91, _, rfl, rfl, rfl⟩
  | object ms =>
    rcases ms with _ | ⟨⟨k, v⟩, ms⟩
    · exact ⟨123, _, rfl, rfl, rfl⟩
    · rw [Value.chars, List.cons_append, List.cons_append, Json.Reader.encode_cons]
      exact ⟨123, _, rfl, rfl, rfl⟩
  | null | bool _ | number _ => exact absurd trivial hb

lemma next_printed (h : Sendable v) (hg : ∀ b ∈ gap, isGap b) (rest : Bytes) :
    (⟨gap ++ (Utf8.ofText v.compact ++ rest)⟩ : Framer).next = (.ok (some v.normal), ⟨rest⟩) := by
  obtain ⟨b, bs, he, hb, hd⟩ := printed_first h.closed
  have hr := Json.readValue_printed h.closed h.integral h.depth rest
  rw [he, List.cons_append] at hr
  have hs : skipGap (gap ++ (Utf8.ofText v.compact ++ rest)) = b :: (bs ++ rest) := by
    rw [skipGap_gap hg, he, List.cons_append, skipGap, List.dropWhile_cons, hb]
    rfl
  simp only [next, hs, hr, hd, Bool.true_or, if_true]

lemma next_part (h : Sendable v) (hg : ∀ b ∈ gap, isGap b) (he : bs ++ cs = Utf8.ofText v.compact)
    (hc : cs ≠ []) :
    (⟨gap ++ bs⟩ : Framer).next = (.ok none, ⟨bs⟩) := by
  obtain ⟨f, hr, hend⟩ := Json.readValue_part h.closed h.integral h.depth he hc
  obtain ⟨b, rest, he', hb, -⟩ := printed_first h.closed
  cases bs with
  | nil =>
    have hs : skipGap (gap ++ []) = [] := by rw [skipGap_gap hg]; rfl
    simp only [next, hs]
  | cons c bs =>
    obtain rfl : c = b := by
      rw [he', List.cons_append] at he
      exact (List.cons.inj he).1
    have hs : skipGap (gap ++ c :: bs) = c :: bs := by
      rw [skipGap_gap hg, skipGap, List.dropWhile_cons, hb]
      rfl
    simp only [next, hs, hr, hend, if_true]

lemma messages_spelled (hv : ∀ v ∈ vs, Sendable v) (h : Spelled vs (bs ++ rest)) :
    ∃ us ws g, vs = us ++ ws ∧ (⟨bs⟩ : Framer).messages = (us.map Value.normal, none, g) ∧
      Spelled ws (g.pending ++ rest) := by
  induction vs generalizing bs with
  | nil =>
    generalize hx : bs ++ rest = x at h
    cases h with
    | nil hg =>
      subst hx
      have hb : ∀ b ∈ bs, isGap b := fun b hb => hg b (List.mem_append_left _ hb)
      exact ⟨[], [], {}, rfl, messages_of_none (next_gap hb),
        .nil fun b hb => hg b (List.mem_append_right _ hb)⟩
  | cons v vs ih =>
    have hv' := hv v List.mem_cons_self
    generalize hx : bs ++ rest = x at h
    cases h with
    | @cons _ _ gap tail hg hs =>
      have whole : ∀ left, bs = gap ++ (Utf8.ofText v.compact ++ left) → tail = left ++ rest →
          ∃ us ws g, v :: vs = us ++ ws ∧ (⟨bs⟩ : Framer).messages = (us.map Value.normal, none, g) ∧
            Spelled ws (g.pending ++ rest) := by
        rintro left rfl rfl
        obtain ⟨us, ws, g, rfl, hm, hw⟩ := ih (fun w hw => hv w (List.mem_cons_of_mem v hw)) hs
        refine ⟨v :: us, ws, g, rfl, ?_, hw⟩
        rw [messages_of_some (next_printed hv' hg left), hm]
        rfl
      obtain ⟨left, rfl, rfl⟩ | ⟨part, rfl, hp⟩ := List.append_eq_append_iff.mp hx
      -- the chunk ends in the gap
      · have hb : ∀ b ∈ bs, isGap b := fun b hb => hg b (List.mem_append_left _ hb)
        exact ⟨[], v :: vs, {}, rfl, messages_of_none (next_gap hb),
          .cons (fun b hb => hg b (List.mem_append_right _ hb)) hs⟩
      · obtain ⟨left, rfl, ht⟩ | ⟨left, ht, rfl⟩ := List.append_eq_append_iff.mp hp
        -- behind the value
        · exact whole left rfl ht
        -- in it, if not just at its end
        · by_cases hl : left = []
          · subst hl
            rw [List.append_nil] at ht
            exact whole [] (by rw [ht, List.append_nil]) rfl
          · refine ⟨[], v :: vs, ⟨part⟩, rfl, messages_of_none (next_part hv' hg ht.symm hl), ?_⟩
            have hs' : Spelled (v :: vs) ([] ++ (Utf8.ofText v.compact ++ tail)) := .cons nofun hs
            rwa [ht, List.nil_append, List.append_assoc] at hs'

theorem feed_spelled (hv : ∀ v ∈ vs, Sendable v) {cs : List Bytes}
    (h : Spelled vs (f.pending ++ cs.flatten)) (hf : f.Drained) : f.feed cs = (vs.map Value.normal, [], {}) := by
  induction cs generalizing f vs with
  | nil =>
    rw [List.flatten_nil, List.append_nil] at h
    cases vs with
    | nil =>
      cases h with
      | nil hg =>
        have hm := messages_of_none (next_gap hg)
        obtain ⟨pending⟩ := f
        cases hf.symm.trans hm
        rfl
    | cons v vs =>
      generalize hx : f.pending = x at h
      cases h with
      | @cons _ _ gap tail hg hs =>
        obtain ⟨pending⟩ := f
        subst hx
        have hm := messages_of_some (next_printed (hv v List.mem_cons_self) hg tail)
        cases hf.symm.trans hm
  | cons c cs ih =>
    rw [List.flatten_cons, ← List.append_assoc] at h
    obtain ⟨us, ws, g, rfl, hm, hw⟩ := messages_spelled hv h
    have hg := ih (fun w hw => hv w (List.mem_append_right us hw)) hw (messages_drained _ _ hm)
    have hm : (f.push c).messages = _ := hm
    simp [feed, hm, hg]

variable {r : Request}

structure Encodable (r : Request) : Prop where
  id : ∀ n, r.id = .number n → n < RequestId.limit
  params : ∀ v ∈ r.params, v.integral = true ∧ v.sorted = true
  depth : r.toValue.depth ≤ maxDepth

lemma integralItems_of (h : ∀ v ∈ vs, v.integral = true) : Value.integralItems vs = true := by
  induction vs with
  | nil => rfl
  | cons v vs ih =>
    rw [Value.integralItems, h v List.mem_cons_self, ih fun w hw => h w (List.mem_cons_of_mem v hw)]
    rfl

lemma sortedItems_of (h : ∀ v ∈ vs, v.sorted = true) : Value.sortedItems vs = true := by
  induction vs with
  | nil => rfl
  | cons v vs ih =>
    rw [Value.sortedItems, h v List.mem_cons_self, ih fun w hw => h w (List.mem_cons_of_mem v hw)]
    rfl

lemma integral_toValue (id : RequestId) (h : ∀ n, id = .number n → n < RequestId.limit) :
    id.toValue.integral = true := by
  cases id with
  | number n =>
    have hn : n < 18446744073709551616 := h n rfl
    simp [RequestId.toValue, Value.ofNat, Value.integral, Json.Number.integral]
    omega
  | text s => rfl
  | null => rfl

lemma ofValue_toValue (id : RequestId) (h : ∀ n, id = .number n → n < RequestId.limit) :
    RequestId.ofValue id.toValue = .ok id := by
  cases id with
  | number n =>
    have hn := h n rfl
    simp [RequestId.toValue, Value.ofNat, RequestId.ofValue]
    omega
  | text s => rfl
  | null => rfl

lemma normal_toValue (id : RequestId) : id.toValue.normal = id.toValue := by
  cases id <;> rfl

lemma normal_request (r : Request) : r.toValue.normal =
    .object [("id", r.id.toValue), ("jsonrpc", .text r.version), ("method", .text r.method),
      ("params", .array (Value.normalItems r.params))] := by
  rw [Request.toValue, Value.normal]
  simp only [Value.normalMembers, normal_toValue]
  rfl

lemma ofValue_request (h : ∀ n, r.id = .number n → n < RequestId.limit) :
    Request.record.ofValue (.object [("id", r.id.toValue), ("jsonrpc", .text r.version),
      ("method", .text r.method), ("params", .array r.params)]) = .ok r := by
  have hid := ofValue_toValue r.id h
  have hf : ∀ d : Request.Draft, (RequestId.decoder.ofValue r.id.toValue).map
      (fun a => { d with id := some a }) = .ok { d with id := some r.id } := fun d => by
    rw [show RequestId.decoder.ofValue r.id.toValue = .ok r.id from hid]
    rfl
  rw [Json.Record.ofValue, Json.Record.ofMembers]
  show (do
    let draft ← (RequestId.decoder.ofValue r.id.toValue).map (fun a => { Request.record.start with id := some a })
      >>= Request.record.ofMembers _
    Request.record.build draft) = _
  rw [hf]
  rfl

lemma Encodable.sendable (h : Encodable r) : Sendable r.toValue where
  closed h := h
  integral := by
    have hp := integralItems_of fun v hv => (h.params v hv).1
    have hi := integral_toValue r.id h.id
    simp only [Request.toValue, Value.integral, Value.integralMembers, hp, hi, Bool.and_true]
  depth := h.depth

lemma Encodable.decoded (h : Encodable r) : Request.record.ofValue r.toValue.normal = .ok r := by
  have hp := Value.normalItems_of_sorted r.params (sortedItems_of fun v hv => (h.params v hv).2)
  rw [normal_request, hp, ofValue_request h.id]

/-- Values that are printed, with gaps between them, and arrive in any chunks are taken out one by one as they
were, and requests are decoded to themselves. -/
theorem delivered_as_printed :
    (∀ (vs : List Value) (cs : List Bytes), (∀ v ∈ vs, Sendable v ∧ v.sorted = true) →
      Spelled vs cs.flatten → feed {} cs = (vs, [], {})) ∧
    ∀ (rs : List Request) (cs : List Bytes), (∀ r ∈ rs, Encodable r) →
      Spelled (rs.map Request.toValue) cs.flatten →
      ∃ vs, feed {} cs = (vs, [], {}) ∧ vs.map Request.record.ofValue = rs.map .ok := by
  refine ⟨fun vs cs hv hs => ?_, fun rs cs hr hs => ⟨_, feed_spelled (f := {}) ?_ hs drained_new, ?_⟩⟩
  · have hn : vs.map Value.normal = vs :=
      (List.map_congr_left fun v hm => Value.normal_of_sorted v (hv v hm).2).trans (List.map_id vs)
    rw [feed_spelled (f := {}) (fun v hm => (hv v hm).1) hs drained_new, hn]
  · intro v hv
    obtain ⟨r, hm, rfl⟩ := List.mem_map.mp hv
    exact (hr r hm).sendable
  · rw [List.map_map, List.map_map]
    exact List.map_congr_left fun r hm => (hr r hm).decoded

theorem delivered_as_printed_cut :
    let v : Value := .object [("a", .text "é")]
    let w : Value := .array [.number (.integer (-1)), .number (.integer 18446744073709551615)]
    let r : Request := { method := "m", params := [.text "\n"], id := .text "1" }
    let cs := [[123, 34, 97, 34, 58, 34, 195], 169 :: 34 :: 125 :: 12 :: Utf8.ofText w.compact]
    let ds := [(Utf8.ofText r.encode).take 42, (Utf8.ofText r.encode).drop 42]
    ((Sendable v ∧ v.sorted = true) ∧ Sendable w ∧ w.sorted = true) ∧ Spelled [v, w] cs.flatten ∧
      feed {} cs = ([v, w], [], {}) ∧
      Encodable r ∧ ∃ vs, feed {} ds = (vs, [], {}) ∧ vs.map Request.record.ofValue = [.ok r] := by
  intro v w r cs ds
  have hv : Sendable v ∧ v.sorted = true := ⟨⟨by decide, by decide, by decide⟩, by decide⟩
  have hw : Sendable w ∧ w.sorted = true := ⟨⟨by decide, by decide, by decide⟩, by decide⟩
  have hr : Encodable r := ⟨nofun, by decide, by decide⟩
  have hd : Spelled [r.toValue] ds.flatten := by
    have he : ds.flatten = [] ++ (Utf8.ofText r.toValue.compact ++ []) := by decide
    exact he ▸ .cons nofun (.nil nofun)
  have hs : Spelled [v, w] cs.flatten := by
    have he : cs.flatten = [] ++ (Utf8.ofText v.compact ++ ([12] ++ (Utf8.ofText w.compact ++ []))) := by
      decide
    exact he ▸ .cons nofun (.cons (by simp [isGap]) (.nil nofun))
  exact ⟨⟨hv, hw⟩, hs, delivered_as_printed.1 _ _ (by simp [hv, hw]) hs, hr,
    delivered_as_printed.2 [r] ds (by simpa using hr) hd⟩

end SocketRpc.Framer
