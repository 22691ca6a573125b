import SocketRpc.Proofs.Correlator.Claims
import SocketRpc.Proofs.Framing.Objects
import SocketRpc.Proofs.Json.Spellings
import SocketRpc.Proofs.Listener.Answers

namespace SocketRpc

open Json (Value Entry SpellsAll readValue)
open Json.Reader (scan maxDepth)

namespace Framer

variable {f g : Framer} {v : Value} {text bs rest more : Bytes}

lemma skipGap_front {b : UInt8} {front : Bytes} (hs : skipGap bs = b :: front) (rest : Bytes) :
    skipGap (bs ++ rest) = b :: (front ++ rest) := by
  have hp := skipGap_push (f := ⟨bs⟩) hs rest
  exact hp

lemma next_front (ht : readValue maxDepth (123 :: text) = .ok (v, [])) (h : skipGap (bs ++ rest) = 123 :: text)
    (hr : rest ≠ []) :
    (⟨bs⟩ : Framer).next = (.ok none, ⟨skipGap bs⟩) ∨ ∃ m g, (⟨bs⟩ : Framer).next = (.error m, g) := by
  rcases hs : skipGap bs with _ | ⟨b, front⟩
  · exact .inl (by simp only [next, hs])
  · rw [skipGap_front hs] at h
    obtain ⟨rfl, rfl⟩ := List.cons.inj h
    obtain ⟨s, hm⟩ : ∃ s, scan maxDepth opened front = .more s := by
      have ho := scan_object ht
      rw [Json.Reader.scan_append] at ho
      rcases hc : scan maxDepth opened front with s | ⟨w, left⟩ | e <;> rw [hc] at ho
      · exact ⟨s, rfl⟩
      · cases List.append_eq_nil_iff.mp (Json.Reader.Outcome.done.inj ho).2 |>.2
        contradiction
      · cases ho
    obtain ⟨e, he⟩ := Json.Reader.finish_enclosed (Json.Reader.scan_more_enclosed opened_enclosed hm)
    have hv : readValue maxDepth (123 :: front) = .error e := by
      rw [readValue, Json.Reader.run_eq_scan, scan_brace, hm]
      simp only [he, Except.map]
    rcases hend : e.isEnd with _ | _
    · exact .inr ⟨⟨0, e⟩, ⟨123 :: front⟩, by simp [next, hs, hv, hend]⟩
    · exact .inl (by simp [next, hs, hv, hend])

lemma next_whole (ht : readValue maxDepth (123 :: text) = .ok (v, [])) (hv : ¬ v.IsBare)
    (h : skipGap bs = 123 :: (text ++ more)) : (⟨bs⟩ : Framer).next = (.ok (some v), ⟨more⟩) := by
  obtain ⟨-, hr⟩ := readValue_append rfl ht hv more
  rw [next_of_ok (f := ⟨bs⟩) h hr]
  rfl

lemma feed_gap {cs : List Bytes} (h : ∀ b ∈ cs.flatten, isGap b) : feed {} cs = ([], [], {}) :=
  @feed_spelled {} [] nofun cs (.nil h) drained_new

theorem feed_object (ht : readValue maxDepth (123 :: text) = .ok (v, [])) (hv : ¬ v.IsBare) {cs : List Bytes}
    (h : skipGap (f.pending ++ rest) = 123 :: text) (hr : rest ≠ []) (hg : ∀ b ∈ more, isGap b)
    (hc : cs.flatten = rest ++ more) (hm : (f.feed cs).2.1 = []) : f.feed cs = ([v], [], {}) := by
  induction cs generalizing f rest with
  | nil => exact absurd (List.append_eq_nil_iff.mp hc.symm).1 hr
  | cons c cs ih =>
    rw [List.flatten_cons] at hc
    have whole : ∀ left, c = rest ++ left → more = left ++ cs.flatten → f.feed (c :: cs) = ([v], [], {}) := by
      rintro left rfl rfl
      have hs : skipGap (f.pending ++ (rest ++ left)) = 123 :: (text ++ left) := by
        rw [← List.append_assoc, skipGap_front h]
      have hl := next_gap fun b hb => hg b (List.mem_append_left _ hb)
      have hn : (f.push (rest ++ left)).messages = ([v], none, {}) := by
        have hw : (f.push (rest ++ left)).next = (.ok (some v), ⟨left⟩) := next_whole ht hv hs
        rw [messages_of_some hw, messages_of_none hl]
      rw [feed, hn]
      simp [feed_gap fun b hb => hg b (List.mem_append_right _ hb)]
    obtain ⟨left, hl, hd⟩ | ⟨left, hl, hd⟩ := List.append_eq_append_iff.mp hc
    · by_cases hn : left = []
      · subst hn
        exact whole [] (by simpa using hl.symm) (by simpa using hd.symm)
      · subst hl
        rw [← List.append_assoc] at h
        obtain hx | ⟨m, g, hx⟩ := next_front ht h hn
        · have hx : (f.push c).messages = ([], none, ⟨skipGap (f.pending ++ c)⟩) := messages_of_none hx
          have hf : f.feed (c :: cs) = feed ⟨skipGap (f.pending ++ c)⟩ cs := by simp [feed, hx]
          rw [hf] at hm ⊢
          exact ih (by rw [skipGap_append]; exact h) hn hd hm
        · have hx : (f.push c).messages = ([], some m, g) := messages_of_error hx
          simp [feed, hx] at hm
    · exact whole left hl hd

end Framer

variable {id j : RequestId} {es : List Entry} {body : Bytes} {v : Value} {r : Response} {q : Request}

def RequestId.octets (id : RequestId) : Bytes := Utf8.ofText id.toValue.compact

lemma encode_ends (q : Request) : ∃ front,
    Utf8.ofText q.encode = front ++ (Utf8.ofText ",\"id\":" ++ (q.id.octets ++ Utf8.ofText "\x7d")) := by
  obtain ⟨front, hc⟩ : ∃ front, q.toValue.chars = front ++ (",\"id\":".toList ++ (q.id.toValue.chars ++ ['}'])) := by
    refine ⟨'{' :: Json.quoteChars "jsonrpc" ++ ':' :: (Value.text q.version).chars ++
      (',' :: Json.quoteChars "method" ++ ':' :: (Value.text q.method).chars ++
        (',' :: Json.quoteChars "params" ++ ':' :: (Value.array q.params).chars)), ?_⟩
    simp only [Request.toValue, Value.chars, Value.restMembers, List.append_assoc, List.cons_append]
    rfl
  refine ⟨Utf8.encode front, ?_⟩
  have hq : Utf8.ofText q.encode = Utf8.encode q.toValue.chars := by
    rw [Utf8.ofText, Request.encode, Value.compact, String.toList_ofList]
  have hi : q.id.octets = Utf8.encode q.id.toValue.chars := by
    rw [RequestId.octets, Utf8.ofText, Value.compact, String.toList_ofList]
  rw [hq, hi, hc, Utf8.encode_append, Utf8.encode_append, Utf8.encode_append]
  rfl

lemma readValue_octets (room : Nat) (hb : ∀ n, id = .number n → n < RequestId.limit) :
    readValue room id.octets = .ok (id.toValue, []) := by
  cases id with
  | number n =>
    have hn := hb n rfl
    exact Json.readValue_number (Nat.le_of_lt_succ hn)
  | text s =>
    have h := @Json.readValue_printed (.text s) room nofun rfl (Nat.zero_le _) []
    rwa [List.append_nil] at h
  | null => rfl

/-- A response in which the node has put the identifier of a request. -/
structure Echoes (id : RequestId) (es : List Entry) : Prop where
  copied : ∃ e ∈ es, e.key = "id"
  copies : ∀ e ∈ es, e.key = "id" → e.text = id.octets
  push : isPush (Entry.all es) = false
  version : ∀ w, (Entry.all es).get? "jsonrpc" = some w → ∃ s, w = .text s
  error : ∀ w, (Entry.all es).get? "error" = some w →
    ∃ e, (Json.Decoder.optional ErrorObject.record.decoder).ofValue w = .ok e

lemma Echoes.response {room : Nat} (h : Echoes id es) (hs : SpellsAll room es body)
    (hb : ∀ n, id = .number n → n < RequestId.limit) : ∃ r, IsResponse (Entry.all es) r ∧ r.id = id := by
  obtain ⟨ms, hm, hd, hf⟩ := Entry.all_eq es
  have hid : (Entry.all es).get? "id" = some id.toValue := by
    rw [hm]
    refine hf "id" id.toValue (fun e he hk => ?_) h.copied
    have hr := hs.reads he
    rw [h.copies e he hk, readValue_octets room hb] at hr
    exact (Prod.mk.inj (Except.ok.inj hr)).1.symm
  have ha : Answering (Entry.all es) id := ⟨⟨h.push, ⟨ms, hm⟩, hid, hb⟩, h.version, h.error⟩
  rw [hm] at ha ⊢
  obtain ⟨r, hr, hri, -⟩ := ha.isResponse hd
  exact ⟨r, hr, hri⟩

namespace Correlator

variable {c : Correlator} {t : Ticket}

lemma deposit_own (hc : Tidy c) (hr : IsResponse v r) :
    (∀ t, c.waiting.get? r.id.key = some t → (c.mail.get? t).isSome →
      (c.deposit v (isPush v)).1 = .ok (.delivered t) ∧
        (c.deposit v (isPush v)).2.mail.get? t = some (.filled r)) ∧
      ∀ j : RequestId, j ≠ r.id → ∀ t, c.waiting.get? j.key = some t →
        (c.deposit v (isPush v)).1 ≠ .ok (.delivered t) ∧
          (c.deposit v (isPush v)).2.waiting.get? j.key = some t ∧
          (c.deposit v (isPush v)).2.mail.get? t = c.mail.get? t := by
  rw [deposit_isResponse c hr]
  refine ⟨fun t hw hm => ?_, fun j hj t hw => ?_⟩
  · have ha : r.id.key ∉ c.abandoned := fun ha => by cases (hc.shunned _ ha).1.symm.trans hw
    obtain ⟨b, hb⟩ := Option.isSome_iff_exists.mp hm
    simp [depositResponse, ha, hw, hb]
  · have hk : j.key ≠ r.id.key := fun hk => hj (RequestId.key_injective hk)
    have ho : c.waiting.get? r.id.key ≠ some t := fun ho => hk (hc.own _ _ _ hw ho)
    rcases hd : c.depositResponse r with ⟨f | o, d⟩
    · obtain ⟨-, rfl⟩ := depositResponse_error hd
      exact ⟨fun he => (by cases he), hw, rfl⟩
    · have hp := depositResponse_placed hd
      have hv := hc.receives hp
      refine ⟨?_, (hv.waiting _ _).mpr ⟨hw, hk⟩, hv.kept t ho⟩
      rintro he
      cases he
      cases hp with
      | delivered h _ => exact ho h

end Correlator

/-- A response with the identifier of a request, copied as it stands there, comes out of the stream wherever it is
cut, and is read as one with that identifier. It goes to the claim under the key of that identifier, while the key
of any other is a different one, whose claim is left alone. -/
theorem echoed_id_correlates (q : Request) (hb : ∀ n, q.id = .number n → n < RequestId.limit)
    (hs : SpellsAll (maxDepth - 1) es body) (he : Echoes q.id es) :
    (∃ front, Utf8.ofText q.encode =
        front ++ (Utf8.ofText ",\"id\":" ++ (q.id.octets ++ Utf8.ofText "\x7d"))) ∧
      (∀ gap rest, (∀ b ∈ gap, isGap b) →
        (⟨gap ++ 123 :: (body ++ 125 :: rest)⟩ : Framer).next = (.ok (some (Entry.all es)), ⟨rest⟩)) ∧
      (∀ (gap more : Bytes) (cs : List Bytes), (∀ b ∈ gap, isGap b) → (∀ b ∈ more, isGap b) →
        cs.flatten = gap ++ 123 :: (body ++ 125 :: more) → (Framer.feed {} cs).2.1 = [] →
        Framer.feed {} cs = ([Entry.all es], [], {})) ∧
      ∃ r, IsResponse (Entry.all es) r ∧ r.id = q.id ∧ r.id.key = q.id.key ∧
        (∀ j : RequestId, j ≠ q.id → j.key ≠ q.id.key) ∧
        ∀ os, let c := (Correlator.Exchange.run os).correlator
          let d := c.deposit (Entry.all es) (isPush (Entry.all es))
          (∀ t, c.waiting.get? q.id.key = some t → (c.mail.get? t).isSome →
            d.1 = .ok (.delivered t) ∧ d.2.mail.get? t = some (.filled r)) ∧
          ∀ j : RequestId, j ≠ q.id → ∀ t, c.waiting.get? j.key = some t →
            d.1 ≠ .ok (.delivered t) ∧ d.2.waiting.get? j.key = some t ∧ d.2.mail.get? t = c.mail.get? t := by
  have ht := Json.readValue_spelled hs []
  have hv : ¬ (Entry.all es).IsBare := nofun
  obtain ⟨r, hr, hri⟩ := he.response hs hb
  refine ⟨encode_ends q, fun gap rest hg => ?_, fun gap more cs hg hm hc hf => ?_, r, hr, hri, by rw [hri],
    fun j hj hk => hj (RequestId.key_injective hk), fun os => ?_⟩
  · refine Framer.next_whole ht hv ?_
    rw [Framer.skipGap_gap hg, skipGap_brace]
    simp
  · have hp : Framer.skipGap (({} : Framer).pending ++ (gap ++ 123 :: (body ++ [125]))) = 123 :: (body ++ [125]) :=
      Framer.skipGap_gap hg _
    exact Framer.feed_object ht hv hp (by simp) hm (by simpa using hc) hf
  · rw [← hri]
    exact Correlator.deposit_own (Correlator.Exchange.tidy_run os) hr

def escaped : Request := { method := "m", params := [], id := .text "a\n" }

def escapedEntries : List Entry := [⟨"result", [49], .ofNat 1⟩, ⟨"id", escaped.id.octets, .text "a\n"⟩]

def escapedBody : Bytes := Utf8.ofText " \"result\" :1, \"\\u0069d\": \"a\\n\" "

lemma spells_escaped : SpellsAll (maxDepth - 1) escapedEntries escapedBody := by
  have h₁ : Json.Spells (maxDepth - 1) ⟨"result", [49], .ofNat 1⟩ _ :=
    @Json.Spells.intro _ _ [32] [32] [] [] (Utf8.ofText "result") (by decide +kernel)
      ⟨{ rev := (Utf8.ofText "result").reverse }, by decide +kernel, by decide +kernel⟩ (by decide +kernel)
  have h₂ : Json.Spells (maxDepth - 1) ⟨"id", escaped.id.octets, .text "a\n"⟩ _ :=
    @Json.Spells.intro _ _ [32] [] [32] [32] (Utf8.ofText "\\u0069d") (by decide +kernel)
      ⟨{ rev := [100, 105] }, by decide +kernel, by decide +kernel⟩ (readValue_octets _ nofun)
  exact SpellsAll.cons h₁ (.last h₂)

lemma echoes_escaped : Echoes escaped.id escapedEntries where
  copied := ⟨_, .tail _ (.head _), rfl⟩
  copies := by decide +kernel
  push := by decide +kernel
  version := nofun
  error := nofun

theorem echoed_id_correlates_escaped :
    let os := [.register (.text "a"), .register escaped.id]
    SpellsAll (maxDepth - 1) escapedEntries escapedBody ∧ Echoes escaped.id escapedEntries ∧
      (⟨123 :: (escapedBody ++ 125 :: [91])⟩ : Framer).next = (.ok (some (Entry.all escapedEntries)), ⟨[91]⟩) ∧
      ∃ r, IsResponse (Entry.all escapedEntries) r ∧ r.id = escaped.id ∧
        ((Correlator.Exchange.run os).correlator.deposit (Entry.all escapedEntries)
          (isPush (Entry.all escapedEntries))).1 = .ok (.delivered 1) := by
  intro os
  obtain ⟨-, hn, -, r, hr, hi, -, -, ho⟩ := echoed_id_correlates escaped nofun spells_escaped echoes_escaped
  exact ⟨spells_escaped, echoes_escaped, hn [] [91] nofun, r, hr, hi, ((ho os).1 1 (by decide +kernel) (by decide +kernel)).1⟩

end SocketRpc
