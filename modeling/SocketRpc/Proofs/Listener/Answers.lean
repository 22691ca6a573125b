import SocketRpc.Proofs.Framing.Delivery
import SocketRpc.Proofs.Json.Records
import SocketRpc.Proofs.Listener.Faults

/-! Which messages answer a request: objects with an identifier, even those with neither a result nor an error. -/

namespace SocketRpc

variable {k : String} {v : Json.Value} {id : RequestId} {r : Response}

lemma RequestId.ofValue_ok (h : RequestId.ofValue v = .ok id) :
    v = id.toValue ∧ ∀ n, id = .number n → n < RequestId.limit := by
  cases v with
  | number n =>
    cases n with
    | integer i =>
      rw [RequestId.ofValue] at h
      split at h
      · rename_i hi
        cases h
        have hn : ((i.toNat : Nat) : Int) = i := Int.toNat_of_nonneg hi.1
        refine ⟨by rw [toValue, Json.Value.ofNat, hn], fun n he => ?_⟩
        cases he
        omega
      · cases h
    | real x => cases h
  | text s =>
    cases h
    exact ⟨rfl, fun n he => by cases he⟩
  | null =>
    cases h
    exact ⟨rfl, fun n he => by cases he⟩
  | _ => cases h

namespace Response

variable {f : Json.Field Draft} {s t : Draft}

structure Fills (s : Draft) (k : String) (t : Draft) : Prop where
  version : k ≠ "jsonrpc" → t.version = s.version
  id : k ≠ "id" → t.id = s.id
  result : k ≠ "result" → t.result = s.result
  error : k ≠ "error" → t.error = s.error

lemma fills_of_field (hf : record.field? k = some f) (h : f.setValue v s = .ok t) : Fills s k t := by
  obtain ⟨hm, rfl⟩ := Json.Record.mem_of_field? hf
  simp only [record, List.mem_cons, List.not_mem_nil, or_false] at hm
  rcases hm with rfl | rfl | rfl | rfl <;> obtain ⟨a, -, rfl⟩ := Json.Field.setValue_of h
  · exact ⟨fun hk => absurd rfl hk, fun _ => rfl, fun _ => rfl, fun _ => rfl⟩
  · exact ⟨fun _ => rfl, fun hk => absurd rfl hk, fun _ => rfl, fun _ => rfl⟩
  · exact ⟨fun _ => rfl, fun _ => rfl, fun hk => absurd rfl hk, fun _ => rfl⟩
  · exact ⟨fun _ => rfl, fun _ => rfl, fun _ => rfl, fun hk => absurd rfl hk⟩

lemma reads_version : record.Reads "jsonrpc" .text Draft.version where
  field := ⟨_, _, rfl, fun _ _ => rfl⟩
  apart _ _ _ _ _ hf hk h := (fills_of_field hf h).version hk

lemma reads_id : record.Reads "id" RequestId.decoder Draft.id where
  field := ⟨_, _, rfl, fun _ _ => rfl⟩
  apart _ _ _ _ _ hf hk h := (fills_of_field hf h).id hk

lemma reads_result : record.Reads "result" (.optional .value) Draft.result where
  field := ⟨_, _, rfl, fun _ _ => rfl⟩
  apart _ _ _ _ _ hf hk h := (fills_of_field hf h).result hk

lemma reads_error : record.Reads "error" (.optional ErrorObject.record.decoder) Draft.error where
  field := ⟨_, _, rfl, fun _ _ => rfl⟩
  apart _ _ _ _ _ hf hk h := (fills_of_field hf h).error hk

lemma record_independent : record.Independent := by
  intro j k f g hf hg hjk v s t h
  have hs := fills_of_field hf h
  obtain ⟨hm, rfl⟩ := Json.Record.mem_of_field? hg
  simp only [record, List.mem_cons, List.not_mem_nil, or_false] at hm
  rcases hm with rfl | rfl | rfl | rfl
  · exact congrArg Option.isSome (hs.version hjk)
  · exact congrArg Option.isSome (hs.id hjk)
  · exact congrArg Option.isSome (hs.result hjk)
  · exact congrArg Option.isSome (hs.error hjk)

lemma build_of_id {i : RequestId} (h : t.id = some i) : record.build t =
    .ok { version := t.version.getD "2.0", id := i, result := t.result.join, error := t.error.join } := by
  simp [record, Json.require, h, bind, Except.bind, pure, Except.pure]

lemma build_of_none (h : t.id = none) : record.build t = .error (.missingField "id") := by
  simp [record, Json.require, h, bind, Except.bind, pure, Except.pure]

lemma ofValue_object {ms : List (String × Json.Value)} (h : record.ofMembers ms record.start = .ok t) :
    Response.ofValue (.object ms) = record.build t := by
  show (do record.build (← record.ofMembers ms record.start)) = _
  rw [h]
  rfl

end Response

structure Names (v : Json.Value) (id : RequestId) : Prop where
  push : isPush v = false
  object : ∃ members, v = .object members
  named : v.get? "id" = some id.toValue
  bounded : ∀ n, id = .number n → n < RequestId.limit

def Carries (v : Json.Value) : Prop := (v.get? "result").isSome ∨ (v.get? "error").isSome

/-- Bears an identifier and has neither a result nor an error. -/
structure Bare (v : Json.Value) : Prop where
  names : ∃ id, Names v id
  result : v.get? "result" = none
  error : v.get? "error" = none
  version : ∀ w, v.get? "jsonrpc" = some w → ∃ s, w = .text s

lemma IsResponse.read (h : IsResponse v r) : ∃ members t, v = .object members ∧
    Response.record.ofMembers members Response.record.start = .ok t ∧ t.id = some r.id := by
  obtain ⟨-, hi, hr⟩ := h
  cases v with
  | object ms =>
    rcases ht : Response.record.ofMembers ms Response.record.start with e | t
    · have hr : (do Response.record.build (← Response.record.ofMembers ms Response.record.start)) = .ok r := hr
      rw [ht] at hr
      cases hr
    · rw [Response.ofValue_object ht] at hr
      rcases hid : t.id with _ | i
      · cases (Response.build_of_none hid).symm.trans hr
      · cases (Response.build_of_id hid).symm.trans hr
        exact ⟨ms, t, rfl, ht, hid⟩
  | _ => cases hi

lemma IsResponse.names (h : IsResponse v r) : Names v r.id := by
  obtain ⟨ms, t, rfl, ht, hid⟩ := h.read
  obtain ⟨i, hi⟩ := Option.isSome_iff_exists.mp h.2.1
  obtain ⟨-, a, ha, hg⟩ := (Response.reads_id.ofMembers ht).2 i hi
  obtain rfl : a = r.id := Option.some.inj (hg.symm.trans hid)
  obtain ⟨rfl, hb⟩ := RequestId.ofValue_ok ha
  exact ⟨h.1, ⟨ms, rfl⟩, hi, hb⟩

lemma IsResponse.version (h : IsResponse v r) {w : Json.Value} (hw : v.get? "jsonrpc" = some w) :
    ∃ s, w = .text s := by
  obtain ⟨ms, t, rfl, ht, -⟩ := h.read
  obtain ⟨-, a, ha, -⟩ := (Response.reads_version.ofMembers ht).2 w hw
  cases w with
  | text s => exact ⟨s, rfl⟩
  | number n => cases n <;> cases ha
  | _ => cases ha

lemma IsResponse.carries (h : IsResponse v r) (hv : ¬Bare v) : Carries v := by
  by_contra hc
  obtain ⟨hr, he⟩ := not_or.mp hc
  exact hv ⟨⟨r.id, h.names⟩, Option.not_isSome_iff_eq_none.mp hr, Option.not_isSome_iff_eq_none.mp he,
    fun _ hw => h.version hw⟩

structure Answering (v : Json.Value) (id : RequestId) : Prop where
  names : Names v id
  version : ∀ w, v.get? "jsonrpc" = some w → ∃ s, w = .text s
  error : ∀ w, v.get? "error" = some w → ∃ e, (Json.Decoder.optional ErrorObject.record.decoder).ofValue w = .ok e

lemma Answering.isResponse {ms : List (String × Json.Value)} (h : Answering (.object ms) id)
    (hd : (ms.map Prod.fst).Nodup) : ∃ r, IsResponse (.object ms) r ∧ r.id = id ∧
      ((Json.Value.object ms).get? "result" = none → r.result = none) ∧
      ((Json.Value.object ms).get? "error" = none → r.error = none) := by
  have hn := h.names
  obtain ⟨t, ht⟩ : ∃ t, Response.record.ofMembers ms Response.record.start = .ok t := by
    refine Response.record_independent.ofMembers hd fun k w f hw hf => ?_
    have hk : Json.findMember k ms = some w := Json.findMember_of_mem hd hw
    obtain ⟨hm, rfl⟩ := Json.Record.mem_of_field? hf
    simp only [Response.record, List.mem_cons, List.not_mem_nil, or_false] at hm
    rcases hm with rfl | rfl | rfl | rfl
    · obtain ⟨a, rfl⟩ := h.version w hk
      exact ⟨rfl, fun s => ⟨_, rfl⟩⟩
    · obtain rfl : w = id.toValue := Option.some.inj (hk.symm.trans hn.named)
      refine ⟨rfl, fun s => ⟨{ s with id := some id }, ?_⟩⟩
      show (RequestId.ofValue id.toValue).map _ = _
      rw [Framer.ofValue_toValue id hn.bounded]
      rfl
    · refine ⟨rfl, fun s => ?_⟩
      cases w <;> exact ⟨_, rfl⟩
    · obtain ⟨e, he⟩ := h.error w hk
      refine ⟨rfl, fun s => ⟨{ s with error := some e }, ?_⟩⟩
      show ((Json.Decoder.optional ErrorObject.record.decoder).ofValue w).map _ = _
      rw [he]
      rfl
  obtain ⟨-, i, hi, hg⟩ := (Response.reads_id.ofMembers ht).2 _ hn.named
  obtain rfl : id = i := Except.ok.inj ((Framer.ofValue_toValue id hn.bounded).symm.trans hi)
  refine ⟨_, ⟨hn.push, by rw [hn.named]; rfl, (Response.ofValue_object ht).trans (Response.build_of_id hg)⟩, rfl,
    fun hr => ?_, fun he => ?_⟩
  · have hr := (Response.reads_result.ofMembers ht).1 hr
    rw [hr]
    rfl
  · have he := (Response.reads_error.ofMembers ht).1 he
    rw [he]
    rfl

lemma Bare.isResponse {ms : List (String × Json.Value)} (h : Bare (.object ms)) (hd : (ms.map Prod.fst).Nodup) :
    ∃ r, IsResponse (.object ms) r ∧ r.result = none ∧ r.error = none := by
  obtain ⟨id, hn⟩ := h.names
  have ha : Answering (.object ms) id := ⟨hn, h.version, fun w hw => by cases hw.symm.trans h.error⟩
  obtain ⟨r, hr, -, hres, herr⟩ := ha.isResponse hd
  exact ⟨r, hr, hres h.result, herr h.error⟩

lemma Correlator.deposit_isResponse (c : Correlator) (h : IsResponse v r) :
    c.deposit v (isPush v) = c.depositResponse r := by
  obtain ⟨hp, hi, hr⟩ := h
  obtain ⟨i, hi⟩ := Option.isSome_iff_exists.mp hi
  simp [Correlator.deposit, hp, hi, hr]

namespace Provider

variable {p : Provider} {l : ListenerId}

structure PassesOver (p : Provider) (l : ListenerId) (v : Json.Value) : Prop where
  claims : (p.leave l v).2.correlator.claims = p.correlator.claims
  queued : ∀ o, (p.leave l v).1 = .ok o → ∃ s, o = .queued s
  goesOn : ∀ vs, p.depositAll l (v :: vs) = (p.leave l v).2.depositAll l vs

lemma passesOver_of (h : ∀ r, ¬IsResponse v r) : p.PassesOver l v := by
  obtain ⟨ns, hl⟩ := p.leave_eq l v
  refine ⟨?_, fun o ho => ?_, fun vs => ?_⟩
  · rw [hl]
    rcases p.correlator.deposit_cases v (isPush v) with ⟨r, o, hp, -, ho, -⟩ | ⟨hc, -⟩
    · rcases Correlator.deposit_ok (Prod.ext ho rfl) with hn | ⟨r, hr⟩
      · cases hp.symm.trans hn.1
      · exact absurd hr (h r)
    · exact hc
  · rw [hl] at ho
    rcases Correlator.deposit_ok (Prod.ext ho rfl) with ⟨hp, n, hn⟩ | ⟨r, hr⟩
    · simp only [Correlator.deposit, hp, if_true, Correlator.depositPush, hn] at ho
      exact ⟨_, (Except.ok.inj ho).symm⟩
    · exact absurd hr (h r)
  · rcases hd : p.leave l v with ⟨f | o, q⟩
    · have hs : isSkipped f = true := by
        rw [hl] at hd
        rcases Correlator.deposit_error_cases (Prod.ext (Prod.mk.inj hd).1 rfl) with ⟨r, _, hr, -⟩ | ⟨-, hs⟩
        · exact absurd hr (h r)
        · exact hs
      simp [depositAll, hd, hs]
    · simp [depositAll, hd]

/-- Only an object that is no push, has an identifier and carries a result or an error resolves a claim, is parked or
uses up a request given up, unless it has an identifier and neither; whatever else there is in it, such an object is
a response, and its result is null. -/
theorem only_responses_answer (p : Provider) (l : ListenerId) (v : Json.Value) :
    (¬Bare v → (∃ id, Names v id ∧ Carries v) ∨ p.PassesOver l v) ∧
    ∀ ms, v = .object ms → (ms.map Prod.fst).Nodup → Bare v → ∃ r, Names v r.id ∧ r.outcome = .ok .null ∧
      (p.leave l v).1 = (p.correlator.depositResponse r).1 ∧
      (p.leave l v).2.correlator = (p.correlator.depositResponse r).2 := by
  refine ⟨fun hb => ?_, fun ms hv hd hb => ?_⟩
  · by_cases h : ∃ r, IsResponse v r
    · obtain ⟨r, hr⟩ := h
      exact Or.inl ⟨r.id, hr.names, hr.carries hb⟩
    · exact Or.inr (passesOver_of (not_exists.mp h))
  · subst hv
    obtain ⟨r, hr, hn, he⟩ := hb.isResponse hd
    obtain ⟨ns, hl⟩ := p.leave_eq l (.object ms)
    rw [hl, p.correlator.deposit_isResponse hr]
    exact ⟨r, hr.names, by rw [Response.outcome, he, hn]; rfl, rfl, rfl⟩

def echoed : Json.Value :=
  .object [("id", .number (.integer 5)), ("method", .text "eth_call"), ("params", .array [])]

lemma bare_echoed : Bare echoed where
  names := ⟨.number 5, rfl, ⟨_, rfl⟩, rfl, fun n hn => by cases hn; decide⟩
  result := rfl
  error := rfl
  version _ h := by cases h

theorem only_responses_answer_echoed :
    ¬Bare (.text "pong") ∧ Bare echoed ∧ (attended {}).PassesOver 0 (.text "pong") ∧
      ∃ r, Names echoed r.id ∧ r.outcome = .ok .null ∧
        ((attended {}).leave 0 echoed).1 = ((attended {}).correlator.depositResponse r).1 := by
  have hp : ¬Bare (.text "pong") := fun ⟨⟨_, hn⟩, _, _, _⟩ => by cases hn.named
  obtain ⟨r, hn, ho, hl, -⟩ := (only_responses_answer (attended {}) 0 echoed).2 _ rfl (by decide) bare_echoed
  refine ⟨hp, bare_echoed, ?_, r, hn, ho, hl⟩
  rcases (only_responses_answer (attended {}) 0 (.text "pong")).1 hp with ⟨_, hn, -⟩ | h
  · cases hn.named
  · exact h

/-- A request that is sent back by the node answers itself. -/
theorem request_answers_itself :
    ¬Carries echoed ∧ ((attended {}).leave 0 echoed).1 = .ok (.delivered 0) ∧
      ∃ r, (((attended {}).leave 0 echoed).2.correlator.receive 0).1 = .filled r ∧ r.outcome = .ok .null := by
  refine ⟨?_, rfl, _, rfl, rfl⟩
  simp [Carries, echoed, Json.Value.get?, Json.findMember]

end Provider

end SocketRpc
