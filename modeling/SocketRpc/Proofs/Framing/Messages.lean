import Mathlib.Data.List.TakeWhile
import SocketRpc.Framing
import SocketRpc.Proofs.Json.Scan

namespace SocketRpc.Framer

open Json (Value readValue)
open Json.Reader (scan run_eq_scan maxDepth)

variable {f g : Framer} {v : Value} {b : UInt8} {rest left : Bytes}

lemma isBlank_of_not_isGap (h : isGap b = false) : Json.Reader.isBlank b = false := by
  simp only [isGap, Bool.or_eq_false_iff] at h
  exact h.1

lemma step_first (room : Nat) (h : isGap b = false) :
    (∃ r : Json.Reader, isDelimited b = true ∧ ({} : Json.Reader).step room b = .more r ∧ r.Enclosed) ∨
      (∃ r : Json.Reader, isDelimited b = false ∧ ({} : Json.Reader).step room b = .more r ∧ r.Bare) ∨
      ∃ e, ({} : Json.Reader).step room b = .fail e := by
  have hb := isBlank_of_not_isGap h
  simp only [Json.Reader.step, hb, Bool.false_eq_true, if_false]
  by_cases hd : isDelimited b = true
  · unfold Json.Reader.begin Json.Reader.openFrame
    simp only [isDelimited, Bool.or_eq_true, decide_eq_true_eq] at hd
    obtain (rfl | rfl) | rfl := hd
    · exact Or.inl ⟨_, rfl, rfl, Or.inr ⟨{}, rfl⟩⟩
    all_goals
      by_cases hr : room ≤ 0
      · exact Or.inr (Or.inr ⟨.tooDeep, by simp [hr]⟩)
      · exact Or.inl ⟨_, rfl, by simp only [List.length_nil, hr]; rfl, Or.inl (by simp)⟩
  · apply Or.inr
    have hd' : b ≠ 34 ∧ b ≠ 91 ∧ b ≠ 123 := by
      simpa [isDelimited, and_assoc] using hd
    rw [Json.Reader.begin]
    simp only [hd', if_false]
    repeat' split
    all_goals first
      | exact Or.inr ⟨_, rfl⟩
      | exact Or.inl ⟨_, by simpa using hd, rfl, rfl, Or.inl ⟨_, _, rfl⟩⟩
      | exact Or.inl ⟨_, by simpa using hd, rfl, rfl, Or.inr ⟨_, _, rfl, by simp⟩⟩

lemma readValue_left (h : isGap b = false) (hr : readValue maxDepth (b :: rest) = .ok (v, left)) :
    ∃ used, rest = used ++ left := by
  rw [readValue, run_eq_scan, scan] at hr
  have hs : ∀ r : Json.Reader, ({} : Json.Reader).step maxDepth b = .more r →
      ∃ used, rest = used ++ left := by
    intro r hr'
    rw [hr'] at hr
    cases hc : scan maxDepth r rest with
    | more t =>
      simp only [hc] at hr
      cases hf : t.finish with
      | error e => simp [hf, Except.map] at hr
      | ok w =>
        simp only [hf, Except.map, Except.ok.injEq, Prod.mk.injEq] at hr
        exact ⟨rest, by rw [← hr.2, List.append_nil]⟩
    | done w l =>
      simp only [hc, Except.ok.injEq, Prod.mk.injEq] at hr
      exact hr.2 ▸ Json.Reader.scan_left hc
    | fail e => simp [hc] at hr
  obtain ⟨r, -, hr', -⟩ | ⟨r, -, hr', -⟩ | ⟨e, he⟩ := step_first maxDepth h
  · exact hs r hr'
  · exact hs r hr'
  · simp [he] at hr

lemma readValue_append (h : isGap b = false) (hr : readValue maxDepth (b :: rest) = .ok (v, left))
    (hv : ¬ v.IsBare) (cs : Bytes) :
    isDelimited b = true ∧ readValue maxDepth (b :: rest ++ cs) = .ok (v, left ++ cs) := by
  simp only [readValue, run_eq_scan, scan, List.cons_append] at hr ⊢
  obtain ⟨r, hd, hr', he⟩ | ⟨r, -, hr', he⟩ | ⟨e, he⟩ := step_first maxDepth h
  · refine ⟨hd, ?_⟩
    simp only [hr'] at hr ⊢
    cases hc : scan maxDepth r rest with
    | more t =>
      obtain ⟨e, hf⟩ := Json.Reader.finish_enclosed (Json.Reader.scan_more_enclosed he hc)
      simp [hc, hf, Except.map] at hr
    | done w l =>
      simp only [hc, Except.ok.injEq, Prod.mk.injEq] at hr
      rw [Json.Reader.scan_append_of_done hc, hr.1, hr.2]
    | fail e => simp [hc] at hr
  · obtain ⟨hm, hd⟩ := Json.Reader.scan_bare maxDepth he rest
    simp only [hr'] at hr
    cases hc : scan maxDepth r rest with
    | more t =>
      simp only [hc] at hr
      cases hf : t.finish with
      | error e => simp [hf, Except.map] at hr
      | ok w =>
        simp only [hf, Except.map, Except.ok.injEq, Prod.mk.injEq] at hr
        exact absurd (hr.1 ▸ Json.Reader.finish_bare (hm t hc) hf) hv
    | done w l =>
      simp only [hc, Except.ok.injEq, Prod.mk.injEq] at hr
      exact absurd (hr.1 ▸ hd w l hc) hv
    | fail e => simp [hc] at hr
  · simp [he] at hr

lemma skipGap_cons {bs : Bytes} (h : skipGap bs = b :: rest) : isGap b = false := by
  have := List.head?_dropWhile_not isGap bs
  rw [← skipGap, h] at this
  simpa using this

lemma skipGap_split (bs : Bytes) :
    ∃ gap, bs = gap ++ skipGap bs ∧ ∀ b ∈ gap, isGap b = true :=
  ⟨bs.takeWhile isGap, (List.takeWhile_append_dropWhile).symm, fun _ hb => List.mem_takeWhile_imp hb⟩

lemma skipGap_gap {gap : Bytes} (h : ∀ b ∈ gap, isGap b = true) (bs : Bytes) :
    skipGap (gap ++ bs) = skipGap bs :=
  List.dropWhile_append_of_pos h

lemma skipGap_append (bs cs : Bytes) : skipGap (skipGap bs ++ cs) = skipGap (bs ++ cs) := by
  induction bs with
  | nil => rfl
  | cons b rest ih =>
    by_cases hb : isGap b
    · simpa only [skipGap, List.dropWhile_cons, hb, if_true, List.cons_append] using ih
    · simp [skipGap, hb]

lemma skipGap_skipGap (bs : Bytes) : skipGap (skipGap bs) = skipGap bs := by
  simpa using skipGap_append bs []

lemma skipGap_push (h : skipGap f.pending = b :: rest) (bs : Bytes) :
    skipGap (f.push bs).pending = b :: rest ++ bs := by
  rw [push, ← skipGap_append, h]
  simp [skipGap, skipGap_cons h]

lemma skipGap_length_le (bs : Bytes) : (skipGap bs).length ≤ bs.length :=
  (List.dropWhile_sublist isGap).length_le

lemma next_eq_of_skipGap (h : skipGap f.pending = skipGap g.pending) : f.next = g.next := by
  simp only [next]
  rw [h]

lemma next_of_ok (h : skipGap f.pending = b :: rest) (hr : readValue maxDepth (b :: rest) = .ok (v, left)) :
    f.next = if isDelimited b || mayFollow left then (.ok (some v), ⟨left⟩)
      else (.error ⟨rest.length + 1 - left.length, .trailing⟩, ⟨b :: rest⟩) := by
  simp only [next, h, hr]

lemma next_some (h : f.next = (.ok (some v), g)) :
    ∃ b used, skipGap f.pending = b :: (used ++ g.pending) ∧
      readValue maxDepth (b :: (used ++ g.pending)) = .ok (v, g.pending) := by
  rw [next] at h
  split at h
  · cases h
  · rename_i b rest hs
    split at h
    · rename_i w left hr
      split at h
      · obtain ⟨rfl, rfl⟩ : w = v ∧ (⟨left⟩ : Framer) = g := by simpa using h
        obtain ⟨used, rfl⟩ := readValue_left (skipGap_cons hs) hr
        exact ⟨b, used, hs, hr⟩
      · cases h
    · split at h <;> cases h

lemma next_none (h : f.next = (.ok none, g)) : g.pending = skipGap f.pending := by
  rw [next] at h
  split at h
  · rename_i hs
    cases h
    exact hs.symm
  · rename_i hs
    split at h
    · split at h <;> cases h
    · split at h <;> cases h
      exact hs.symm

lemma next_shorter (h : f.next = (.ok (some v), g)) : g.pending.length < f.pending.length := by
  obtain ⟨b, used, hs, -⟩ := next_some h
  have := skipGap_length_le f.pending
  rw [hs] at this
  simp only [List.length_cons, List.length_append] at this
  omega

lemma next_push (h : f.next = (.ok (some v), g)) (hv : ¬ v.IsBare) (bs : Bytes) :
    (f.push bs).next = (.ok (some v), g.push bs) := by
  obtain ⟨b, used, hs, hr⟩ := next_some h
  obtain ⟨hd, hr'⟩ := readValue_append (skipGap_cons hs) hr hv bs
  rw [next_of_ok (skipGap_push hs bs) hr']
  simp [hd, push]

lemma next_push_of_none (h : f.next = (.ok none, g)) (bs : Bytes) :
    (f.push bs).next = (g.push bs).next := by
  apply next_eq_of_skipGap
  simp only [push, next_none h, skipGap_append]

lemma next_of_none (h : f.next = (.ok none, g)) : g.next = (.ok none, g) := by
  have hg : g.next = f.next := by
    apply next_eq_of_skipGap
    rw [next_none h, skipGap_skipGap]
  rw [hg, h]

lemma take_of_lt {m n : Nat} (hm : f.pending.length < m) (hn : f.pending.length < n) :
    take m f = take n f := by
  induction m generalizing f n with
  | zero => omega
  | succ m ih =>
    obtain _ | n := n
    · omega
    · simp only [take]
      split
      · rename_i v g h
        have := next_shorter h
        rw [ih (f := g) (n := n) (by omega) (by omega)]
      · rfl
      · rfl

lemma messages_of_some (h : f.next = (.ok (some v), g)) :
    f.messages = (v :: g.messages.1, g.messages.2) := by
  have := next_shorter h
  rw [messages, take, h]
  simp only [messages]
  rw [take_of_lt (f := g) (m := f.pending.length) (n := g.pending.length + 1) (by omega) (by omega)]

lemma messages_of_none (h : f.next = (.ok none, g)) : f.messages = ([], none, g) := by
  rw [messages, take, h]

lemma messages_of_error {m : Malformed} (h : f.next = (.error m, g)) :
    f.messages = ([], some m, g) := by
  rw [messages, take, h]

lemma messages_induction {motive : Framer → Prop}
    (some : ∀ f v g, f.next = (.ok (some v), g) → motive g → motive f)
    (none : ∀ f g, f.next = (.ok none, g) → motive f)
    (error : ∀ f m g, f.next = (.error m, g) → motive f) (f : Framer) : motive f := by
  induction hn : f.pending.length using Nat.strongRecOn generalizing f with
  | _ n ih =>
    rcases h : f.next with ⟨_ | _ | v, g⟩
    · exact error f _ g h
    · exact none f g h
    · exact some f v g h (ih _ (hn ▸ next_shorter h) g rfl)

lemma messages_push (f : Framer) {vs : List Value} {g : Framer} (h : f.messages = (vs, none, g))
    (hv : ∀ v ∈ vs, ¬ v.IsBare) (bs : Bytes) :
    (f.push bs).messages = (vs ++ (g.push bs).messages.1, (g.push bs).messages.2) := by
  induction f using messages_induction generalizing vs with
  | some f v f' hn ih =>
    rw [messages_of_some hn] at h
    simp only [Prod.mk.injEq] at h
    obtain ⟨rfl, hm⟩ := h
    have hf' : f'.messages = (f'.messages.1, none, g) := by rw [← hm]
    rw [messages_of_some (next_push hn (hv v (by simp)) bs),
      ih hf' fun w hw => hv w (by simp [hw])]
    rfl
  | none f f' hn =>
    rw [messages_of_none hn] at h
    simp only [Prod.mk.injEq, true_and] at h
    obtain ⟨rfl, rfl⟩ := h
    have he := next_push_of_none hn bs
    rw [List.nil_append]
    rcases hp : (f'.push bs).next with ⟨_ | _ | v, k⟩
    · rw [messages_of_error hp, messages_of_error (he.trans hp)]
    · rw [messages_of_none hp, messages_of_none (he.trans hp)]
    · rw [messages_of_some hp, messages_of_some (he.trans hp)]
  | error f m f' hn =>
    rw [messages_of_error hn] at h
    simp at h

def Drained (f : Framer) : Prop := f.messages = ([], none, f)

lemma drained_new : Drained {} := rfl

lemma messages_drained (f : Framer) (vs : List Value) {g : Framer}
    (h : f.messages = (vs, none, g)) : g.Drained := by
  induction f using messages_induction generalizing vs with
  | some f v f' hn ih =>
    rw [messages_of_some hn] at h
    exact ih f'.messages.1 (by rw [← (Prod.mk.inj h).2])
  | none f f' hn =>
    rw [messages_of_none hn] at h
    simp only [Prod.mk.injEq, true_and] at h
    obtain ⟨-, rfl⟩ := h
    exact messages_of_none (next_of_none hn)
  | error f m f' hn =>
    rw [messages_of_error hn] at h
    simp at h

/-- The messages and complaints while chunks arrive; what is malformed empties the buffer. -/
def feed : Framer → List Bytes → List Value × List Malformed × Framer
  | f, [] => ([], [], f)
  | f, c :: cs =>
    let (vs, m, g) := (f.push c).messages
    let (ws, ms, h) := feed (if m.isSome then {} else g) cs
    (vs ++ ws, m.toList ++ ms, h)

lemma push_push (f : Framer) (bs cs : Bytes) : (f.push bs).push cs = f.push (bs ++ cs) := by
  simp [push]

lemma feed_eq_messages {cs : List Bytes} (hf : f.Drained) (hm : (f.feed cs).2.1 = [])
    (hv : ∀ v ∈ (f.feed cs).1, ¬ v.IsBare) :
    (f.push cs.flatten).messages = ((f.feed cs).1, none, (f.feed cs).2.2) := by
  induction cs generalizing f with
  | nil =>
    have : f.push ([] : List Bytes).flatten = f := by simp [push]
    rw [this]
    exact hf
  | cons c cs ih =>
    rcases h : (f.push c).messages with ⟨vs, _ | m, g⟩
    · simp only [feed, h, Option.isSome_none, Bool.false_eq_true, if_false, Option.toList_none,
        List.nil_append, List.mem_append] at hm hv ⊢
      rw [List.flatten_cons, ← push_push, messages_push _ h fun v hw => hv v (Or.inl hw),
        ih (messages_drained _ vs h) hm fun v hw => hv v (Or.inr hw)]
    · simp [feed, h] at hm

end SocketRpc.Framer
