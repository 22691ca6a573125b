import SocketRpc.Proofs.Framing.Messages

namespace SocketRpc.Json

namespace Reader

variable {room : Nat} {r : Reader} {bs left : Bytes} {v : Value} {b : UInt8}

def Step.Uses : Step → Prop
  | .done _ used => used = true
  | _ => True

lemma deliver_uses (v : Value) (stack : List Frame) : (deliver v stack).Uses := by
  cases stack with
  | nil => rfl
  | cons frame stack => cases frame <;> trivial

lemma begin_uses (stack : List Frame) (b : UInt8) : (begin room stack b).Uses := by
  unfold begin openFrame
  grind [Step.Uses]

lemma separate_uses (stack : List Frame) (b : UInt8) : (separate stack b).Uses := by
  unfold separate
  grind [Step.Uses, deliver_uses]

lemma step_uses (hm : ∀ negative s, r.mode ≠ .number negative s) (b : UInt8) : (r.step room b).Uses := by
  obtain ⟨mode, stack⟩ := r
  cases mode with
  | number negative s => exact absurd rfl (hm negative s)
  | after => exact separate_uses stack b
  | _ =>
    simp only [step]
    grind [Step.Uses, deliver_uses, begin_uses]

lemma complete_of_ended {s : NumberScan} (h : s.step b = .ended) : s.isComplete = true := by
  cases s <;> first | rfl | (simp only [NumberScan.step] at h; split at h <;> grind)

lemma finish_of_ended {negative : Bool} {s : NumberScan} {stack : List Frame}
    (h : ({ mode := .number negative s, stack } : Reader).step room b = .done v false) :
    ({ mode := .number negative s, stack } : Reader).finish = .ok v := by
  simp only [step] at h
  split at h
  · cases h
  · cases h
  · rename_i hs
    split at h
    · cases h
    · rename_i n hn
      cases stack with
      | nil =>
        cases h
        simp [finish, complete_of_ended hs, hn]
      | cons frame stack =>
        rw [endNumber] at h
        have hu : (Step.done v false).Uses := by
          cases frame <;> exact h ▸ separate_uses _ b
        cases hu

lemma finish_of_unused (h : r.step room b = .done v false) : r.finish = .ok v := by
  obtain ⟨mode, stack⟩ := r
  by_cases hm : ∃ negative s, mode = .number negative s
  · obtain ⟨negative, s, rfl⟩ := hm
    exact finish_of_ended h
  · have hu : (Reader.step room { mode, stack } b).Uses := step_uses (r := { mode, stack }) (fun n s he => hm ⟨n, s, he⟩) b
    rw [h] at hu
    cases hu

lemma run_used (h : r.run room bs = .ok (v, left)) :
    ∃ used, bs = used ++ left ∧ r.run room used = .ok (v, []) := by
  induction bs generalizing r with
  | nil =>
    cases hf : r.finish with
    | error e => simp [run, hf, Except.map] at h
    | ok w =>
      simp only [run, hf, Except.map, Except.ok.injEq, Prod.mk.injEq] at h
      obtain ⟨rfl, rfl⟩ := h
      exact ⟨[], rfl, by simp [run, hf, Except.map]⟩
  | cons b rest ih =>
    rw [run] at h
    split at h
    · rename_i s hs
      obtain ⟨used, rfl, hu⟩ := ih h
      exact ⟨b :: used, rfl, by simpa only [run, hs] using hu⟩
    · rename_i w hs
      cases h
      exact ⟨[b], rfl, by simp only [run, hs]⟩
    · rename_i w hs
      cases h
      exact ⟨[], rfl, by simp only [run, finish_of_unused hs, Except.map]⟩
    · cases h

end Reader

lemma readValue_used {room : Nat} {bs left : Bytes} {v : Value} (h : readValue room bs = .ok (v, left)) :
    ∃ text, bs = text ++ left ∧ readValue room text = .ok (v, []) := Reader.run_used h

end SocketRpc.Json

namespace SocketRpc

open Json (Value)

inductive Written : List Value → Bytes → Prop
  | nil (bs : Bytes) : Written [] bs
  | cons {v : Value} {vs : List Value} {text rest : Bytes} (before : Bytes)
      (h : Json.readValue Json.Reader.maxDepth text = .ok (v, [])) (tail : Written vs rest) :
      Written (v :: vs) (before ++ text ++ rest)

namespace Written

variable {vs ws : List Value} {bs cs : Bytes}

lemma behind (h : Written vs bs) (before : Bytes) : Written vs (before ++ bs) := by
  cases h with
  | nil => exact .nil _
  | cons gap hr tail => simpa only [List.append_assoc] using Written.cons (before ++ gap) hr tail

lemma append (h : Written vs bs) (g : Written ws cs) : Written (vs ++ ws) (bs ++ cs) := by
  induction h with
  | nil bs => exact g.behind bs
  | cons before hr _ ih =>
    rw [List.append_assoc]
    exact .cons before hr ih

lemma extend (h : Written vs bs) (cs : Bytes) : Written vs (bs ++ cs) := by
  simpa using h.append (.nil cs)

lemma take (h : Written vs bs) (n : Nat) : Written (vs.take n) bs := by
  induction h generalizing n with
  | nil bs => simpa using .nil bs
  | cons before hr tail ih =>
    cases n with
    | zero => exact .nil _
    | succ n => exact .cons before hr (ih n)

end Written

namespace Framer

variable {f g : Framer} {v : Value}

lemma next_error {m : Malformed} (h : f.next = (.error m, g)) : g.pending = skipGap f.pending := by
  rw [next] at h
  split at h
  · cases h
  · rename_i hs
    split at h
    · split at h <;> cases h
      exact hs.symm
    · split at h <;> cases h
      exact hs.symm

lemma next_written (h : f.next = (.ok (some v), g)) :
    ∃ gap b used, f.pending = gap ++ b :: used ++ g.pending ∧ (∀ c ∈ gap, isGap c = true) ∧
      isGap b = false ∧ Json.readValue Json.Reader.maxDepth (b :: used) = .ok (v, []) := by
  obtain ⟨b, used, hs, hr⟩ := next_some h
  obtain ⟨text, ht, hr⟩ := Json.readValue_used hr
  obtain ⟨gap, hf, hg⟩ := skipGap_split f.pending
  obtain rfl : b :: used = text := List.append_cancel_right ht
  exact ⟨gap, b, used, by rw [hf, hs, List.append_assoc, List.cons_append], hg, skipGap_cons hs, hr⟩

lemma messages_written (f : Framer) :
    ∃ used, f.pending = used ++ f.messages.2.2.pending ∧ Written f.messages.1 used := by
  induction f using messages_induction with
  | some f v g h ih =>
    obtain ⟨gap, b, text, hf, -, -, hr⟩ := next_written h
    obtain ⟨used, hg, hw⟩ := ih
    rw [messages_of_some h]
    exact ⟨gap ++ b :: text ++ used, by rw [hf, List.append_assoc _ used, ← hg], .cons gap hr hw⟩
  | none f g h =>
    obtain ⟨gap, hg, -⟩ := skipGap_split f.pending
    rw [messages_of_none h]
    exact ⟨gap, by rwa [next_none h], .nil _⟩
  | error f m g h =>
    obtain ⟨gap, hg, -⟩ := skipGap_split f.pending
    rw [messages_of_error h]
    exact ⟨gap, by rwa [next_error h], .nil _⟩

lemma Drained.next (h : f.Drained) : f.next = (.ok none, f) := by
  rcases hn : f.next with ⟨_ | _ | v, g⟩
  · cases (messages_of_error hn).symm.trans h
  · cases (messages_of_none hn).symm.trans h
    rfl
  · cases (messages_of_some hn).symm.trans h

end Framer

end SocketRpc
