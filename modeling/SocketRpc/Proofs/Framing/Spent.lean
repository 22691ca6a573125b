import SocketRpc.Proofs.Framing.Written

/-! What a buffer gives up when it is asked for messages: gaps, and one text for each message. -/

namespace SocketRpc.Framer

open Json (Value)

variable {f g : Framer} {v : Value} {vs ws : List Value} {gap bs cs : Bytes}

/-- By itself the text is the message, to a reader of whole documents as to a buffer. -/
structure IsText (v : Value) (text : Bytes) : Prop where
  nonempty : text ≠ []
  parse : Json.parse text = .ok v
  next : (⟨text⟩ : Framer).next = (.ok (some v), {})

inductive Spent : List Value → Bytes → Prop where
  | nil {gap : Bytes} (hg : ∀ b ∈ gap, isGap b = true) : Spent [] gap
  | cons {v : Value} {vs : List Value} {gap text rest : Bytes} (hg : ∀ b ∈ gap, isGap b = true)
      (ht : IsText v text) (hs : Spent vs rest) :
      Spent (v :: vs) (gap ++ text ++ rest)

inductive Act where
  | push (chunk : Bytes)
  | next

def Act.chunk : Act → Bytes
  | push chunk => chunk
  | next => []

def perform : Framer → List Act → List (Except Malformed (Option Value)) × Framer
  | f, [] => ([], f)
  | f, .push chunk :: acts => (f.push chunk).perform acts
  | f, .next :: acts => (f.next.1 :: (f.next.2.perform acts).1, (f.next.2.perform acts).2)

def value? : Except Malformed (Option Value) → Option Value
  | .ok v => v
  | .error _ => none

inductive Loop : Nat → Framer → List Value → Option Malformed → Framer → Prop where
  | none {f g : Framer} (hn : f.next = (.ok none, g)) : Loop 1 f [] none g
  | error {f g : Framer} {m : Malformed} (hn : f.next = (.error m, g)) : Loop 1 f [] (some m) g
  | value {n : Nat} {f g h : Framer} {v : Value} {vs : List Value} {m : Option Malformed}
      (hn : f.next = (.ok (some v), g)) (hl : Loop n g vs m h) : Loop (n + 1) f (v :: vs) m h

lemma isText_of_read {b : UInt8} {used : Bytes} (hb : isGap b = false)
    (hr : Json.readValue Json.Reader.maxDepth (b :: used) = .ok (v, [])) : IsText v (b :: used) where
  nonempty := List.cons_ne_nil b used
  parse := by
    rw [Json.parse, hr]
    rfl
  next := by
    have hs : skipGap (b :: used) = b :: used := by simp [skipGap, hb]
    rw [next_of_ok hs hr]
    simp [mayFollow]

lemma next_text (hn : f.next = (.ok (some v), g)) :
    ∃ gap text, f.pending = gap ++ text ++ g.pending ∧ (∀ b ∈ gap, isGap b = true) ∧ IsText v text := by
  obtain ⟨gap, b, used, hf, hg, hb, hr⟩ := next_written hn
  exact ⟨gap, b :: used, hf, hg, isText_of_read hb hr⟩

lemma next_spent (f : Framer) :
    ∃ used, f.pending = used ++ f.next.2.pending ∧ Spent (value? f.next.1).toList used := by
  obtain ⟨gap, hf, hg⟩ := skipGap_split f.pending
  rcases hn : f.next with ⟨m | v | v, g⟩
  · exact ⟨gap, by rw [next_error hn, ← hf], .nil hg⟩
  · exact ⟨gap, by rw [next_none hn, ← hf], .nil hg⟩
  · obtain ⟨gap, text, hf, hg, ht⟩ := next_text hn
    have hs : Spent [v] (gap ++ text ++ []) := .cons hg ht (.nil (by simp))
    rw [List.append_nil] at hs
    exact ⟨gap ++ text, hf, hs⟩

namespace Spent

lemma behind (hg : ∀ b ∈ gap, isGap b = true) (hs : Spent vs bs) : Spent vs (gap ++ bs) := by
  cases hs with
  | nil hg' => exact .nil fun b hb => (List.mem_append.mp hb).elim (hg b) (hg' b)
  | cons hg' ht hs =>
    rw [← List.append_assoc, ← List.append_assoc]
    exact .cons (fun b hb => (List.mem_append.mp hb).elim (hg b) (hg' b)) ht hs

lemma append (hs : Spent vs bs) (ht : Spent ws cs) : Spent (vs ++ ws) (bs ++ cs) := by
  induction hs with
  | nil hg => exact ht.behind hg
  | cons hg ht _ ih =>
    rw [List.append_assoc, List.cons_append]
    exact .cons hg ht ih

end Spent

lemma perform_spent (f : Framer) (acts : List Act) :
    ∃ used, f.pending ++ acts.flatMap Act.chunk = used ++ (f.perform acts).2.pending ∧
      Spent ((f.perform acts).1.filterMap value?) used := by
  induction acts generalizing f with
  | nil => exact ⟨[], by simp [perform], .nil (by simp)⟩
  | cons a acts ih =>
    cases a with
    | push chunk =>
      obtain ⟨used, hf, hs⟩ := ih (f.push chunk)
      refine ⟨used, ?_, hs⟩
      rw [List.flatMap_cons, Act.chunk, ← List.append_assoc]
      exact hf
    | next =>
      obtain ⟨used, hf, hs⟩ := next_spent f
      obtain ⟨used', hf', hs'⟩ := ih f.next.2
      refine ⟨used ++ used', ?_, ?_⟩
      · rw [List.flatMap_cons, Act.chunk, List.nil_append, hf, List.append_assoc, hf',
          ← List.append_assoc, perform]
      · have hv : ((f.perform (.next :: acts)).1).filterMap value? =
            (value? f.next.1).toList ++ (f.next.2.perform acts).1.filterMap value? := by
          rw [perform, List.filterMap_cons]
          cases value? f.next.1 <;> rfl
        rw [hv]
        exact hs.append hs'

lemma loop_messages (f : Framer) :
    ∃ n ≤ f.pending.length + 1, Loop n f f.messages.1 f.messages.2.1 f.messages.2.2 := by
  induction f using messages_induction with
  | some f v g hn ih =>
    obtain ⟨n, hle, hl⟩ := ih
    have := next_shorter hn
    rw [messages_of_some hn]
    exact ⟨n + 1, by omega, .value hn hl⟩
  | none f g hn =>
    rw [messages_of_none hn]
    exact ⟨1, by omega, .none hn⟩
  | error f m g hn =>
    rw [messages_of_error hn]
    exact ⟨1, by omega, .error hn⟩

/-- A call gives up a gap and the text of the message it gives, and nothing but the gap if it gives
none. So what was pushed is gaps, the texts of the messages that came, and what is pending; and a
loop of calls ends before it has made more of them than there were octets, and one. -/
theorem octets_accounted (f : Framer) (acts : List Act) :
    (match f.next with
      | (.ok (some v), g) => ∃ gap text, f.pending = gap ++ text ++ g.pending ∧
          (∀ b ∈ gap, isGap b = true) ∧ IsText v text
      | (_, g) => g.pending = f.pending.dropWhile isGap) ∧
      (∃ used, f.pending ++ acts.flatMap Act.chunk = used ++ (f.perform acts).2.pending ∧
        Spent ((f.perform acts).1.filterMap value?) used) ∧
      ∃ n ≤ f.pending.length + 1, Loop n f f.messages.1 f.messages.2.1 f.messages.2.2 := by
  refine ⟨?_, perform_spent f acts, loop_messages f⟩
  rcases hn : f.next with ⟨m | v | v, g⟩
  · exact next_error hn
  · exact next_none hn
  · exact next_text hn

example : (⟨[12, 32, 49, 50, 32, 91]⟩ : Framer).next = (.ok (some (.number (.integer 12))), ⟨[32, 91]⟩) := by
  decide +kernel

end SocketRpc.Framer
