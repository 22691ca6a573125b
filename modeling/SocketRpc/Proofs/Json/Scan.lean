import SocketRpc.Json.Reader
import Mathlib.Tactic.Lemma

/-! Reading cut at any octet: what has been read stays read, and a refusal is final. -/

namespace SocketRpc.Json

def Value.IsBare : Value → Prop
  | .null | .bool _ | .number _ => True
  | _ => False

instance : DecidablePred Value.IsBare
  | .null | .bool _ | .number _ => .isTrue trivial
  | .text _ | .array _ | .object _ => .isFalse id

namespace Reader

inductive Outcome where
  | more (r : Reader)
  | done (v : Value) (left : Bytes)
  | fail (f : Flaw)

variable (room : Nat)

def scan : Reader → Bytes → Outcome
  | r, [] => .more r
  | r, b :: rest =>
    match r.step room b with
    | .more r => scan r rest
    | .done v true => .done v rest
    | .done v false => .done v (b :: rest)
    | .fail f => .fail f

lemma run_eq_scan (r : Reader) (bs : Bytes) :
    run room r bs =
      match scan room r bs with
      | .more r => r.finish.map (·, [])
      | .done v left => .ok (v, left)
      | .fail f => .error f := by
  induction bs generalizing r with
  | nil => rfl
  | cons b rest ih =>
    rw [run, scan]
    cases r.step room b with
    | more s => exact ih s
    | done v used => cases used <;> rfl
    | fail f => rfl

lemma scan_append (r : Reader) (bs cs : Bytes) :
    scan room r (bs ++ cs) =
      match scan room r bs with
      | .more s => scan room s cs
      | .done v left => .done v (left ++ cs)
      | .fail f => .fail f := by
  induction bs generalizing r with
  | nil => rfl
  | cons b rest ih =>
    rw [List.cons_append, scan, scan]
    cases r.step room b with
    | more s => exact ih s
    | done v used => cases used <;> rfl
    | fail f => rfl

lemma run_append (r : Reader) (bs cs : Bytes) :
    run room r (bs ++ cs) =
      match scan room r bs with
      | .more s => run room s cs
      | .done v left => .ok (v, left ++ cs)
      | .fail f => .error f := by
  rw [run_eq_scan, scan_append]
  cases scan room r bs with
  | more s => exact (run_eq_scan room s cs).symm
  | _ => rfl

variable {room}

lemma scan_append_of_done {r : Reader} {bs left : Bytes} {v : Value}
    (h : scan room r bs = .done v left) (cs : Bytes) :
    scan room r (bs ++ cs) = .done v (left ++ cs) := by
  rw [scan_append, h]

lemma scan_left {r : Reader} {bs left : Bytes} {v : Value} (h : scan room r bs = .done v left) :
    ∃ used, bs = used ++ left := by
  induction bs generalizing r with
  | nil => simp [scan] at h
  | cons b rest ih =>
    rw [scan] at h
    cases hs : r.step room b with
    | more s =>
      obtain ⟨used, hu⟩ := ih (by simpa only [hs] using h)
      exact ⟨b :: used, by rw [hu, List.cons_append]⟩
    | done w used =>
      cases used with
      | true =>
        simp only [hs, Outcome.done.injEq] at h
        exact ⟨[b], by rw [← h.2]; rfl⟩
      | false =>
        simp only [hs, Outcome.done.injEq] at h
        exact ⟨[], by rw [← h.2]; rfl⟩
    | fail f => simp [hs] at h

def Enclosed (r : Reader) : Prop := r.stack ≠ [] ∨ ∃ s, r.mode = .text s

def Bare (r : Reader) : Prop :=
  r.stack = [] ∧ ((∃ negative s, r.mode = .number negative s) ∨
    ∃ rest v, r.mode = .word rest v ∧ (v = .null ∨ ∃ b, v = .bool b))

def Step.Encloses : Step → Prop
  | .more r => r.Enclosed
  | .done _ used => used = true
  | .fail _ => True

lemma deliver_encloses (v : Value) (stack : List Frame) : (deliver v stack).Encloses := by
  cases stack with
  | nil => rfl
  | cons frame stack => cases frame <;> exact Or.inl (by simp)

lemma begin_encloses {stack : List Frame} (h : stack ≠ []) (b : UInt8) :
    (begin room stack b).Encloses := by
  unfold begin openFrame
  grind [Step.Encloses, Enclosed]

lemma separate_encloses (stack : List Frame) (b : UInt8) : (separate stack b).Encloses := by
  simp only [separate]
  grind [Step.Encloses, Enclosed, deliver_encloses]

lemma endNumber_encloses {stack : List Frame} (h : stack ≠ []) (v : Value) (b : UInt8) :
    (endNumber stack v b).Encloses := by
  cases stack with
  | nil => exact absurd rfl h
  | cons frame stack =>
    rw [endNumber]
    cases frame <;> exact separate_encloses _ b

lemma step_encloses (room : Nat) {r : Reader} (h : r.Enclosed) (b : UInt8) :
    (r.step room b).Encloses := by
  obtain ⟨mode, stack⟩ := r
  have hs : (∀ s, mode ≠ .text s) → stack ≠ [] := by
    intro hm
    rcases h with h | ⟨s, h⟩
    · exact h
    · exact absurd h (hm s)
  cases mode with
  | text s =>
    simp only [step]
    cases s.step b with
    | more t => exact Or.inr ⟨t, rfl⟩
    | done t => exact deliver_encloses _ _
    | fail f => trivial
  | after => exact separate_encloses _ _
  | number negative s =>
    have hn := fun v => endNumber_encloses (hs (by simp)) v b
    grind [step, Step.Encloses, Enclosed]
  | keyText s =>
    have hn : ∀ key, named key stack ≠ [] := by
      intro key
      have := hs (by simp)
      cases stack with
      | nil => contradiction
      | cons frame stack => cases frame <;> simp [named]
    grind [step, Step.Encloses, Enclosed]
  | _ =>
    have := hs (by simp)
    grind [step, Step.Encloses, Enclosed, begin_encloses, deliver_encloses]

lemma scan_more_enclosed {r s : Reader} {bs : Bytes} (h : r.Enclosed)
    (hs : scan room r bs = .more s) : s.Enclosed := by
  induction bs generalizing r with
  | nil =>
    obtain rfl : r = s := by simpa [scan] using hs
    exact h
  | cons b rest ih =>
    have he := step_encloses room h b
    rw [scan] at hs
    cases hb : r.step room b with
    | more t =>
      rw [hb] at he hs
      exact ih he hs
    | done v used => cases used <;> simp [hb] at hs
    | fail f => simp [hb] at hs

lemma scan_enclosed_done {r : Reader} {bs left : Bytes} {v : Value} (h : r.Enclosed)
    (hs : scan room r bs = .done v left) :
    ∃ used, bs = used ++ left ∧ scan room r used = .done v [] := by
  induction bs generalizing r with
  | nil => simp [scan] at hs
  | cons b rest ih =>
    have he := step_encloses room h b
    rw [scan] at hs
    cases hb : r.step room b with
    | more t =>
      rw [hb] at he hs
      obtain ⟨used, rfl, hu⟩ := ih he hs
      exact ⟨b :: used, rfl, by rw [scan, hb]; exact hu⟩
    | done w used =>
      rw [hb] at he hs
      obtain rfl : used = true := he
      simp only [Outcome.done.injEq] at hs
      exact ⟨[b], by rw [← hs.2]; rfl, by rw [scan, hb, hs.1]⟩
    | fail f => simp [hb] at hs

lemma finish_enclosed {r : Reader} (h : r.Enclosed) : ∃ f, r.finish = .error f := by
  obtain ⟨mode, stack⟩ := r
  cases mode with
  | number negative s =>
    have hs : stack ≠ [] := by
      rcases h with h | ⟨s, h⟩
      · exact h
      · cases h
    simp only [finish, if_neg hs]
    split
    · split <;> exact ⟨_, rfl⟩
    · exact ⟨_, rfl⟩
  | _ => exact ⟨_, rfl⟩

def Step.StaysBare : Step → Prop
  | .more r => r.Bare
  | .done v _ => v.IsBare
  | .fail _ => True

lemma step_bare (room : Nat) {r : Reader} (h : r.Bare) (b : UInt8) : (r.step room b).StaysBare := by
  obtain ⟨mode, stack⟩ := r
  obtain ⟨hs, ⟨negative, s, hm⟩ | ⟨rest, v, hm, hv⟩⟩ := h
  · obtain rfl : stack = [] := hs
    obtain rfl : mode = .number negative s := hm
    simp only [step, endNumber, deliver]
    split
    · exact ⟨rfl, Or.inl ⟨_, _, rfl⟩⟩
    · trivial
    · split <;> trivial
  · obtain rfl : stack = [] := hs
    obtain rfl : mode = .word rest v := hm
    simp only [step, deliver]
    split
    · trivial
    · split
      · trivial
      · split
        · obtain rfl | ⟨b, rfl⟩ := hv <;> trivial
        · exact ⟨rfl, Or.inr ⟨_, _, rfl, hv⟩⟩

lemma scan_bare (room : Nat) {r : Reader} (h : r.Bare) (bs : Bytes) :
    (∀ s, scan room r bs = .more s → s.Bare) ∧
      ∀ v left, scan room r bs = .done v left → v.IsBare := by
  induction bs generalizing r with
  | nil =>
    refine ⟨fun s hs => ?_, fun v left hd => by simp [scan] at hd⟩
    obtain rfl : r = s := by simpa [scan] using hs
    exact h
  | cons b rest ih =>
    have hb := step_bare room h b
    rw [scan]
    cases hstep : r.step room b with
    | more t =>
      rw [hstep] at hb
      exact ih hb
    | done v used =>
      rw [hstep] at hb
      cases used <;>
      · refine ⟨by simp, fun w left hd => ?_⟩
        simp only [Outcome.done.injEq] at hd
        exact hd.1 ▸ hb
    | fail f => simp

lemma finish_bare {r : Reader} {v : Value} (h : r.Bare) (hf : r.finish = .ok v) : v.IsBare := by
  obtain ⟨mode, stack⟩ := r
  obtain ⟨-, ⟨negative, s, rfl⟩ | ⟨rest, w, rfl, -⟩⟩ := h
  · simp only [finish] at hf
    grind [Value.IsBare]
  · cases hf

end Reader

end SocketRpc.Json
