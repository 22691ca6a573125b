import SocketRpc.Proofs.Framing.Skew

namespace SocketRpc.Framer

open Json (Value)
open Place (inside lost)

variable {f g : Framer} {v : Value} {p : Place}

lemma finish_ok {r : Json.Reader} {left : Bytes} (h : r.finish.map (·, []) = .ok (v, left)) :
    r.escape? = none ∧ left = [] := by
  obtain ⟨mode, stack⟩ := r
  cases hf : ({ mode, stack } : Json.Reader).finish with
  | error e => simp [hf, Except.map] at h
  | ok w =>
    simp only [hf, Except.map, Except.ok.injEq, Prod.mk.injEq] at h
    refine ⟨?_, h.2.symm⟩
    cases mode with
    | text s | keyText s => cases hf
    | _ => rfl

lemma next_inside {t : Json.Reader} (hp : (inside t).Sound) (hl : (inside t).run f.pending ≠ lost)
    (h : f.next = (.ok (some v), g)) :
    ∃ gap used u w, f.pending = gap ++ used ++ g.pending ∧ skipGap f.pending = used ++ g.pending ∧
      (inside t).run gap = inside u ∧ (inside t).run (gap ++ used) = inside w := by
  obtain ⟨b, used, hs, hr⟩ := next_some h
  obtain ⟨gap, hgap, hg⟩ := skipGap_split f.pending
  rw [hs] at hgap
  rw [hgap] at hl
  obtain ⟨u, hu⟩ := Place.run_gap_inside hp hg (Place.ne_lost_of_append hl)
  have hus := Place.run_sound hp gap
  rw [hu] at hus
  rw [Place.run_append, hu] at hl
  obtain ⟨hm, hd⟩ := Place.run_inside_of_skew (Place.skew_start hus) Place.new_sound hus hl
  rw [Json.readValue, Json.Reader.run_eq_scan] at hr
  have ends : ∃ w, (inside u).run (b :: used) = inside w := by
    cases hc : Json.Reader.scan Json.Reader.maxDepth {} (b :: (used ++ g.pending)) with
    | more s =>
      obtain ⟨hsk, -⟩ := hm s hc
      simp only [hc] at hr
      obtain ⟨he, hn⟩ := finish_ok hr
      rw [hn, List.append_nil] at hsk hl
      cases hw : (inside u).run (b :: used) with
      | inside w => exact ⟨w, rfl⟩
      | lost => exact absurd hw hl
      | between =>
        rw [hw] at hsk
        simp [Json.Reader.Skew, he] at hsk
    | done w left =>
      simp only [hc, Except.ok.injEq, Prod.mk.injEq] at hr
      obtain ⟨used', w, hb, hw⟩ := hd w left hc
      rw [hr.2, ← List.cons_append, List.append_cancel_right_eq] at hb
      exact ⟨w, hb ▸ hw⟩
    | fail e => simp [hc] at hr
  obtain ⟨w, hw⟩ := ends
  exact ⟨gap, b :: used, u, w, by simpa using hgap, hs, hu, by rw [Place.run_append, hu, hw]⟩

lemma next_between (hl : Place.between.run f.pending ≠ lost) (h : f.next = (.ok (some v), g)) :
    ∃ gap text, f.pending = gap ++ 123 :: text ++ g.pending ∧
      skipGap f.pending = 123 :: text ++ g.pending ∧ (∀ b ∈ gap, isGap b = true) ∧
      Json.readValue Json.Reader.maxDepth (123 :: text) = .ok (v, []) := by
  obtain ⟨b, used, hs, hr⟩ := next_some h
  obtain ⟨gap, hgap, hg⟩ := skipGap_split f.pending
  rw [hs] at hgap
  rw [hgap, Place.run_append, Place.run_gap hg] at hl
  have hb := skipGap_cons hs
  obtain rfl : b = 123 := by
    by_contra hne
    simp [Place.step, hb, hne] at hl
  rw [Json.readValue, Json.Reader.run_eq_scan, scan_brace] at hr
  cases hc : Json.Reader.scan Json.Reader.maxDepth opened (used ++ g.pending) with
  | more s =>
    obtain ⟨e, hf⟩ := Json.Reader.finish_enclosed
      (Json.Reader.scan_more_enclosed opened_enclosed hc)
    simp [hc, hf, Except.map] at hr
  | done w left =>
    simp only [hc, Except.ok.injEq, Prod.mk.injEq] at hr
    obtain ⟨text, ht, hd⟩ := Json.Reader.scan_enclosed_done opened_enclosed hc
    rw [hr.2, List.append_cancel_right_eq] at ht
    refine ⟨gap, used, by simpa using hgap, hs, hg, ?_⟩
    rw [Json.readValue, Json.Reader.run_eq_scan, scan_brace, ht, hd, hr.1]
  | fail e => simp [hc] at hr

lemma next_place (hp : p.Sound) (hl : p.run f.pending ≠ lost) (h : f.next = (.ok (some v), g)) :
    ∃ gap text, f.pending = gap ++ text ++ g.pending ∧ skipGap f.pending = text ++ g.pending ∧
      (p.run gap = .between ↔ p = .between) ∧ (p.run (gap ++ text) = .between ↔ p = .between) ∧
      (p = .between → ∃ rest, text = 123 :: rest ∧
        Json.readValue Json.Reader.maxDepth text = .ok (v, [])) := by
  cases p with
  | between =>
    obtain ⟨gap, text, hf, hs, hg, hr⟩ := next_between hl h
    have hrun := Objects.run_object hg hr []
    rw [List.append_nil] at hrun
    exact ⟨gap, 123 :: text, hf, hs, by simp [Place.run_gap hg], by simp [hrun],
      fun _ => ⟨text, rfl, hr⟩⟩
  | inside t =>
    obtain ⟨gap, text, u, w, hf, hs, hu, hw⟩ := next_inside hp hl h
    exact ⟨gap, text, hf, hs, by simp [hu], by simp [hw], by simp⟩
  | lost => exact absurd (Place.run_lost _) hl

def takePlaced : Nat → Framer → List (Nat × Value)
  | 0, _ => []
  | n + 1, f =>
    match f.next with
    | (.ok (some v), g) => ((skipGap f.pending).length, v) :: takePlaced n g
    | _ => []

def placed (f : Framer) : List (Nat × Value) := takePlaced (f.pending.length + 1) f

lemma takePlaced_of_lt {m n : Nat} (hm : f.pending.length < m) (hn : f.pending.length < n) :
    takePlaced m f = takePlaced n f := by
  induction m generalizing f n with
  | zero => omega
  | succ m ih =>
    obtain _ | n := n
    · omega
    · simp only [takePlaced]
      split
      · rename_i v g h
        have := next_shorter h
        rw [ih (f := g) (n := n) (by omega) (by omega)]
      · rfl

lemma placed_of_some (h : f.next = (.ok (some v), g)) :
    f.placed = ((skipGap f.pending).length, v) :: g.placed := by
  have := next_shorter h
  rw [placed, takePlaced, h]
  simp only [placed]
  rw [takePlaced_of_lt (f := g) (m := f.pending.length) (n := g.pending.length + 1) (by omega)
    (by omega)]

lemma placed_of_none (h : f.next = (.ok none, g)) : f.placed = [] := by
  rw [placed, takePlaced, h]

lemma placed_of_error {m : Malformed} (h : f.next = (.error m, g)) : f.placed = [] := by
  rw [placed, takePlaced, h]

lemma placed_values (f : Framer) : f.placed.map Prod.snd = f.messages.1 := by
  induction f using messages_induction with
  | some f v g h ih => rw [placed_of_some h, messages_of_some h, List.map_cons, ih]
  | none f g h => rw [placed_of_none h, messages_of_none h, List.map_nil]
  | error f m g h => rw [placed_of_error h, messages_of_error h, List.map_nil]

def kept (f : Framer) : Framer := if f.messages.2.1.isSome then {} else f.messages.2.2

lemma kept_of_some (h : f.next = (.ok (some v), g)) : f.kept = g.kept := by
  rw [kept, kept, messages_of_some h]

lemma placed_order (f : Framer) :
    f.placed.Pairwise (fun a b => b.1 < a.1) ∧
      (∀ a ∈ f.placed, f.kept.pending.length < a.1 ∧ a.1 ≤ f.pending.length) ∧
      f.kept.pending.length ≤ f.pending.length := by
  induction f using messages_induction with
  | some f v g h ih =>
    obtain ⟨hp, hb, hk⟩ := ih
    obtain ⟨b, used, hs, -⟩ := next_some h
    have hlen := skipGap_length_le f.pending
    have hskip : g.pending.length < (skipGap f.pending).length := by
      rw [hs]
      simp only [List.length_cons, List.length_append]
      omega
    rw [placed_of_some h, kept_of_some h]
    refine ⟨List.pairwise_cons.mpr ⟨fun a ha => ?_, hp⟩, fun a ha => ?_, by omega⟩
    · have := (hb a ha).2
      omega
    · rcases List.mem_cons.mp ha with rfl | ha
      · exact ⟨by omega, hlen⟩
      · have := hb a ha
        omega
  | none f g h =>
    rw [placed_of_none h, kept, messages_of_none h]
    refine ⟨List.Pairwise.nil, by simp, ?_⟩
    simpa [next_none h] using skipGap_length_le f.pending
  | error f m g h =>
    rw [placed_of_error h, kept, messages_of_error h]
    exact ⟨List.Pairwise.nil, by simp, by simp⟩

lemma placed_place (hp : p.Sound) (hl : p.run f.pending ≠ lost) {m : Nat} (h : (m, v) ∈ f.placed) :
    ∃ a text b, f.pending = a ++ text ++ b ∧ m = (text ++ b).length ∧
      (p.run a = .between ↔ p = .between) ∧
      (p = .between → ∃ rest, text = 123 :: rest ∧
        Json.readValue Json.Reader.maxDepth text = .ok (v, [])) := by
  induction f using messages_induction generalizing p with
  | some f w g hn ih =>
    obtain ⟨gap, text, hf, hs, hgap, htext, hr⟩ := next_place hp hl hn
    rw [placed_of_some hn] at h
    rcases List.mem_cons.mp h with h | h
    · obtain ⟨rfl, rfl⟩ := Prod.mk.inj h
      exact ⟨gap, text, g.pending, hf, by rw [hs], hgap, hr⟩
    · have hl' : (p.run (gap ++ text)).run g.pending ≠ lost := by
        rwa [← Place.run_append, ← hf]
      obtain ⟨a, text', b, hg, hm, ha, hr'⟩ := ih (Place.run_sound hp _) hl' h
      refine ⟨gap ++ text ++ a, text', b, by rw [hf, hg]; simp, hm, ?_, fun hb => hr' (htext.mpr hb)⟩
      rw [Place.run_append, ha, htext]
  | none f g hn => simp [placed_of_none hn] at h
  | error f e g hn => simp [placed_of_error hn] at h

lemma messages_place (hp : p.Sound) (hl : p.run f.pending ≠ lost) (vs : List Value)
    (h : f.messages = (vs, none, g)) :
    ∃ a, f.pending = a ++ g.pending ∧ (p.run a = .between ↔ p = .between) := by
  induction f using messages_induction generalizing p vs with
  | some f w f' hn ih =>
    obtain ⟨gap, text, hf, -, -, htext, -⟩ := next_place hp hl hn
    rw [messages_of_some hn] at h
    have hl' : (p.run (gap ++ text)).run f'.pending ≠ lost := by
      rwa [← Place.run_append, ← hf]
    obtain ⟨a, ha, hrun⟩ := ih (Place.run_sound hp _) hl' f'.messages.1
      (by rw [← (Prod.mk.inj h).2])
    exact ⟨gap ++ text ++ a, by rw [hf, ha]; simp, by rw [Place.run_append, hrun, htext]⟩
  | none f f' hn =>
    rw [messages_of_none hn] at h
    simp only [Prod.mk.injEq, true_and] at h
    obtain ⟨-, rfl⟩ := h
    obtain ⟨gap, hgap, hg⟩ := skipGap_split f.pending
    refine ⟨gap, by rw [next_none hn]; exact hgap, ?_⟩
    cases p with
    | between => simp [Place.run_gap hg]
    | inside t =>
      rw [hgap] at hl
      obtain ⟨u, hu⟩ := Place.run_gap_inside hp hg (Place.ne_lost_of_append hl)
      simp [hu]
    | lost => simp
  | error f e f' hn => simp [messages_of_error hn] at h

end SocketRpc.Framer
