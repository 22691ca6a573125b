import SocketRpc.Proofs.Framing.Messages
import Mathlib.Data.List.TakeWhile

/-! Streams of complete objects, and the places at which such a stream falls into two. -/

namespace SocketRpc

open Json (Value readValue)
open Json.Reader (scan run_eq_scan scan_append maxDepth)

/-- Complete objects with blanks between them, each with the place at which it begins; the stream
itself begins at place `n`. -/
inductive Objects : Nat → Bytes → List (Nat × Value) → Prop where
  | nil {n : Nat} {gap : Bytes} (hg : ∀ b ∈ gap, isGap b = true) : Objects n gap []
  | cons {n : Nat} {gap text rest : Bytes} {members : List (String × Value)}
      {os : List (Nat × Value)} (hg : ∀ b ∈ gap, isGap b = true)
      (ht : readValue maxDepth (123 :: text) = .ok (.object members, []))
      (hr : Objects (n + gap.length + (text.length + 1)) rest os) :
      Objects n (gap ++ 123 :: text ++ rest) ((n + gap.length, .object members) :: os)

/-- The first `n` octets of a stream are whole objects, and so are the others. -/
def Boundary (s : Bytes) (n : Nat) : Prop :=
  ∃ a b os os', s = a ++ b ∧ a.length = n ∧ Objects 0 a os ∧ Objects n b os'

inductive Place where
  | between
  | inside (r : Json.Reader)
  | lost

namespace Place

def step : Place → UInt8 → Place
  | between, b =>
    if isGap b then between
    else if b = 123 then inside { mode := .firstKey, stack := [.object [] ""] }
    else lost
  | inside r, b =>
    match r.step maxDepth b with
    | .more r => inside r
    | .done _ true => between
    | _ => lost
  | lost, _ => lost

def run (p : Place) (bs : Bytes) : Place := bs.foldl step p

@[simp] lemma run_nil (p : Place) : p.run [] = p := rfl

@[simp] lemma run_cons (p : Place) (b : UInt8) (bs : Bytes) :
    p.run (b :: bs) = (p.step b).run bs := rfl

@[simp] lemma run_append (p : Place) (as bs : Bytes) : p.run (as ++ bs) = (p.run as).run bs :=
  List.foldl_append

@[simp] lemma run_lost (bs : Bytes) : lost.run bs = lost := by
  induction bs with
  | nil => rfl
  | cons b bs ih => simpa [step] using ih

lemma ne_lost_of_append {p : Place} {as bs : Bytes} (h : p.run (as ++ bs) ≠ lost) :
    p.run as ≠ lost := by
  intro ha
  simp [ha] at h

lemma run_gap {gap : Bytes} (h : ∀ b ∈ gap, isGap b = true) : between.run gap = between := by
  induction gap with
  | nil => rfl
  | cons b gap ih => simpa [step, h b] using ih fun c hc => h c (by simp [hc])

lemma run_inside (r : Json.Reader) (bs : Bytes) (h : r.Enclosed) :
    (inside r).run bs =
      match scan maxDepth r bs with
      | .more s => inside s
      | .done _ left => between.run left
      | .fail _ => lost := by
  induction bs generalizing r with
  | nil => rfl
  | cons b bs ih =>
    have he := Json.Reader.step_encloses maxDepth h b
    rw [run_cons, step, scan]
    cases hs : r.step maxDepth b with
    | more s =>
      rw [hs] at he
      exact ih s he
    | done v used =>
      rw [hs] at he
      obtain rfl : used = true := he
      rfl
    | fail f => exact run_lost bs

end Place

lemma skipGap_eq_nil {gap : Bytes} (hg : ∀ b ∈ gap, isGap b = true) : Framer.skipGap gap = [] :=
  List.dropWhile_eq_nil_iff.mpr hg

lemma skipGap_brace (bs : Bytes) : Framer.skipGap (123 :: bs) = 123 :: bs := rfl

def opened : Json.Reader := { mode := .firstKey, stack := [.object [] ""] }

lemma opened_enclosed : opened.Enclosed := Or.inl (by simp [opened])

lemma scan_brace (bs : Bytes) : scan maxDepth {} (123 :: bs) = scan maxDepth opened bs := rfl

lemma Place.run_brace (bs : Bytes) : between.run (123 :: bs) = (inside opened).run bs := rfl

lemma scan_object {text : Bytes} {v : Value} (ht : readValue maxDepth (123 :: text) = .ok (v, [])) :
    scan maxDepth opened text = .done v [] := by
  rw [readValue, run_eq_scan, scan_brace] at ht
  cases hc : scan maxDepth opened text with
  | more s =>
    obtain ⟨f, hf⟩ := Json.Reader.finish_enclosed
      (Json.Reader.scan_more_enclosed opened_enclosed hc)
    simp [hc, hf, Except.map] at ht
  | done w left =>
    simp only [hc, Except.ok.injEq, Prod.mk.injEq] at ht
    rw [ht.1, ht.2]
  | fail f => simp [hc] at ht

lemma scan_object_append {text : Bytes} {v : Value}
    (ht : readValue maxDepth (123 :: text) = .ok (v, [])) (rest : Bytes) :
    scan maxDepth opened (text ++ rest) = .done v rest :=
  Json.Reader.scan_append_of_done (scan_object ht) rest

namespace Objects

variable {n : Nat} {s t : Bytes} {os os' : List (Nat × Value)}

lemma append (h : Objects n s os) (h' : Objects (n + s.length) t os') :
    Objects n (s ++ t) (os ++ os') := by
  induction h with
  | @nil n gap hg =>
    cases h' with
    | nil hg' => exact .nil fun b hb => (List.mem_append.mp hb).elim (hg b) (hg' b)
    | @cons _ gap' text rest members os hg' ht hr =>
      have hs : gap ++ (gap' ++ 123 :: text ++ rest) = gap ++ gap' ++ 123 :: text ++ rest := by
        simp only [List.append_assoc]
      have hn : n + gap.length + gap'.length = n + (gap ++ gap').length := by
        rw [List.length_append, Nat.add_assoc]
      rw [hs, List.nil_append, hn]
      exact .cons (fun b hb => (List.mem_append.mp hb).elim (hg b) (hg' b)) ht (hn ▸ hr)
  | @cons n gap text rest members os hg ht hr ih =>
    have hn : n + (gap ++ 123 :: text ++ rest).length =
        n + gap.length + (text.length + 1) + rest.length := by
      simp only [List.length_append, List.length_cons]
      omega
    have := ih (hn ▸ h')
    rw [List.append_assoc, List.cons_append]
    exact .cons hg ht this

lemma skipGap_eq (h : Objects n s os) :
    Framer.skipGap s = [] ∧ os = [] ∨
      ∃ text rest members os', Framer.skipGap s = 123 :: text ++ rest ∧
        readValue maxDepth (123 :: text) = .ok (.object members, []) ∧
        os = (n + s.length - (Framer.skipGap s).length, .object members) :: os' ∧
        Objects (n + s.length - rest.length) rest os' := by
  cases h with
  | nil hg =>
    exact Or.inl ⟨skipGap_eq_nil hg, rfl⟩
  | @cons _ gap text rest members os hg ht hr =>
    have hs : Framer.skipGap (gap ++ 123 :: text ++ rest) = 123 :: text ++ rest := by
      rw [List.append_assoc, Framer.skipGap_gap hg, List.cons_append, skipGap_brace]
    refine Or.inr ⟨text, rest, members, os, hs, ht, ?_, ?_⟩
    · rw [hs]
      congr 2
      simp only [List.length_append, List.length_cons]
      omega
    · have hn : n + (gap ++ 123 :: text ++ rest).length - rest.length =
          n + gap.length + (text.length + 1) := by
        simp only [List.length_append, List.length_cons]
        omega
      exact hn ▸ hr

lemma unique (h : Objects n s os) (h' : Objects n s os') : os = os' := by
  induction h generalizing os' with
  | @nil n gap hg =>
    obtain ⟨-, rfl⟩ | ⟨text, rest, members, os', hs, -⟩ := h'.skipGap_eq
    · rfl
    · simp [skipGap_eq_nil hg] at hs
  | @cons n gap text rest members os hg ht hr ih =>
    have hs : Framer.skipGap (gap ++ 123 :: text ++ rest) = 123 :: text ++ rest := by
      rw [List.append_assoc, Framer.skipGap_gap hg, List.cons_append, skipGap_brace]
    obtain ⟨hn, -⟩ | ⟨text', rest', members', os', hs', ht', rfl, hr'⟩ := h'.skipGap_eq
    · rw [hs] at hn
      cases hn
    · rw [hs, List.cons_append, List.cons_append, List.cons.injEq] at hs'
      have hd := scan_object_append ht rest
      rw [hs'.2, scan_object_append ht' rest'] at hd
      simp only [Json.Reader.Outcome.done.injEq] at hd
      obtain ⟨hm, rfl⟩ := hd
      have hlen : n + (gap ++ 123 :: text ++ rest').length - rest'.length =
          n + gap.length + (text.length + 1) := by
        simp only [List.length_append, List.length_cons]
        omega
      have hstart : n + (gap ++ 123 :: text ++ rest').length -
          (Framer.skipGap (gap ++ 123 :: text ++ rest')).length = n + gap.length := by
        rw [hs]
        simp only [List.length_append, List.length_cons]
        omega
      rw [ih (hlen ▸ hr'), hm, hstart]

lemma run_object {gap text : Bytes} {v : Value} (hg : ∀ b ∈ gap, isGap b = true)
    (ht : readValue maxDepth (123 :: text) = .ok (v, [])) (rest : Bytes) :
    Place.between.run (gap ++ 123 :: text ++ rest) = Place.between.run rest := by
  rw [Place.run_append, Place.run_append, Place.run_gap hg, Place.run_brace,
    Place.run_inside _ _ opened_enclosed, scan_object ht]
  rfl

lemma run_between (h : Objects n s os) : Place.between.run s = .between := by
  induction h with
  | nil hg => exact Place.run_gap hg
  | cons hg ht hr ih => rw [run_object hg ht, ih]

lemma inside_of_cut {text rest : Bytes} {v : Value}
    (ht : readValue maxDepth (123 :: (text ++ rest)) = .ok (v, [])) (hr : rest ≠ []) :
    ∃ r, scan maxDepth opened text = .more r := by
  have hs := scan_object ht
  rw [scan_append] at hs
  cases hc : scan maxDepth opened text with
  | more r => exact ⟨r, rfl⟩
  | done w left => simp [hc, hr] at hs
  | fail f => simp [hc] at hs

lemma cons_brace {text rest : Bytes} {members : List (String × Value)}
    (ht : readValue maxDepth (123 :: text) = .ok (.object members, []))
    (hr : Objects (n + (text.length + 1)) rest os) :
    Objects n (123 :: text ++ rest) ((n, .object members) :: os) :=
  @Objects.cons n [] text rest members os (by simp) ht hr

lemma cut (h : Objects n s os) {a b : Bytes} (hs : s = a ++ b) :
    (∃ os₁ os₂, Objects n a os₁ ∧ Objects (n + a.length) b os₂) ∨
      ∃ r, Place.between.run a = .inside r := by
  induction h generalizing a b with
  | @nil n gap hg =>
    subst hs
    exact Or.inl ⟨[], [], .nil fun c hc => hg c (by simp [hc]), .nil fun c hc => hg c (by simp [hc])⟩
  | @cons n gap text rest members os hg ht hr ih =>
    have behind : ∀ a', rest = a' ++ b → (∃ os₁ os₂, Objects n (gap ++ 123 :: text ++ a') os₁ ∧
          Objects (n + (gap ++ 123 :: text ++ a').length) b os₂) ∨
        ∃ r, Place.between.run (gap ++ 123 :: text ++ a') = .inside r := by
      intro a' ha'
      rcases ih ha' with ⟨os₁, os₂, h₁, h₂⟩ | ⟨r, hr⟩
      · refine Or.inl ⟨_, os₂, .cons hg ht h₁, ?_⟩
        have hn : n + (gap ++ 123 :: text ++ a').length =
            n + gap.length + (text.length + 1) + a'.length := by
          simp only [List.length_append, List.length_cons]
          omega
        rwa [hn]
      · exact Or.inr ⟨r, by rw [run_object hg ht, hr]⟩
    rw [List.append_assoc] at hs
    rcases List.append_eq_append_iff.mp hs with ⟨a', rfl, ha⟩ | ⟨c, rfl, rfl⟩
    · rcases a' with _ | ⟨x, a'⟩
      · rw [List.append_nil]
        exact Or.inl ⟨[], _, .nil hg, ha ▸ cons_brace ht hr⟩
      · rw [List.cons_append, List.cons_append, List.cons.injEq] at ha
        obtain ⟨rfl, ha⟩ := ha
        rcases List.append_eq_append_iff.mp ha with ⟨a', rfl, hb⟩ | ⟨c, rfl, rfl⟩
        · simpa only [List.append_assoc, List.cons_append] using behind a' hb
        · by_cases hc : c = []
          · subst hc
            simpa using behind [] rfl
          · obtain ⟨r, hr⟩ := inside_of_cut ht hc
            refine Or.inr ⟨r, ?_⟩
            rw [Place.run_append, Place.run_gap hg, Place.run_brace,
              Place.run_inside _ _ opened_enclosed, hr]
    · have hg' : ∀ x ∈ c, isGap x = true := fun x hx => hg x (by simp [hx])
      rw [List.length_append, ← Nat.add_assoc n a.length] at hr
      have := Objects.cons hg' ht hr
      rw [List.append_assoc] at this
      exact Or.inl ⟨[], _, .nil fun x hx => hg x (by simp [hx]), this⟩

lemma boundary_of_mem (h : Objects n s os) {i : Nat} {v : Value} (hi : (i, v) ∈ os) :
    ∃ a b, s = a ++ b ∧ i = n + a.length ∧ Place.between.run a = .between ∧ b ≠ [] := by
  induction h with
  | nil hg => simp at hi
  | @cons n gap text rest members os hg ht hr ih =>
    rcases List.mem_cons.mp hi with hi | hi
    · exact ⟨gap, 123 :: text ++ rest, by simp, by simpa using congrArg Prod.fst hi,
        Place.run_gap hg, by simp⟩
    · obtain ⟨a, b, rfl, rfl, ha, hb⟩ := ih hi
      refine ⟨gap ++ 123 :: text ++ a, b, by simp, ?_, ?_, hb⟩
      · simp only [List.length_append, List.length_cons]
        omega
      · rw [run_object hg ht, ha]

lemma mem_of_between (h : Objects n s os) {a text b : Bytes} {v : Value}
    (hs : s = a ++ (123 :: text ++ b)) (ha : Place.between.run a = .between)
    (ht : readValue maxDepth (123 :: text) = .ok (v, [])) : (n + a.length, v) ∈ os := by
  rcases h.cut hs with ⟨os₁, os₂, h₁, h₂⟩ | ⟨r, hr⟩
  · obtain rfl : os = os₁ ++ os₂ := h.unique (hs ▸ h₁.append h₂)
    rcases h₂.skipGap_eq with ⟨hn, -⟩ | ⟨text', rest', members, os', hg, ht', rfl, -⟩
    · cases hn
    · rw [List.cons_append, skipGap_brace, List.cons_append, List.cons.injEq] at hg
      have hd := scan_object_append ht b
      rw [hg.2, scan_object_append ht' rest'] at hd
      simp only [Json.Reader.Outcome.done.injEq] at hd
      rw [← hd.1, List.cons_append, skipGap_brace]
      simp
  · rw [ha] at hr
    cases hr

lemma boundary_iff (h : Objects 0 s os) {a b : Bytes} (hs : s = a ++ b) :
    Boundary s a.length ↔ Place.between.run a = .between := by
  refine ⟨?_, fun ha => ?_⟩
  · rintro ⟨a', b', os₁, os₂, hs', hl, h₁, -⟩
    obtain ⟨rfl, -⟩ := List.append_inj (hs.symm.trans hs') hl.symm
    exact h₁.run_between
  · rcases h.cut hs with ⟨os₁, os₂, h₁, h₂⟩ | ⟨r, hr⟩
    · rw [Nat.zero_add] at h₂
      exact ⟨a, b, os₁, os₂, hs, rfl, h₁, h₂⟩
    · rw [ha] at hr
      cases hr

lemma run_ne_lost (h : Objects n s os) {a b : Bytes} (hs : s = a ++ b) :
    Place.between.run a ≠ .lost := by
  intro ha
  have := h.run_between
  rw [hs, Place.run_append, ha, Place.run_lost] at this
  cases this

lemma ordered (h : Objects n s os) :
    os.Pairwise (fun a b => a.1 < b.1) ∧ ∀ a ∈ os, n ≤ a.1 := by
  induction h with
  | nil => exact ⟨List.Pairwise.nil, by simp⟩
  | cons hg ht hr ih =>
    obtain ⟨hp, hb⟩ := ih
    refine ⟨List.pairwise_cons.mpr ⟨fun a ha => ?_, hp⟩, fun a ha => ?_⟩
    · have := hb a ha
      dsimp only
      omega
    · rcases List.mem_cons.mp ha with rfl | ha
      · exact Nat.le_add_right _ _
      · have := hb a ha
        omega

end Objects

end SocketRpc
