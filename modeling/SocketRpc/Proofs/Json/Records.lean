import SocketRpc.Json.Decoder
import Mathlib.Tactic.Lemma

namespace SocketRpc.Json

variable {σ α β : Type} {r : Record σ α} {f g : Field σ} {name k : String} {d : Decoder β} {get : σ → Option β}
  {set : β → σ → σ} {mayLack : Bool} {v : Value} {ms : List (String × Value)} {s t : σ}

lemma findMember_of_mem (hd : (ms.map Prod.fst).Nodup) (h : (k, v) ∈ ms) : findMember k ms = some v := by
  induction ms with
  | nil => cases h
  | cons e ms ih => grind [findMember]

lemma Field.setValue_of (h : (Field.of name d get set mayLack).setValue v s = .ok t) :
    ∃ a, d.ofValue v = .ok a ∧ t = set a s := by
  have h : (d.ofValue v).map (set · s) = .ok t := h
  rcases hd : d.ofValue v with e | a <;> rw [hd] at h <;> cases h
  exact ⟨a, rfl, rfl⟩

namespace Record

lemma mem_of_field? (h : r.field? k = some f) : f ∈ r.fields ∧ f.name = k :=
  ⟨List.mem_of_find?_eq_some h, by simpa using List.find?_some h⟩

lemma ofMembers_cons_ok (h : r.ofMembers ((k, v) :: ms) s = .ok t) :
    r.field? k = none ∧ r.ofMembers ms s = .ok t ∨
      ∃ f m, r.field? k = some f ∧ f.isSet s = false ∧ f.setValue v s = .ok m ∧ r.ofMembers ms m = .ok t := by
  rw [ofMembers] at h
  split at h
  · exact Or.inl ⟨‹_›, h⟩
  · rename_i f hf
    rcases hs : f.isSet s with _ | _
    · rcases hv : f.setValue v s with e | m <;> simp [hs, hv, bind, Except.bind] at h
      exact Or.inr ⟨f, m, hf, hs, hv, h⟩
    · simp [hs] at h

structure Reads (r : Record σ α) (name : String) (d : Decoder β) (get : σ → Option β) : Prop where
  field : ∃ set mayLack, r.field? name = some (.of name d get set mayLack) ∧ ∀ a s, get (set a s) = some a
  apart : ∀ k f v s t, r.field? k = some f → k ≠ name → f.setValue v s = .ok t → get t = get s

lemma Reads.ofMembers (h : r.Reads name d get) (hm : r.ofMembers ms s = .ok t) :
    (findMember name ms = none → get t = get s) ∧
      ∀ v, findMember name ms = some v → get s = none ∧ ∃ a, d.ofValue v = .ok a ∧ get t = some a := by
  induction ms generalizing s with
  | nil =>
    cases hm
    exact ⟨fun _ => rfl, nofun⟩
  | cons e ms ih =>
    obtain ⟨k, w⟩ := e
    obtain ⟨set, mayLack, hf, hset⟩ := h.field
    rw [findMember]
    rcases ofMembers_cons_ok hm with ⟨hk, hm⟩ | ⟨f, m, hk, hs, hv, hm⟩
    · have hne : k ≠ name := by
        rintro rfl
        cases hk.symm.trans hf
      rw [if_neg hne]
      exact ih hm
    · by_cases hne : k = name
      · subst hne
        obtain rfl := Option.some.inj (hk.symm.trans hf)
        obtain ⟨a, ha, rfl⟩ := Field.setValue_of hv
        rw [if_pos rfl]
        have hg := hset a s
        refine ⟨nofun, fun v hv => ?_⟩
        cases hv
        refine ⟨by simpa [Field.of] using hs, a, ha, ?_⟩
        rcases hr : findMember k ms with _ | u
        · exact ((ih hm).1 hr).trans hg
        -- a second member of that name would have been refused
        · cases ((ih hm).2 u hr).1.symm.trans hg
      · rw [if_neg hne, ← h.apart k f w s m hk hne hv]
        exact ih hm

def Independent (r : Record σ α) : Prop :=
  ∀ j k f g, r.field? j = some f → r.field? k = some g → j ≠ k →
    ∀ v s t, f.setValue v s = .ok t → g.isSet t = g.isSet s

lemma Independent.ofMembers (h : r.Independent) (hd : (ms.map Prod.fst).Nodup)
    (hm : ∀ k v f, (k, v) ∈ ms → r.field? k = some f → f.isSet s = false ∧ ∀ s, ∃ t, f.setValue v s = .ok t) :
    ∃ t, r.ofMembers ms s = .ok t := by
  induction ms generalizing s with
  | nil => exact ⟨s, rfl⟩
  | cons e ms ih =>
    obtain ⟨k, v⟩ := e
    obtain ⟨hk, hd⟩ := List.nodup_cons.mp hd
    rw [Record.ofMembers]
    rcases hf : r.field? k with _ | f
    · exact ih hd fun j w g hj hg => hm j w g (List.mem_cons_of_mem _ hj) hg
    · obtain ⟨hs, hv⟩ := hm k v f List.mem_cons_self hf
      obtain ⟨m, hv⟩ := hv s
      simp only [hs, hv, Bool.false_eq_true, if_false, bind, Except.bind]
      refine ih hd fun j w g hj hg => ?_
      obtain ⟨hu, hw⟩ := hm j w g (List.mem_cons_of_mem _ hj) hg
      have hne : k ≠ j := by
        rintro rfl
        exact hk (List.mem_map.mpr ⟨(k, w), hj, rfl⟩)
      exact ⟨(h k j f g hf hg hne v s m hv).trans hu, hw⟩

end Record

end SocketRpc.Json
