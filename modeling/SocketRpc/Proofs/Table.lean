import SocketRpc.Table
import Mathlib.Tactic.Lemma

namespace SocketRpc.Table

variable {κ α : Type} [DecidableEq κ] {t : Table κ α} {k j : κ} {a : α}

@[simp] lemma get?_modify (t : Table κ α) (k j : κ) (f : α → α) :
    (t.modify k f).get? j = if k = j then (t.get? j).map f else t.get? j := by
  rw [modify]
  cases h : t.get? k with
  | none =>
    by_cases hk : k = j
    · subst hk
      simp [h]
    · simp [hk]
  | some a =>
    rw [get?_set]
    by_cases hk : k = j
    · subst hk
      simp [h]
    · simp [hk]

lemma filter_put (k : κ) (a : α) (l : List (κ × α)) :
    (put k a l).filter (fun e => e.1 ≠ k) = l.filter (fun e => e.1 ≠ k) := by
  induction l with
  | nil => simp [put]
  | cons e l ih =>
    by_cases h : e.1 = k <;> simp_all [put]

@[simp] lemma erase_modify (t : Table κ α) (k : κ) (f : α → α) : (t.modify k f).erase k = t.erase k := by
  rw [modify]
  split
  · exact congrArg Table.mk (filter_put k _ t.entries)
  · rfl

def Distinct (t : Table κ α) : Prop := t.keys.Nodup

lemma keys_put (k : κ) (a : α) (l : List (κ × α)) :
    (put k a l).map Prod.fst = if k ∈ l.map Prod.fst then l.map Prod.fst else l.map Prod.fst ++ [k] := by
  induction l with
  | nil => rfl
  | cons e l ih =>
    by_cases h : e.1 = k
    · simp [put, h]
    · rw [put, if_neg h, List.map_cons, ih]
      by_cases hk : k ∈ l.map Prod.fst <;> simp [hk, Ne.symm h]

lemma Distinct.set (h : t.Distinct) (k : κ) (a : α) : (t.set k a).Distinct := by
  rw [Distinct, keys, Table.set, keys_put]
  split
  · exact h
  · exact List.nodup_append.mpr ⟨h, by simp, by grind⟩

lemma Distinct.erase (h : t.Distinct) (k : κ) : (t.erase k).Distinct :=
  h.sublist (List.filter_sublist.map Prod.fst)

omit [DecidableEq κ] in
lemma Distinct.tail (h : t.Distinct) : Distinct (⟨t.entries.tail⟩ : Table κ α) :=
  h.sublist ((List.tail_sublist _).map Prod.fst)

lemma mem_entries_of_get? (h : t.get? k = some a) : (k, a) ∈ t.entries := by
  have : ∀ l : List (κ × α), find k l = some a → (k, a) ∈ l := by
    intro l hl
    induction l with
    | nil => cases hl
    | cons e l ih => grind [find]
  exact this _ h

lemma Distinct.get?_of_mem (h : t.Distinct) (ha : (k, a) ∈ t.entries) : t.get? k = some a := by
  have : ∀ l : List (κ × α), (l.map Prod.fst).Nodup → (k, a) ∈ l → find k l = some a := by
    intro l hl hm
    induction l with
    | nil => cases hm
    | cons e l ih => grind [find]
  exact this _ h ha

lemma mem_values_of_get? (h : t.get? k = some a) : a ∈ t.values :=
  List.mem_map_of_mem (f := Prod.snd) (mem_entries_of_get? h)

lemma Distinct.exists_of_mem_values (h : t.Distinct) (ha : a ∈ t.values) :
    ∃ k, t.get? k = some a := by
  obtain ⟨⟨k, b⟩, hm, rfl⟩ := List.mem_map.mp ha
  exact ⟨k, h.get?_of_mem hm⟩

lemma Distinct.get?_of_tail (h : t.Distinct) (ha : (⟨t.entries.tail⟩ : Table κ α).get? k = some a) :
    t.get? k = some a :=
  h.get?_of_mem (List.mem_of_mem_tail (mem_entries_of_get? ha))

lemma Distinct.get?_filter (h : t.Distinct) (p : α → Bool) (k : κ) :
    (⟨t.entries.filter fun e => p e.2⟩ : Table κ α).get? k = (t.get? k).filter p := by
  have : ∀ l : List (κ × α), (l.map Prod.fst).Nodup →
      find k (l.filter fun e => p e.2) = (find k l).filter p := by
    intro l hl
    induction l with
    | nil => rfl
    | cons e l ih =>
      obtain ⟨he, hl⟩ := List.nodup_cons.mp hl
      by_cases hk : e.1 = k
      · have hn : find k l = none := by
          rw [← Option.not_isSome_iff_eq_none, find_isSome, ← hk]
          exact he
        cases hp : p e.2 <;> simp [find, Option.filter, hk, hp, ih hl, hn]
      · cases hp : p e.2 <;> simp [find, hk, hp, ih hl]
  exact this t.entries h

lemma keys_set (hk : t.get? k = none) (a : α) : (t.set k a).keys = t.keys ++ [k] := by
  have hm : k ∉ t.keys := fun hm => by
    rw [← contains_iff, contains, hk] at hm
    cases hm
  exact (keys_put k a _).trans (if_neg hm)

lemma Distinct.keys_erase (h : t.Distinct) (k : κ) : (t.erase k).keys = t.keys.erase k := by
  rw [h.erase_eq_filter, keys, keys, List.filter_map]
  refine congrArg (List.map Prod.fst) (List.filter_congr fun e _ => ?_)
  by_cases he : e.1 = k <;> simp [he]

lemma eq_empty (h : ∀ k, t.get? k = none) : t = {} := by
  obtain ⟨es⟩ := t
  cases es with
  | nil => rfl
  | cons e es => simpa [get?, find] using h e.1

lemma mem_keys : k ∈ t.keys ↔ ∃ a, t.get? k = some a := by
  rw [← contains_iff, contains, Option.isSome_iff_exists]

lemma erase_eq_self_iff : t.erase k = t ↔ t.get? k = none := by
  refine ⟨fun h => ?_, fun h => ?_⟩
  · rw [← h, get?_erase, if_pos rfl]
  · refine congrArg Table.mk (List.filter_eq_self.mpr fun e he => decide_eq_true ?_)
    rintro rfl
    obtain ⟨a, ha⟩ := mem_keys.mp (List.mem_map_of_mem he)
    cases h.symm.trans ha

lemma keys_modify (t : Table κ α) (k : κ) (f : α → α) : (t.modify k f).keys = t.keys := by
  rw [modify]
  split
  · exact (keys_put k _ _).trans (if_pos (mem_keys.mpr ⟨_, ‹_›⟩))
  · rfl

lemma Distinct.mem_values (h : t.Distinct) : a ∈ t.values ↔ ∃ k, t.get? k = some a :=
  ⟨h.exists_of_mem_values, fun ⟨_, hk⟩ => mem_values_of_get? hk⟩

end SocketRpc.Table
