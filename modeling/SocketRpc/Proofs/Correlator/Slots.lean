import SocketRpc.Proofs.Correlator.Claims
import Mathlib.Data.List.Dedup

/-! The same responses in one table of slots, with the keys of those parked in a list beside it. -/

namespace SocketRpc.Correlator

inductive Slot where
  | waiting (t : Ticket)
  | ready (r : Response)
deriving Repr, DecidableEq

def Slot.ticket? : Slot → Option Ticket
  | .waiting t => some t
  | .ready _ => none

structure Slots where
  responses : Table CacheKey Slot := {}
  parked : List CacheKey := []
  abandoned : List CacheKey := []
  mail : Table Ticket Mailbox := {}
  nextTicket : Ticket := 0
deriving Repr

namespace Slots

def drop (s : Slots) (ls : List Slot) : Slots :=
  { s with mail := (ls.filterMap Slot.ticket?).foldl (fun m t => m.modify t fun _ => .closed) s.mail }

def evict (s : Slots) : Slots :=
  match s.parked with
  | oldest :: rest => { s with parked := rest, responses := s.responses.erase oldest }
  | [] => s

def park (s : Slots) (k : CacheKey) (r : Response) : Slots :=
  let s := if maxParked ≤ s.parked.length then s.evict else s
  { s with parked := s.parked ++ [k], responses := s.responses.set k (.ready r) }

def depositResponse (s : Slots) (r : Response) : Except Failure Deposit × Slots :=
  let k := r.id.key
  if k ∈ s.abandoned then (.ok .late, { s with abandoned := s.abandoned.erase k })
  else
    let d := { s with responses := s.responses.erase k }
    match s.responses.get? k with
    | some (.waiting t) =>
      match d.mail.get? t with
      | some _ => (.ok (.delivered t), { d with mail := d.mail.set t (.filled r) })
      | none => (.ok .unheard, d)
    | some (.ready first) =>
      (.error (.duplicateResponseId first.id), { d with responses := d.responses.set k (.ready first) })
    | none => (.ok .parked, d.park k r)

def deposit (s : Slots) (v : Json.Value) (push : Bool) : Except Failure Deposit × Slots :=
  if push then
    match Notification.ofValue v with
    | .error e => (.error (.deserialization (.mismatch e)), s)
    | .ok n => (.ok (.queued n.params.subscription), s)
  else
    match v.get? "id" with
    | none => (.error (neither v), s)
    | some _ =>
      match Response.ofValue v with
      | .error e => (.error (.deserialization (.mismatch e)), s)
      | .ok r => s.depositResponse r

def pop (s : Slots) (k : CacheKey) : Option Response × Slots :=
  let d := { s with responses := s.responses.erase k }
  match s.responses.get? k with
  | some (.ready r) => (some r, { d with parked := d.parked.erase k })
  | some (.waiting t) => (none, { d with responses := d.responses.set k (.waiting t) })
  | none => (none, d)

def register (s : Slots) (id : RequestId) : Except Failure Ticket × Slots :=
  let k := id.key
  let t := s.nextTicket
  let d := { s with abandoned := s.abandoned.erase k, responses := s.responses.erase k }
  match s.responses.get? k with
  | some (.ready r) =>
    (.ok t, { d with parked := d.parked.erase k, mail := d.mail.set t (.filled r), nextTicket := t + 1 })
  | some (.waiting u) =>
    (.error (.duplicateRequestId id), { d with responses := d.responses.set k (.waiting u) })
  | none =>
    (.ok t, { d with
      responses := d.responses.set k (.waiting t), mail := d.mail.set t .empty, nextTicket := t + 1 })

def receive (s : Slots) (t : Ticket) : Mailbox × Slots :=
  match s.mail.get? t with
  | some (.filled r) => (.filled r, s.drop [.waiting t])
  | some m => (m, s)
  | none => (.closed, s)

def forget (s : Slots) (id : RequestId) : Slots :=
  match s.responses.get? id.key with
  | some (.waiting t) => { s with responses := s.responses.erase id.key }.drop [.waiting t]
  | _ => s

def abandon (s : Slots) (id : RequestId) : Slots :=
  let k := id.key
  let d := { s with responses := s.responses.erase k }
  match s.responses.get? k with
  | some (.waiting t) =>
    let kept := if maxAbandoned ≤ d.abandoned.length then d.abandoned.tail else d.abandoned
    { d with abandoned := kept ++ [k] }.drop [.waiting t]
  | some (.ready r) => { d with responses := d.responses.set k (.ready r) }
  | none => d

def retain (s : Slots) : Slots :=
  { s with responses := ⟨s.responses.entries.filter fun e => e.2.ticket?.isNone⟩ }.drop s.responses.values

def clear (s : Slots) : Slots :=
  { s with responses := {}, parked := [], abandoned := [] }.drop s.responses.values

def step (s : Slots) : Op → Option Entry × Slots
  | .deposit v push => (some (.deposited v push (s.deposit v push).1), (s.deposit v push).2)
  | .pop k => (some (.popped k (s.pop k).1), (s.pop k).2)
  | .register id => (some (.registered id (s.register id).1), (s.register id).2)
  | .receive t => (some (.received t (s.receive t).1), (s.receive t).2)
  | .discard t => (none, { s with mail := s.mail.erase t })
  | .forget id => (none, s.forget id)
  | .abandon id => (none, s.abandon id)
  | .clear => (none, s.clear)
  | .fail _ | .closeByPeer => (none, s.retain)
  | _ => (none, s)

def steps (p : List Entry × Slots) (os : List Op) : List Entry × Slots :=
  os.foldl (fun p o => (p.1 ++ (p.2.step o).1.toList, (p.2.step o).2)) p

def run (os : List Op) : List Entry × Slots := steps ([], {}) os

end Slots

def kept (c : Correlator) : Table CacheKey Response :=
  if maxParked ≤ c.parked.size then ⟨c.parked.entries.tail⟩ else c.parked

lemma kept_sublist (c : Correlator) : (kept c).entries.Sublist c.parked.entries := by
  rw [kept]
  split
  · exact List.tail_sublist _
  · exact List.Sublist.refl _

lemma size_kept {c : Correlator} (h : c.parked.size ≤ maxParked) : (kept c).size < maxParked := by
  have hpos : 0 < maxParked := by decide
  rw [kept]
  split
  · rw [Table.size, List.length_tail]
    rw [Table.size] at h
    omega
  · exact Nat.not_le.mp ‹_›

namespace Slots

variable {s : Slots} {c : Correlator} {k : CacheKey} {t : Ticket} {r : Response}

structure Represents (s : Slots) (c : Correlator) : Prop where
  distinct : s.responses.Distinct
  slot : ∀ k, s.responses.get? k = ((c.waiting.get? k).map Slot.waiting).or ((c.parked.get? k).map Slot.ready)
  parked : s.parked = c.parked.keys
  abandoned : s.abandoned = c.abandoned
  mail : ∀ t, s.mail.get? t = c.mail.get? t
  nextTicket : s.nextTicket = c.nextTicket

lemma represents_new : Represents {} {} where
  distinct := List.nodup_nil
  slot _ := rfl
  parked := rfl
  abandoned := rfl
  mail _ := rfl
  nextTicket := rfl

lemma Represents.of_claims (h : Represents s c) {d : Correlator} (hc : d.claims = c.claims) :
    Represents s d := by
  obtain ⟨hw, hp, ha, hm, hn⟩ := fields_of_claims hc
  exact ⟨h.distinct, by rw [hw, hp]; exact h.slot, hp ▸ h.parked, ha ▸ h.abandoned, hm ▸ h.mail,
    hn ▸ h.nextTicket⟩

lemma Represents.of_waiting (h : Represents s c) (hw : c.waiting.get? k = some t) :
    s.responses.get? k = some (.waiting t) := by
  rw [h.slot, hw]
  rfl

lemma Represents.of_parked (h : Represents s c) (hw : c.waiting.get? k = none) (hp : c.parked.get? k = some r) :
    s.responses.get? k = some (.ready r) := by
  rw [h.slot, hw, hp]
  rfl

lemma Represents.of_free (h : Represents s c) (hw : c.waiting.get? k = none) (hp : c.parked.get? k = none) :
    s.responses.get? k = none := by
  rw [h.slot, hw, hp]
  rfl

lemma Represents.putBack (h : Represents s c) {l : Slot} (hl : s.responses.get? k = some l) :
    Represents { s with responses := (s.responses.erase k).set k l } c := by
  refine ⟨(h.distinct.erase k).set k l, fun j => ?_, h.parked, h.abandoned, h.mail, h.nextTicket⟩
  rw [← h.slot, Table.get?_set, Table.get?_erase]
  by_cases hk : k = j
  · rw [if_pos hk, ← hk, hl]
  · rw [if_neg hk, if_neg hk]

lemma Represents.takeNone (h : Represents s c) (hk : s.responses.get? k = none) :
    Represents { s with responses := s.responses.erase k } c := by
  refine ⟨h.distinct.erase k, fun j => ?_, h.parked, h.abandoned, h.mail, h.nextTicket⟩
  rw [← h.slot, Table.get?_erase]
  split
  · rw [← hk, ‹k = j›]
  · rfl

lemma get?_drop (s : Slots) (ls : List Slot) (t : Ticket) :
    (s.drop ls).mail.get? t =
      if t ∈ ls.filterMap Slot.ticket? then (s.mail.get? t).map fun _ => .closed else s.mail.get? t := by
  rw [drop]
  dsimp only
  generalize ls.filterMap Slot.ticket? = ts
  generalize s.mail = m
  induction ts generalizing m with
  | nil => simp
  | cons u ts ih =>
    rw [List.foldl_cons, ih, Table.get?_modify]
    by_cases hu : u = t
    · by_cases ht : t ∈ ts <;> simp [ht, hu, Function.comp_def]
    · simp [hu, Ne.symm hu]

lemma get?_drop_one (s : Slots) (t u : Ticket) :
    (s.drop [.waiting t]).mail.get? u = (s.mail.modify t fun _ => .closed).get? u := by
  rw [get?_drop, Table.get?_modify]
  simp [Slot.ticket?, eq_comm]

lemma Represents.pop (h : Represents s c) (hc : Tidy c) (k : CacheKey) :
    (s.pop k).1 = (c.pop k).1 ∧ Represents (s.pop k).2 (c.pop k).2 := by
  rcases hw : c.waiting.get? k with _ | t
  · rcases hp : c.parked.get? k with _ | r
    · have hs := h.of_free hw hp
      simp only [Slots.pop, Correlator.pop, hs, hp, true_and]
      exact h.takeNone hs
    · have hs := h.of_parked hw hp
      simp only [Slots.pop, Correlator.pop, hs, hp, true_and]
      refine ⟨h.distinct.erase k, fun j => ?_, ?_, h.abandoned, h.mail, h.nextTicket⟩
      · by_cases hk : k = j
        · simp [← hk, hw]
        · simp [hk, h.slot]
      · dsimp only
        rw [h.parked, hc.parked.keys_erase]
  · have hs := h.of_waiting hw
    simp only [Slots.pop, Correlator.pop, hs, hc.apart k t hw, true_and]
    exact h.putBack hs

lemma Represents.register (h : Represents s c) (hc : Tidy c) (id : RequestId) :
    (s.register id).1 = (c.register id).1 ∧ Represents (s.register id).2 (c.register id).2 := by
  rcases hw : c.waiting.get? id.key with _ | t
  · rcases hp : c.parked.get? id.key with _ | r
    · have hs := h.of_free hw hp
      simp only [Slots.register, Correlator.register, hs, hw, hp, h.nextTicket, h.abandoned, Option.isSome_none,
        Bool.false_eq_true, if_false, true_and]
      refine ⟨(h.distinct.erase _).set _ _, fun j => ?_, h.parked, rfl, fun u => ?_, rfl⟩
      · by_cases hk : id.key = j
        · simp [← hk]
        · simp [hk, h.slot]
      · simp only [Table.get?_set, h.mail]
    · have hs := h.of_parked hw hp
      simp only [Slots.register, Correlator.register, hs, hw, hp, h.nextTicket, h.abandoned, Option.isSome_none,
        Bool.false_eq_true, if_false, true_and]
      refine ⟨h.distinct.erase _, fun j => ?_, ?_, rfl, fun u => ?_, rfl⟩
      · by_cases hk : id.key = j
        · simp [← hk, hw]
        · simp [hk, h.slot]
      · dsimp only
        rw [h.parked, hc.parked.keys_erase]
      · simp only [Table.get?_set, h.mail]
  · -- the request waits, so it is not among those given up
    have hs := h.of_waiting hw
    have ha : id.key ∉ c.abandoned := fun hm => by
      rw [(hc.shunned _ hm).1] at hw
      cases hw
    simp only [Slots.register, Correlator.register, hs, hw, h.abandoned, List.erase_of_not_mem ha,
      Option.isSome_some, if_true, true_and]
    exact h.abandoned ▸ h.putBack hs

lemma Represents.evict (h : Represents s c) (hc : Tidy c) :
    Represents (if maxParked ≤ s.parked.length then s.evict else s) { c with parked := kept c } := by
  have hl : s.parked.length = c.parked.size := by rw [h.parked, Table.keys, List.length_map, Table.size]
  rw [hl, kept]
  split
  · rename_i hm
    obtain ⟨j, r, rest, he⟩ : ∃ j r rest, c.parked.entries = (j, r) :: rest := by
      rcases he : c.parked.entries with _ | ⟨⟨j, r⟩, rest⟩
      · simp [Table.size, he, maxParked] at hm
      · exact ⟨j, r, rest, rfl⟩
    have hp : c.parked = ⟨(j, r) :: rest⟩ := congrArg Table.mk he
    have hj : j ∉ rest.map Prod.fst := by
      have hd := hc.parked
      rw [hp] at hd
      exact (List.nodup_cons.mp hd).1
    -- the slot that goes is that of the oldest, which nobody waits for
    have hw : c.waiting.get? j = none := by
      rw [Option.eq_none_iff_forall_ne_some]
      intro t ht
      have hn := hc.apart j t ht
      rw [hp] at hn
      simp [Table.get?, Table.find] at hn
    have hs : s.parked = j :: rest.map Prod.fst := by rw [h.parked, hp]; rfl
    rw [Slots.evict, hs]
    refine ⟨h.distinct.erase j, fun k => ?_, by rw [he]; rfl, h.abandoned, h.mail, h.nextTicket⟩
    by_cases hk : j = k
    · have hn : Table.find j rest = none := by
        rw [← Option.not_isSome_iff_eq_none, Table.find_isSome]
        exact hj
      rw [Table.get?_erase, if_pos hk, ← hk, hw]
      simp [Table.get?, he, hn]
    · rw [Table.get?_erase, if_neg hk, h.slot]
      simp [Table.get?, Table.find, he, hk]
  · exact h

lemma Represents.park (h : Represents s c) (hc : Tidy c) (hw : c.waiting.get? r.id.key = none)
    (hp : c.parked.get? r.id.key = none) :
    Represents ({ s with responses := s.responses.erase r.id.key }.park r.id.key r) (c.park r.id.key r) := by
  have hs := h.takeNone (h.of_free hw hp)
  have he := hs.evict hc
  have hk : (kept c).get? r.id.key = none := by
    rw [kept]
    split
    · exact Option.eq_none_iff_forall_ne_some.mpr fun a ha => by
        rw [hc.parked.get?_of_tail ha] at hp
        cases hp
    · exact hp
  refine ⟨he.distinct.set _ _, fun j => ?_, ?_, he.abandoned, he.mail, he.nextTicket⟩
  · have hj := he.slot j
    by_cases hk : r.id.key = j
    · simp [Slots.park, Correlator.park, ← hk, hw]
    · simpa [Slots.park, Correlator.park, hk, kept] using hj
  · show _ ++ [r.id.key] = ((kept c).set r.id.key r).keys
    rw [Table.keys_set hk]
    exact congrArg (· ++ [r.id.key]) he.parked

lemma Represents.depositResponse (h : Represents s c) (hc : Tidy c) (r : Response) :
    (s.depositResponse r).1 = (c.depositResponse r).1 ∧
      Represents (s.depositResponse r).2 (c.depositResponse r).2 := by
  simp only [Slots.depositResponse, Correlator.depositResponse]
  by_cases ha : r.id.key ∈ s.abandoned
  · rw [if_pos ha, if_pos (h.abandoned ▸ ha)]
    exact ⟨rfl, h.distinct, h.slot, h.parked, congrArg (·.erase r.id.key) h.abandoned, h.mail,
      h.nextTicket⟩
  · rw [if_neg ha, if_neg (h.abandoned ▸ ha)]
    rcases hw : c.waiting.get? r.id.key with _ | t
    · rcases hp : c.parked.get? r.id.key with _ | first
      · simp only [h.of_free hw hp, true_and]
        exact h.park hc hw hp
      · simp only [h.of_parked hw hp, true_and]
        exact h.putBack (h.of_parked hw hp)
    · simp only [h.of_waiting hw, h.mail]
      have taken : ∀ j, (s.responses.erase r.id.key).get? j =
          (((c.waiting.erase r.id.key).get? j).map Slot.waiting).or ((c.parked.get? j).map Slot.ready) := by
        intro j
        by_cases hk : r.id.key = j
        · simp [← hk, hc.apart _ t hw]
        · simp [hk, h.slot]
      rcases c.mail.get? t with _ | m
      · exact ⟨rfl, h.distinct.erase _, taken, h.parked, h.abandoned, h.mail, h.nextTicket⟩
      · refine ⟨rfl, h.distinct.erase _, taken, h.parked, h.abandoned, fun u => ?_, h.nextTicket⟩
        simp only [Table.get?_set, h.mail]

lemma Represents.deposit (h : Represents s c) (hc : Tidy c) (v : Json.Value) (push : Bool) :
    (s.deposit v push).1 = (c.deposit v push).1 ∧ Represents (s.deposit v push).2 (c.deposit v push).2 := by
  simp only [Slots.deposit, Correlator.deposit]
  cases push with
  | true =>
    simp only [if_true, depositPush]
    cases Notification.ofValue v with
    | error e => exact ⟨rfl, h⟩
    | ok n => exact ⟨rfl, h.of_claims rfl⟩
  | false =>
    simp only [Bool.false_eq_true, if_false]
    cases v.get? "id" with
    | none => exact ⟨rfl, h⟩
    | some i =>
      cases Response.ofValue v with
      | error e => exact ⟨rfl, h⟩
      | ok r => exact h.depositResponse hc r

lemma Represents.receive (h : Represents s c) (t : Ticket) :
    (s.receive t).1 = (c.receive t).1 ∧ Represents (s.receive t).2 (c.receive t).2 := by
  rcases hm : c.mail.get? t with _ | _ | r | _ <;>
    simp only [Slots.receive, Correlator.receive, h.mail, hm, true_and]
  · exact h
  · exact h
  · refine ⟨h.distinct, h.slot, h.parked, h.abandoned, fun u => ?_, h.nextTicket⟩
    rw [get?_drop_one, closeTicket, Table.get?_modify, Table.get?_modify, h.mail]
  · exact h

lemma Represents.discard (h : Represents s c) (t : Ticket) :
    Represents { s with mail := s.mail.erase t } (c.discard t) := by
  refine ⟨h.distinct, h.slot, h.parked, h.abandoned, fun u => ?_, h.nextTicket⟩
  rw [Correlator.discard, Table.get?_erase, Table.get?_erase, h.mail]

lemma Represents.withdraw (h : Represents s c) (hc : Tidy c) (hw : c.waiting.get? k = some t)
    (ks : List CacheKey) :
    Represents ({ s with responses := s.responses.erase k, abandoned := ks }.drop [.waiting t])
      { c.closeTicket t with waiting := c.waiting.erase k, abandoned := ks } := by
  refine ⟨h.distinct.erase k, fun j => ?_, h.parked, rfl, fun u => ?_, h.nextTicket⟩
  · by_cases hk : k = j
    · simp [drop, closeTicket, ← hk, hc.apart k t hw]
    · simp [drop, closeTicket, hk, h.slot]
  · rw [get?_drop_one, closeTicket, Table.get?_modify, Table.get?_modify, h.mail]

lemma Represents.forget (h : Represents s c) (hc : Tidy c) (id : RequestId) :
    Represents (s.forget id) (c.forget id) := by
  rcases hw : c.waiting.get? id.key with _ | t
  · simp only [Slots.forget, Correlator.forget, hw]
    rcases hp : c.parked.get? id.key with _ | r
    · rw [h.of_free hw hp]
      exact h
    · rw [h.of_parked hw hp]
      exact h
  · simp only [Slots.forget, Correlator.forget, hw, h.of_waiting hw]
    exact h.abandoned ▸ h.withdraw hc hw s.abandoned

lemma Represents.abandon (h : Represents s c) (hc : Tidy c) (id : RequestId) :
    Represents (s.abandon id) (c.abandon id) := by
  rcases hw : c.waiting.get? id.key with _ | t
  · simp only [Slots.abandon, Correlator.abandon, hw]
    rcases hp : c.parked.get? id.key with _ | r
    · rw [h.of_free hw hp]
      exact h.takeNone (h.of_free hw hp)
    · rw [h.of_parked hw hp]
      exact h.putBack (h.of_parked hw hp)
  · simp only [Slots.abandon, Correlator.abandon, hw, h.of_waiting hw, h.abandoned]
    exact h.withdraw hc hw _

lemma ticket?_eq_some {l : Slot} : l.ticket? = some t ↔ l = .waiting t := by
  cases l <;> simp [Slot.ticket?]

lemma Represents.get?_eq_waiting (h : Represents s c) :
    s.responses.get? k = some (.waiting t) ↔ c.waiting.get? k = some t := by
  rw [h.slot]
  rcases c.waiting.get? k with _ | u
  · cases c.parked.get? k <;> simp
  · simp

lemma Represents.get?_eq_ready (h : Represents s c) (hc : Tidy c) :
    s.responses.get? k = some (.ready r) ↔ c.parked.get? k = some r := by
  rw [h.slot]
  rcases hw : c.waiting.get? k with _ | u
  · simp
  · simp [hc.apart k u hw]

lemma Represents.mem_tickets (h : Represents s c) (hc : Tidy c) :
    t ∈ s.responses.values.filterMap Slot.ticket? ↔ t ∈ c.waiting.values := by
  rw [hc.waiting.mem_values, List.mem_filterMap]
  constructor
  · rintro ⟨l, hl, ht⟩
    obtain ⟨k, hk⟩ := h.distinct.mem_values.mp hl
    exact ⟨k, h.get?_eq_waiting.mp (ticket?_eq_some.mp ht ▸ hk)⟩
  · rintro ⟨k, hk⟩
    exact ⟨_, h.distinct.mem_values.mpr ⟨k, h.get?_eq_waiting.mpr hk⟩, rfl⟩

lemma Represents.retain (h : Represents s c) (hc : Tidy c) : Represents s.retain c.dismiss := by
  obtain ⟨mail, he, hm⟩ := foldl_closeTicket c c.waiting.values
  rw [dismiss, he]
  refine ⟨h.distinct.sublist (List.filter_sublist.map Prod.fst), fun k => ?_, h.parked, h.abandoned,
    fun t => ?_, h.nextTicket⟩
  · refine (h.distinct.get?_filter (fun l => l.ticket?.isNone) k).trans ?_
    rw [h.slot]
    rcases hw : c.waiting.get? k with _ | t
    · cases c.parked.get? k <;> rfl
    · dsimp only
      rw [hc.apart k t hw]
      rfl
  · rw [hm t, ← h.mail]
    exact (get?_drop _ _ t).trans (by simp only [h.mem_tickets hc])

lemma Represents.clear (h : Represents s c) (hc : Tidy c) : Represents s.clear c.clear := by
  have hr := h.retain hc
  exact ⟨List.nodup_nil, fun _ => rfl, rfl, rfl, hr.mail, hr.nextTicket⟩

end Slots

namespace Entry

def answers : Entry → Bool
  | .deposited _ _ _ | .popped _ _ | .registered _ _ | .received _ _ => true
  | _ => false

def parks : Entry → Option Response
  | .deposited v false (.ok .parked) => (Response.ofValue v).toOption
  | _ => none

lemma parks_of_idle {e : Entry} (h : e.idle) : e.parks = none := by
  cases e with
  | deposited v push r => cases push <;> cases r <;> first | rfl | cases h
  | _ => rfl

end Entry

def parkings (log : List Entry) : List Response := log.filterMap Entry.parks

lemma parkings_snoc (log : List Entry) {e : Entry} :
    parkings (log ++ [e]) = parkings log ++ e.parks.toList := by
  rw [parkings, List.filterMap_append]
  cases h : e.parks <;> simp [h, parkings]

lemma sublist_dedup_snoc {α : Type} [DecidableEq α] {p l : List α} {a : α} (h : p.Sublist l.dedup)
    (ha : a ∉ p) :
    (p ++ [a]).Sublist (l ++ [a]).dedup := by
  induction l generalizing p with
  | nil => simpa using h
  | cons b l ih =>
    by_cases hb : b ∈ l
    · rw [List.dedup_cons_of_mem hb] at h
      rw [List.cons_append, List.dedup_cons_of_mem (List.mem_append_left _ hb)]
      exact ih h ha
    · rw [List.dedup_cons_of_notMem hb] at h
      by_cases hab : b = a
      -- an earlier place of what comes last goes, and it is none of those that stay
      · rw [List.cons_append, List.dedup_cons_of_mem (by simp [hab])]
        cases h with
        | cons _ h => exact ih h ha
        | cons_cons _ h => exact absurd (hab ▸ List.mem_cons_self) ha
      · rw [List.cons_append, List.dedup_cons_of_notMem (by simp [hb, hab])]
        cases h with
        | cons _ h => exact (ih h ha).cons _
        | cons_cons _ h => exact (ih h fun hm => ha (List.mem_cons_of_mem _ hm)).cons_cons _

structure Ordered (log : List Entry) (c : Correlator) : Prop where
  size : c.parked.size ≤ maxParked
  order : c.parked.keys.Sublist ((parkings log).map fun r => r.id.key).dedup
  last : ∀ k r, c.parked.get? k = some r → (parkings log).reverse.find? (fun r => r.id.key = k) = some r
  abandoned : c.abandoned.length ≤ maxAbandoned

lemma ordered_new : Ordered [] {} where
  size := Nat.zero_le _
  order := List.nil_sublist _
  last k r h := by cases h
  abandoned := Nat.zero_le _

lemma Ordered.of_sublist {log : List Entry} {c d : Correlator} {e : Entry} (h : Ordered log c)
    (hc : c.parked.Distinct) (hp : d.parked.entries.Sublist c.parked.entries) (he : e.parks = none)
    (ha : d.abandoned.length ≤ max c.abandoned.length maxAbandoned) : Ordered (log ++ [e]) d := by
  have hl : parkings (log ++ [e]) = parkings log := by rw [parkings_snoc, he]; exact List.append_nil _
  exact ⟨Nat.le_trans hp.length_le h.size, hl ▸ (hp.map Prod.fst).trans h.order,
    fun k r hk => hl ▸ h.last k r (hc.get?_of_mem (hp.subset (Table.mem_entries_of_get? hk))),
    Nat.le_trans ha (Nat.max_le.mpr ⟨h.abandoned, Nat.le_refl _⟩)⟩

lemma Ordered.of_same {log : List Entry} {c d : Correlator} {e : Entry} (h : Ordered log c)
    (hc : c.parked.Distinct) (hp : d.parked = c.parked) (ha : d.abandoned = c.abandoned)
    (he : e.parks = none) : Ordered (log ++ [e]) d :=
  h.of_sublist hc (hp ▸ List.Sublist.refl _) he (ha ▸ Nat.le_max_left _ _)

lemma Ordered.parks {log : List Entry} {c : Correlator} {r : Response} {e : Entry} (h : Ordered log c)
    (hc : c.parked.Distinct) (hp : c.parked.get? r.id.key = none) (he : e.parks = some r) :
    Ordered (log ++ [e]) (c.park r.id.key r) := by
  have hl : parkings (log ++ [e]) = parkings log ++ [r] := by rw [parkings_snoc, he]; rfl
  have hs := kept_sublist c
  have back : ∀ k s, (kept c).get? k = some s → c.parked.get? k = some s := fun k s hk =>
    hc.get?_of_mem (hs.subset (Table.mem_entries_of_get? hk))
  have hk : (kept c).get? r.id.key = none := Option.eq_none_iff_forall_ne_some.mpr fun s hk => by
    rw [back _ s hk] at hp
    cases hp
  have hkeys : (c.park r.id.key r).parked.keys = (kept c).keys ++ [r.id.key] := Table.keys_set hk r
  have hn : r.id.key ∉ (kept c).keys := fun hm => by
    obtain ⟨s, hm⟩ := Table.mem_keys.mp hm
    rw [hk] at hm
    cases hm
  refine ⟨?_, ?_, fun k s hk => ?_, h.abandoned⟩
  · have hlen := congrArg List.length hkeys
    rw [Table.keys, Table.keys, List.length_append, List.length_map, List.length_map] at hlen
    exact Nat.le_trans (Nat.le_of_eq hlen) (size_kept h.size)
  · rw [hkeys, hl, List.map_append]
    exact sublist_dedup_snoc ((hs.map Prod.fst).trans h.order) hn
  · rw [hl, List.reverse_append]
    have hk : ((kept c).set r.id.key r).get? k = some s := hk
    rw [Table.get?_set] at hk
    split at hk
    · cases hk
      simp [‹r.id.key = k›]
    · simpa [‹¬r.id.key = k›] using h.last k s (back k s hk)

lemma sublist_register {c d : Correlator} {id : RequestId} {t : Ticket} (h : c.register id = (.ok t, d)) :
    d.parked.entries.Sublist c.parked.entries := by
  simp only [register] at h
  split at h
  · cases h
  · split at h <;> cases h
    · exact List.filter_sublist
    · exact List.Sublist.refl _

lemma Ordered.deals {log : List Entry} {c d : Correlator} {e : Entry} (h : Ordered log c) (hc : Tidy c)
    (hd : Deals c d e) : Ordered (log ++ [e]) d := by
  cases hd with
  | keeps hd he =>
    obtain ⟨-, hp, ha, -, -⟩ := fields_of_claims hd
    exact h.of_same hc.parked hp ha (Entry.parks_of_idle he)
  | registers hr =>
    refine h.of_sublist hc.parked (sublist_register hr) rfl ?_
    rw [(register_ok hr).abandoned]
    exact Nat.le_trans (List.length_erase_le) (Nat.le_max_left _ _)
  | places hv hp =>
    cases hp with
    | late _ =>
      exact h.of_sublist hc.parked (List.Sublist.refl _) rfl
        (Nat.le_trans List.length_erase_le (Nat.le_max_left _ _))
    | delivered _ _ => exact h.of_same hc.parked rfl rfl rfl
    | unheard _ _ => exact h.of_same hc.parked rfl rfl rfl
    | parked _ _ hp => exact h.parks hc.parked hp (by rw [Entry.parks, hv]; rfl)
  | pops _ hd =>
    subst hd
    exact h.of_sublist hc.parked List.filter_sublist rfl (Nat.le_max_left _ _)
  | receives _ hd =>
    subst hd
    exact h.of_same hc.parked rfl rfl rfl
  | discards t hd =>
    subst hd
    exact h.of_same hc.parked rfl rfl rfl
  | closes ks hd _ hl _ =>
    refine h.of_sublist hc.parked ?_ rfl hl
    rcases hd.parked with hp | hp <;> rw [hp]
    · exact List.nil_sublist _

lemma Slots.Represents.step {s : Slots} {x : Exchange} (h : s.Represents x.correlator) (hc : Tidy x.correlator)
    (o : Op) : ∃ e, (x.step o).log = x.log ++ [e] ∧ (s.step o).1.toList = [e].filter Entry.answers ∧
      (s.step o).2.Represents (x.step o).correlator := by
  cases o with
  | deposit v push =>
    obtain ⟨ha, hr⟩ := h.deposit hc v push
    exact ⟨_, rfl, by rw [Slots.step, ha]; rfl, hr⟩
  | pop k =>
    obtain ⟨ha, hr⟩ := h.pop hc k
    exact ⟨_, rfl, by rw [Slots.step, ha]; rfl, hr⟩
  | register id =>
    obtain ⟨ha, hr⟩ := h.register hc id
    exact ⟨_, rfl, by rw [Slots.step, ha]; rfl, hr⟩
  | receive t =>
    obtain ⟨ha, hr⟩ := h.receive t
    exact ⟨_, rfl, by rw [Slots.step, ha]; rfl, hr⟩
  | discard t => exact ⟨_, rfl, rfl, h.discard t⟩
  | forget id => exact ⟨_, rfl, rfl, h.forget hc id⟩
  | abandon id => exact ⟨_, rfl, rfl, h.abandon hc id⟩
  | clear => exact ⟨_, rfl, rfl, h.clear hc⟩
  | fail reason => exact ⟨_, rfl, rfl, (h.retain hc).of_claims rfl⟩
  | closeByPeer => exact ⟨_, rfl, rfl, (h.retain hc).of_claims rfl⟩
  | reopen => exact ⟨_, rfl, rfl, h.of_claims rfl⟩
  | openSubscription i => exact ⟨_, rfl, rfl, h.of_claims (claims_openSubscription _ i)⟩
  | removeSubscription i => exact ⟨_, rfl, rfl, h.of_claims rfl⟩
  | popSubscription i => exact ⟨_, rfl, rfl, h.of_claims (claims_popSubscription _ i)⟩
  | read i =>
    exact ⟨_, log_look { x with nextReader := x.nextReader + 1 } _ _, rfl, h.of_claims (claims_look _ _ _)⟩
  | poll n =>
    rw [Exchange.step]
    split
    · exact ⟨_, log_look _ _ _, rfl, h.of_claims (claims_look _ _ _)⟩
    · exact ⟨_, rfl, rfl, h⟩
  | quit n => exact ⟨_, rfl, rfl, h⟩

/-- Slots and the lists beside them say the same. -/
structure Slots.Sound (log : List Entry) (s : Slots) : Prop where
  parked_nodup : s.parked.Nodup
  mem_parked : ∀ k, k ∈ s.parked ↔ ∃ r, s.responses.get? k = some (.ready r)
  parked_length : s.parked.length ≤ maxParked
  ordered : s.parked.Sublist ((parkings log).map fun r => r.id.key).dedup
  last : ∀ k r, s.responses.get? k = some (.ready r) →
    (parkings log).reverse.find? (fun r => r.id.key = k) = some r
  abandoned_nodup : s.abandoned.Nodup
  abandoned_length : s.abandoned.length ≤ maxAbandoned
  abandoned_apart : ∀ k ∈ s.abandoned, s.responses.get? k = none

lemma Slots.Represents.sound {s : Slots} {c : Correlator} {log : List Entry} (h : s.Represents c) (hc : Tidy c)
    (ho : Ordered log c) : s.Sound log where
  parked_nodup := h.parked ▸ hc.parked
  mem_parked k := by
    rw [h.parked, Table.mem_keys]
    exact exists_congr fun r => (h.get?_eq_ready hc).symm
  parked_length := by
    rw [h.parked, Table.keys, List.length_map]
    exact ho.size
  ordered := h.parked ▸ ho.order
  last k r hk := ho.last k r ((h.get?_eq_ready hc).mp hk)
  abandoned_nodup := h.abandoned ▸ hc.abandoned
  abandoned_length := h.abandoned ▸ ho.abandoned
  abandoned_apart k hk := by
    obtain ⟨hw, hp⟩ := hc.shunned k (h.abandoned ▸ hk)
    exact h.of_free hw hp

lemma slots_steps (os : List Op) {p : List Entry × Slots} {x : Exchange}
    (hl : p.1 = x.log.filter Entry.answers) (hr : p.2.Represents x.correlator) (hc : Tidy x.correlator)
    (ho : Ordered x.log x.correlator) :
    (Slots.steps p os).1 = (x.steps os).log.filter Entry.answers ∧
      (Slots.steps p os).2.Represents (x.steps os).correlator ∧
      (Slots.steps p os).2.Sound (x.steps os).log := by
  induction os generalizing p x with
  | nil => exact ⟨hl, hr, hr.sound hc ho⟩
  | cons o os ih =>
    obtain ⟨e, he, ha, hs⟩ := hr.step hc o
    obtain ⟨e', he', hd⟩ := step_deals x o hc.waiting
    obtain rfl : e = e' := List.singleton_inj.mp (List.append_cancel_left (he.symm.trans he'))
    refine ih ?_ hs (hc.deals hd) (he ▸ ho.deals hc hd)
    rw [he, List.filter_append, ← ha, ← hl]

/-- However it is used, a correlator answers as slots do, and the slots agree with the lists beside them. -/
theorem slots_run (os : List Op) :
    (Slots.run os).1 = (Exchange.run os).log.filter Entry.answers ∧
      (Slots.run os).2.Represents (Exchange.run os).correlator ∧
      (Slots.run os).2.Sound (Exchange.run os).log :=
  slots_steps os rfl Slots.represents_new tidy_new ordered_new

end SocketRpc.Correlator
