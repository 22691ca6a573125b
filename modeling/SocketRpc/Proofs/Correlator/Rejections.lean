import SocketRpc.Proofs.Correlator.Slots

/-!
An operation that is rejected changes nothing, although it takes out what is under its key before it knows that it
will be.
-/

namespace SocketRpc.Correlator

variable {c d : Correlator} {k : CacheKey} {x : Exchange} {o : Op} {e : Entry}

def Entry.rejects : Entry → Bool
  | .deposited _ _ (.error _) | .registered _ (.error _) | .popped _ none => true
  | _ => false

lemma pop_none (h : c.pop k = (none, d)) : d = c := by
  rw [pop] at h
  split at h <;> cases h
  rfl

lemma Exchange.step_rejects (hl : (x.step o).log = x.log ++ [e]) (he : e.rejects) :
    (x.step o).correlator = x.correlator ∧ (x.step o).readers = x.readers := by
  have same : ∀ {e'}, (x.step o).log = x.log ++ [e'] → e' = e := fun h =>
    List.singleton_inj.mp (List.append_cancel_left (h.symm.trans hl))
  cases o with
  | deposit v push =>
    obtain rfl := same rfl
    rcases hd : x.correlator.deposit v push with ⟨f | o, d⟩ <;> rw [hd] at he
    · exact ⟨by rw [step, hd]; exact (deposit_error hd).2, rfl⟩
    · cases he
  | pop k =>
    obtain rfl := same rfl
    rcases hd : x.correlator.pop k with ⟨_ | r, d⟩ <;> rw [hd] at he
    · exact ⟨by rw [step, hd]; exact pop_none hd, rfl⟩
    · cases he
  | register id =>
    obtain rfl := same rfl
    rcases hd : x.correlator.register id with ⟨f | t, d⟩ <;> rw [hd] at he
    · exact ⟨by rw [step, hd]; exact (register_error hd).2.2, rfl⟩
    · cases he
  | read s =>
    obtain rfl := same (log_look { x with nextReader := x.nextReader + 1 } _ _)
    cases he
  | poll n =>
    rw [step] at same hl
    split at same
    · obtain rfl := same (log_look _ _ _)
      cases he
    · obtain rfl := same rfl
      cases he
  | _ =>
    obtain rfl := same rfl
    cases he

namespace Slots

structure Same (s s' : Slots) : Prop where
  slot : ∀ k, s.responses.get? k = s'.responses.get? k
  parked : s.parked = s'.parked
  abandoned : s.abandoned = s'.abandoned
  mail : ∀ t, s.mail.get? t = s'.mail.get? t
  nextTicket : s.nextTicket = s'.nextTicket

lemma Represents.same {s s' : Slots} (h : s.Represents c) (h' : s'.Represents c) : s.Same s' where
  slot k := (h.slot k).trans (h'.slot k).symm
  parked := h.parked.trans h'.parked.symm
  abandoned := h.abandoned.trans h'.abandoned.symm
  mail t := (h.mail t).trans (h'.mail t).symm
  nextTicket := h.nextTicket.trans h'.nextTicket.symm

/-- However slots were used before, an operation that they reject leaves them as they were, and with them all that
a correlator holds. -/
theorem rejected_changes_nothing (os : List Op) (o : Op) {e : Entry} (h : ((run os).2.step o).1 = some e)
    (he : e.rejects) :
    ((run os).2.step o).2.Same (run os).2 ∧
      (Exchange.run (os ++ [o])).log = (Exchange.run os).log ++ [e] ∧
      (Exchange.run (os ++ [o])).correlator = (Exchange.run os).correlator ∧
      (Exchange.run (os ++ [o])).readers = (Exchange.run os).readers := by
  have hr := (slots_steps os (p := ([], {})) (x := {}) rfl represents_new tidy_new ordered_new).2.1
  obtain ⟨e', hl, ha, hs⟩ := hr.step (Exchange.tidy_run os) o
  -- what slots answer is what the log says
  obtain rfl : e = e' := by
    have hm : e ∈ [e'].filter Entry.answers := by
      rw [← ha]
      exact Option.mem_toList.mpr h
    exact List.mem_singleton.mp (List.mem_filter.mp hm).1
  have hc := Exchange.step_rejects hl he
  have hs : ((run os).2.step o).2.Represents (Exchange.run os).correlator := hc.1 ▸ hs
  rw [Exchange.run_snoc]
  exact ⟨hs.same hr, hl, hc⟩

/-- A request was given up, and another one under its identifier is in flight. -/
def reused : List Op := [.register (.number 7), .abandon (.number 7), .register (.number 7)]

theorem rejected_changes_nothing_reused :
    ((run reused).2.step (.register (.number 7))).1 =
        some (.registered (.number 7) (.error (.duplicateRequestId (.number 7)))) ∧
      ((run reused).2.step (.register (.number 7))).2.Same (run reused).2 := by
  have h : ((run reused).2.step (.register (.number 7))).1 =
      some (.registered (.number 7) (.error (.duplicateRequestId (.number 7)))) := by rfl
  exact ⟨h, (rejected_changes_nothing reused (.register (.number 7)) h rfl).1⟩

end Slots

end SocketRpc.Correlator
