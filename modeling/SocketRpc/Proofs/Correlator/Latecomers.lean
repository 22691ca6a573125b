import SocketRpc.Proofs.Correlator.Retention

namespace SocketRpc.Correlator

variable {c d : Correlator} {o : Op} {e : Entry} {k : CacheKey} {id : RequestId} {r : Response}
  {v : Json.Value} {x : Exchange} {os : List Op} {n : Nat}

namespace Op

def regards (k : CacheKey) : Op → Bool
  | .register id => id.key = k
  | o => o.response?.any fun r => r.id.key = k

def givesUp (c : Correlator) : Op → Bool
  | .abandon id => (c.waiting.get? id.key).isSome
  | _ => false

end Op

inductive Recalls (c d : Correlator) (o : Op) : Prop where
  | keeps (h : d.abandoned = c.abandoned)
  | drops (k : CacheKey) (h : d.abandoned = c.abandoned.erase k) (ho : o.regards k)
  | remembers (k : CacheKey) (ho : o.givesUp c)
      (h : d.abandoned =
        (if maxAbandoned ≤ c.abandoned.length then c.abandoned.tail else c.abandoned) ++ [k])
  | clears (ho : o = .clear)

lemma deposit_recalls (c : Correlator) (v : Json.Value) (push : Bool) :
    Recalls c (c.deposit v push).2 (.deposit v push) := by
  rcases c.deposit_placed v push with ⟨r, o, hr, -, hp, -⟩ | ⟨hc, -⟩
  · generalize (c.deposit v push).2 = d at hp
    cases hp with
    | late _ => exact .drops r.id.key rfl (by simp [Op.regards, hr])
    | delivered _ _ | unheard _ _ | parked _ _ _ => exact .keeps rfl
  · exact .keeps (fields_of_claims hc).2.2.1

lemma register_recalls (c : Correlator) (id : RequestId) : Recalls c (c.register id).2 (.register id) := by
  rcases h : c.register id with ⟨f | t, d⟩
  · exact .keeps (congrArg abandoned (register_error h).2.2)
  · exact .drops id.key (register_ok h).abandoned (by simp [Op.regards])

lemma abandon_recalls (c : Correlator) (id : RequestId) : Recalls c (c.abandon id) (.abandon id) := by
  rcases hw : c.waiting.get? id.key with _ | t
  · exact .keeps (by rw [abandon, hw])
  · exact .remembers id.key (by rw [Op.givesUp, hw]; rfl) (by rw [abandon, hw])

lemma step_recalls (x : Exchange) (o : Op) : Recalls x.correlator (x.step o).correlator o := by
  have keeps : ∀ {d : Correlator}, d.claims = x.correlator.claims → Recalls x.correlator d o := fun hc =>
    .keeps (fields_of_claims hc).2.2.1
  cases o with
  | deposit v push => exact deposit_recalls _ v push
  | register id => exact register_recalls _ id
  | abandon id => exact abandon_recalls _ id
  | clear => exact .clears rfl
  | forget id => exact .keeps (abandoned_forget _ id)
  | fail reason => exact .keeps (abandoned_dismiss _)
  | closeByPeer => exact .keeps (abandoned_dismiss _)
  | pop k =>
    refine .keeps ?_
    rw [Exchange.step, pop]
    split <;> rfl
  | receive t =>
    refine .keeps ?_
    rw [Exchange.step, receive]
    split <;> rfl
  | discard t => exact .keeps rfl
  | reopen => exact keeps rfl
  | openSubscription s => exact keeps (claims_openSubscription _ s)
  | removeSubscription s => exact keeps rfl
  | popSubscription s => exact keeps (claims_popSubscription _ s)
  | read s => exact keeps (claims_look _ _ _)
  | poll n =>
    rw [Exchange.step]
    split
    · exact keeps (claims_look _ _ _)
    · exact keeps rfl
  | quit n => exact keeps rfl

def Exchange.givenUp (x : Exchange) : List Op → Nat
  | [] => 0
  | o :: os => (o.givesUp x.correlator).toNat + givenUp (x.step o) os

lemma Behind.recalls (h : Behind k n c.abandoned) (hc : Tidy c) (hr : Recalls c d o) (ho : o ≠ .clear)
    (hk : o.regards k = false) (hn : n + (o.givesUp c).toNat < maxAbandoned) :
    Behind k (n + (o.givesUp c).toNat) d.abandoned := by
  cases hr with
  | keeps hd => exact (hd ▸ h).mono (Nat.le_add_right _ _)
  | drops j hd hj =>
    have hne : k ≠ j := by
      rintro rfl
      cases hk.symm.trans hj
    rw [hd]
    exact (h.sublist hc.abandoned List.erase_sublist ((List.mem_erase_of_ne hne).mpr h.mem)).mono
      (Nat.le_add_right _ _)
  | remembers j hj hd =>
    rw [hj] at hn ⊢
    exact hd ▸ h.push hn j
  | clears he => exact absurd he ho

lemma Behind.recalls_steps (h : Behind k n x.correlator.abandoned) (hc : Tidy x.correlator) (ho : .clear ∉ os)
    (hk : ∀ o ∈ os, o.regards k = false) (hn : n + x.givenUp os < maxAbandoned) :
    Behind k (n + x.givenUp os) (x.steps os).correlator.abandoned := by
  induction os generalizing x n with
  | nil => exact h
  | cons o os ih =>
    rw [Exchange.givenUp, ← Nat.add_assoc] at hn ⊢
    have hstep := h.recalls hc (step_recalls x o) (fun he => ho (he ▸ List.mem_cons_self))
      (hk o List.mem_cons_self) (by omega)
    exact ih hstep (hc.step o) (fun hm => ho (List.mem_cons_of_mem _ hm))
      (fun p hp => hk p (List.mem_cons_of_mem _ hp)) hn

structure Blank (c : Correlator) (k : CacheKey) : Prop where
  waiting : c.waiting.get? k = none
  parked : c.parked.get? k = none
  abandoned : k ∉ c.abandoned

def Entry.op? : Entry → Option Op
  | .deposited v push _ => some (.deposit v push)
  | .registered id _ => some (.register id)
  | _ => none

lemma op?_of_log {p : Op} (hl : (x.step o).log = x.log ++ [e]) (he : e.op? = some p) : o = p := by
  have same : ∀ {e'}, (x.step o).log = x.log ++ [e'] → e' = e := fun h =>
    List.singleton_inj.mp (List.append_cancel_left (h.symm.trans hl))
  cases o with
  | deposit v push =>
    obtain rfl := same rfl
    exact Option.some.inj he
  | register id =>
    obtain rfl := same rfl
    exact Option.some.inj he
  | read s =>
    obtain rfl := same (log_look { x with nextReader := x.nextReader + 1 } _ _)
    cases he
  | poll n =>
    rw [Exchange.step] at same hl
    split at same
    · obtain rfl := same (log_look _ _ _)
      cases he
    · obtain rfl := same rfl
      cases he
  | _ =>
    obtain rfl := same rfl
    cases he

lemma Blank.deposit (h : Blank c k) (hc : Tidy c) {push : Bool} (hk : (Op.deposit v push).regards k = false) :
    Blank (c.deposit v push).2 k := by
  rcases c.deposit_placed v push with ⟨r, o, hr, -, hp, -⟩ | ⟨hd, -⟩
  · have hne : k ≠ r.id.key := by
      rintro rfl
      simp [Op.regards, hr] at hk
    have hr := hc.receives hp
    refine ⟨Option.eq_none_iff_forall_ne_some.mpr fun t ht => ?_,
      Option.eq_none_iff_forall_ne_some.mpr fun s hs => ?_, fun hm => h.abandoned (hr.abandoned.subset hm)⟩
    · cases h.waiting.symm.trans ((hr.waiting k t).mp ht).1
    · rcases hr.parked hc.parked k s hs with hs | ⟨he, -, -⟩
      · cases h.parked.symm.trans hs
      · exact hne he
  · obtain ⟨hw, hp, ha, -, -⟩ := fields_of_claims hd
    exact ⟨hw ▸ h.waiting, hp ▸ h.parked, ha ▸ h.abandoned⟩

lemma Blank.register (h : Blank c k) {t : Ticket} (hr : Registers c d id t) (hk : id.key ≠ k) : Blank d k where
  waiting := Option.eq_none_iff_forall_ne_some.mpr fun u hu => by
    rcases (hr.waiting k u).mp hu with hu | ⟨he, -⟩
    · cases h.waiting.symm.trans hu
    · exact hk he.symm
  parked := Option.eq_none_iff_forall_ne_some.mpr fun s hs => by
    cases h.parked.symm.trans ((hr.parked k s).mp hs).1
  abandoned hm := by
    rw [hr.abandoned] at hm
    exact h.abandoned (List.mem_of_mem_erase hm)

lemma Blank.step (h : Blank x.correlator k) (hc : Tidy x.correlator) (hk : o.regards k = false) :
    Blank (x.step o).correlator k := by
  obtain ⟨e, hl, hd⟩ := step_deals x o hc.waiting
  cases hd with
  | keeps hd _ =>
    obtain ⟨hw, hp, ha, -, -⟩ := fields_of_claims hd
    exact ⟨hw ▸ h.waiting, hp ▸ h.parked, ha ▸ h.abandoned⟩
  | registers hr =>
    obtain rfl := op?_of_log hl rfl
    exact h.register (register_ok hr) (by simpa [Op.regards] using hk)
  | places _ _ =>
    obtain rfl := op?_of_log hl rfl
    exact h.deposit hc hk
  | pops _ hd =>
    refine hd ▸ ⟨h.waiting, ?_, h.abandoned⟩
    rw [Table.get?_erase, h.parked, ite_self]
  | receives _ hd => exact hd ▸ ⟨h.waiting, h.parked, h.abandoned⟩
  | discards t hd => exact hd ▸ ⟨h.waiting, h.parked, h.abandoned⟩
  | closes ks hd ha _ _ =>
    refine ⟨?_, ?_, fun hm => ?_⟩
    · rw [hd.waiting, h.waiting, ite_self]
    · rcases hd.parked with he | he <;> rw [he]
      · exact h.parked
      · rfl
    · rcases ha k hm with hm | hm
      · exact h.abandoned hm
      · rw [h.waiting] at hm
        cases hm

lemma Blank.steps (h : Blank x.correlator k) (hc : Tidy x.correlator) (hk : ∀ o ∈ os, o.regards k = false) :
    Blank (x.steps os).correlator k := by
  induction os generalizing x with
  | nil => exact h
  | cons o os ih =>
    exact ih (h.step hc (hk o List.mem_cons_self)) (hc.step o) fun p hp => hk p (List.mem_cons_of_mem _ hp)

structure DroppedOnce (x : Exchange) (id : RequestId) (v : Json.Value) : Prop where
  late : (x.step (.deposit v false)).log = x.log ++ [.deposited v false (.ok .late)]
  unchanged : (x.step (.deposit v false)).correlator =
    { x.correlator with abandoned := x.correlator.abandoned.erase id.key }
  next : ∀ os w s, (∀ o ∈ os, o.regards id.key = false) → (Op.deposit w false).response? = some s → s.id = id →
    let y := (x.step (.deposit v false)).steps os
    (y.step (.deposit w false)).log = y.log ++ [.deposited w false (.ok .parked)] ∧
      (y.step (.deposit w false)).correlator.parked.get? id.key = some s

lemma droppedOnce_of_mem (hc : Tidy x.correlator) (h : r.id.key ∈ x.correlator.abandoned)
    (hr : (Op.deposit v false).response? = some r) : DroppedOnce x r.id v := by
  have hd : x.correlator.deposit v false =
      (.ok .late, { x.correlator with abandoned := x.correlator.abandoned.erase r.id.key }) := by
    rw [deposit_response _ hr, depositResponse, if_pos h]
  have unchanged : (x.step (.deposit v false)).correlator =
      { x.correlator with abandoned := x.correlator.abandoned.erase r.id.key } := congrArg Prod.snd hd
  refine ⟨by rw [Exchange.step, hd]; rfl, unchanged, fun os w s ho hs hid => ?_⟩
  have blank : Blank (x.step (.deposit v false)).correlator r.id.key := by
    rw [unchanged]
    exact ⟨(hc.shunned _ h).1, (hc.shunned _ h).2, hc.abandoned.not_mem_erase⟩
  have blank := blank.steps (hc.step _) ho
  rw [← hid] at blank ⊢
  intro y
  have hp : y.correlator.deposit w false = (.ok .parked, y.correlator.park s.id.key s) := by
    rw [deposit_response _ hs, depositResponse, if_neg blank.abandoned, blank.waiting, blank.parked]
  refine ⟨by rw [Exchange.step, hp]; rfl, ?_⟩
  rw [Exchange.step, hp]
  exact get?_park_self _ s

/-- However a correlator was used, to give up a request that waits is to remember it, unless as many are given up
after it as there is room for, until a response to it comes; that one is dropped and nothing else changes, and the
one after it is parked. To give up a request that does not wait is to do nothing. -/
theorem late_response_dropped_once (os : List Op) (id : RequestId) :
    let x := Exchange.run os
    let y := x.step (.abandon id)
    (x.correlator.waiting.get? id.key = none → y.correlator = x.correlator) ∧
    ((x.correlator.waiting.get? id.key).isSome → ∀ os' v r, .clear ∉ os' → (∀ o ∈ os', o.regards id.key = false) →
      y.givenUp os' < maxAbandoned → (Op.deposit v false).response? = some r → r.id = id →
      DroppedOnce (y.steps os') id v) := by
  intro x y
  have hx : Tidy x.correlator := Exchange.tidy_run os
  refine ⟨fun hw => ?_, fun hw os' v r hc hk hn hr hid => ?_⟩
  · show x.correlator.abandon id = x.correlator
    rw [abandon, hw]
  · subst hid
    obtain ⟨t, ht⟩ := Option.isSome_iff_exists.mp hw
    have remembered : Behind r.id.key 0 y.correlator.abandoned := by
      have hy : y.correlator = x.correlator.abandon r.id := rfl
      rw [hy, abandon, ht]
      exact behind_last _ _
    have hy : Tidy y.correlator := hx.step _
    exact droppedOnce_of_mem (hy.steps os') (remembered.recalls_steps hy hc hk (by omega)).mem hr

def meanwhile : List Op :=
  [.register (.number 8), .abandon (.number 8), .deposit (.object [("id", .number (.integer 8))]) false,
    .fail "reset", .closeByPeer, .reopen]

theorem late_response_dropped_once_disturbed :
    let x := Exchange.run [.register (.number 7)]
    (x.correlator.waiting.get? (RequestId.number 7).key).isSome ∧
    DroppedOnce ((x.step (.abandon (.number 7))).steps meanwhile) (.number 7)
      (.object [("id", .number (.integer 7)), ("result", .null)]) := by
  intro x
  have hw : (x.correlator.waiting.get? (RequestId.number 7).key).isSome := by rfl
  refine ⟨hw, (late_response_dropped_once [.register (.number 7)] (.number 7)).2 hw meanwhile _ _ ?_ ?_ ?_ rfl rfl⟩
  · simp [meanwhile]
  · decide
  · decide

end SocketRpc.Correlator
