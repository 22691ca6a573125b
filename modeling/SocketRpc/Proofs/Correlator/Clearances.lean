import SocketRpc.Proofs.Correlator.Origins
import SocketRpc.Proofs.Correlator.Queues

namespace SocketRpc.Correlator

variable {s : SubscriptionId} {n : ReaderId} {rd : Reader}

namespace Exchange

variable {x y : Exchange} {e : Entry}

structure Attends (x y : Exchange) (e : Entry) : Prop where
  log : y.log = x.log ++ [e]
  next : x.nextReader ≤ y.nextReader
  epoch : y.correlator.epoch = x.correlator.epoch ∧ e ≠ .did .clear ∨
    y.correlator.epoch = x.correlator.epoch + 1 ∧ e = .did .clear
  stays : ∀ n rd, y.readers.get? n = some rd → x.readers.get? n = some rd ∨
    n = x.nextReader ∧ n < y.nextReader ∧ rd.epoch = y.correlator.epoch ∧
      ∃ r, e = .read n rd.subscription r
  reads : ∀ n i r, e = .read n i r → (n < y.nextReader ∨ ∃ rd, x.readers.get? n = some rd) ∧
    ∀ rd, y.readers.get? n = some rd → rd.subscription = i

lemma Attends.of_same {c : Correlator} {rs : Table ReaderId Reader}
    (hr : ∀ n rd, rs.get? n = some rd → x.readers.get? n = some rd)
    (hc : c.epoch = x.correlator.epoch ∧ e ≠ .did .clear ∨
      c.epoch = x.correlator.epoch + 1 ∧ e = .did .clear)
    (he : ∀ n i r, e ≠ .read n i r) : Attends x ({ x with readers := rs }.record c e) e where
  log := rfl
  next := Nat.le_refl _
  epoch := hc
  stays n rd h := Or.inl (hr n rd h)
  reads n i r h := absurd h (he n i r)

lemma epoch_popSubscription (c : Correlator) (i : SubscriptionId) :
    (c.popSubscription i).2.epoch = c.epoch := by
  rw [popSubscription]
  split <;> rfl

lemma epoch_nextNotification (c : Correlator) (i : SubscriptionId) (epoch : Nat) :
    (c.nextNotification i epoch).2.epoch = c.epoch := by
  rcases c.nextNotification_cases i epoch with ⟨v, hp, -⟩ | ⟨hc, -⟩
  · rw [← epoch_popSubscription c i, hp]
  · rw [hc]

lemma epoch_openSubscription (c : Correlator) (i : SubscriptionId) :
    (c.openSubscription i).epoch = c.epoch := by
  rw [openSubscription]
  split <;> rfl

lemma epoch_deposit (c : Correlator) (v : Json.Value) (push : Bool) : (c.deposit v push).2.epoch = c.epoch := by
  simp only [deposit, depositPush]
  split
  · split <;> rfl
  · split
    · rfl
    · split
      · rfl
      · exact congrArg Prod.snd (feeds_depositResponse c _)

lemma look_attends (x : Exchange) (n : ReaderId) (rd : Reader) :
    (x.look n rd).nextReader = x.nextReader ∧ (x.look n rd).correlator.epoch = x.correlator.epoch ∧
      ∀ m r, (x.look n rd).readers.get? m = some r →
        m = n ∧ r = rd ∨ m ≠ n ∧ x.readers.get? m = some r := by
  have he := epoch_nextNotification x.correlator rd.subscription rd.epoch
  rw [look]
  split
  · rename_i hn
    rw [hn] at he
    refine ⟨rfl, he, fun m r hm => ?_⟩
    have hm : (x.readers.set n rd).get? m = some r := hm
    rw [Table.get?_set] at hm
    split at hm
    · exact Or.inl ⟨‹n = m›.symm, (Option.some.inj hm).symm⟩
    · exact Or.inr ⟨Ne.symm ‹_›, hm⟩
  · rename_i hn
    rw [hn] at he
    refine ⟨rfl, he, fun m r hm => ?_⟩
    have hm : (x.readers.erase n).get? m = some r := hm
    rw [Table.get?_erase] at hm
    split at hm
    · cases hm
    · exact Or.inr ⟨Ne.symm ‹_›, hm⟩

theorem step_attends (x : Exchange) (o : Op) : ∃ e, Attends x (x.step o) e := by
  have same : ∀ {c : Correlator} {e : Entry}, c.epoch = x.correlator.epoch → e ≠ .did .clear →
      (∀ n i r, e ≠ .read n i r) → Attends x (x.record c e) e :=
    fun hc he hr => .of_same (fun _ _ h => h) (Or.inl ⟨hc, he⟩) hr
  cases o with
  | deposit v push => exact ⟨_, same (epoch_deposit _ v push) nofun nofun⟩
  | pop k => exact ⟨_, same (congrArg Prod.snd (feeds_pop _ k)) nofun nofun⟩
  | register id => exact ⟨_, same (congrArg Prod.snd (feeds_register _ id)) nofun nofun⟩
  | receive t => exact ⟨_, same (congrArg Prod.snd (feeds_receive _ t)) nofun nofun⟩
  | discard t => exact ⟨_, same rfl nofun nofun⟩
  | forget id => exact ⟨_, same (congrArg Prod.snd (feeds_forget _ id)) nofun nofun⟩
  | abandon id => exact ⟨_, same (congrArg Prod.snd (feeds_abandon _ id)) nofun nofun⟩
  | clear => exact ⟨_, .of_same (fun _ _ h => h) (Or.inr ⟨rfl, rfl⟩) nofun⟩
  | fail reason => exact ⟨_, same (congrArg Prod.snd (feeds_dismiss _)) nofun nofun⟩
  | closeByPeer => exact ⟨_, same (congrArg Prod.snd (feeds_dismiss _)) nofun nofun⟩
  | reopen => exact ⟨_, same rfl nofun nofun⟩
  | openSubscription i => exact ⟨_, same (epoch_openSubscription _ i) nofun nofun⟩
  | removeSubscription i => exact ⟨_, same rfl nofun nofun⟩
  | popSubscription i => exact ⟨_, same (epoch_popSubscription _ i) nofun nofun⟩
  | read i =>
    let y : Exchange := { x with nextReader := x.nextReader + 1 }
    obtain ⟨hn, he, hr⟩ := look_attends y x.nextReader ⟨i, x.correlator.epoch⟩
    refine ⟨_, log_look y x.nextReader ⟨i, x.correlator.epoch⟩, ?_, Or.inl ⟨he, nofun⟩,
      fun m rd hm => ?_, fun m j r hm => ?_⟩
    · exact Nat.le_trans (Nat.le_succ _) (Nat.le_of_eq hn.symm)
    · rcases hr m rd hm with ⟨rfl, rfl⟩ | ⟨-, hm⟩
      · exact Or.inr ⟨rfl, Nat.lt_of_lt_of_eq (Nat.lt_succ_self _) hn.symm, he.symm, _, rfl⟩
      · exact Or.inl hm
    · cases hm
      refine ⟨Or.inl (Nat.lt_of_lt_of_eq (Nat.lt_succ_self _) hn.symm), fun rd hrd => ?_⟩
      rcases hr _ rd hrd with ⟨-, rfl⟩ | ⟨hne, -⟩
      · rfl
      · exact absurd rfl hne
  | poll n =>
    rcases hrd : x.readers.get? n with _ | rd
    · rw [step_poll_none hrd]
      exact ⟨_, same rfl nofun nofun⟩
    · rw [step_poll hrd]
      obtain ⟨hn, he, hr⟩ := look_attends x n rd
      refine ⟨_, log_look x n rd, Nat.le_of_eq hn.symm, Or.inl ⟨he, nofun⟩,
        fun m r hm => ?_, fun m j r hm => ?_⟩
      · rcases hr m r hm with ⟨rfl, rfl⟩ | ⟨-, hm⟩
        · exact Or.inl hrd
        · exact Or.inl hm
      · cases hm
        refine ⟨Or.inr ⟨rd, hrd⟩, fun r hr' => ?_⟩
        rcases hr _ r hr' with ⟨-, rfl⟩ | ⟨hne, -⟩
        · rfl
        · exact absurd rfl hne
  | quit n =>
    refine ⟨_, .of_same (fun m rd hm => ?_) (Or.inl ⟨rfl, nofun⟩) nofun⟩
    rw [Table.get?_erase] at hm
    split at hm
    · cases hm
    · exact hm

structure Aware (x : Exchange) : Prop where
  fresh : ∀ n rd, x.readers.get? n = some rd → n < x.nextReader
  logged : ∀ (i : Nat) n s r, x.log[i]? = some (.read n s r) → n < x.nextReader
  begun : ∀ (i : Nat) n s r rd, x.log[i]? = some (.read n s r) → x.readers.get? n = some rd →
    rd.subscription = s
  past : ∀ n rd, x.readers.get? n = some rd → rd.epoch ≤ x.correlator.epoch
  cleared : ∀ (i j : Nat) n s r rd, i < j → x.log[i]? = some (.read n s r) →
    x.log[j]? = some (.did .clear) → x.readers.get? n = some rd → rd.epoch < x.correlator.epoch

lemma aware_new : Aware {} where
  fresh n rd h := by cases h
  logged i n s r h := by cases h
  begun i n s r rd h := by cases h
  past n rd h := by cases h
  cleared i j n s r rd hij h := by cases h

lemma Attends.le_epoch (h : Attends x y e) : x.correlator.epoch ≤ y.correlator.epoch := by
  rcases h.epoch with ⟨he, -⟩ | ⟨he, -⟩ <;> rw [he]
  exact Nat.le_succ _

lemma Aware.stays (h : Aware x) (ha : Attends x y e) {i : Nat} {r : Option (Except Failure Json.Value)}
    (hi : x.log[i]? = some (.read n s r)) (hn : y.readers.get? n = some rd) : x.readers.get? n = some rd := by
  rcases ha.stays n rd hn with hn | ⟨rfl, -⟩
  · exact hn
  · exact absurd (h.logged i _ s r hi) (Nat.lt_irrefl _)

lemma Aware.attends (h : Aware x) (ha : Attends x y e) : Aware y where
  fresh n rd hn := by
    rcases ha.stays n rd hn with hn | ⟨-, hn, -⟩
    · exact Nat.lt_of_lt_of_le (h.fresh n rd hn) ha.next
    · exact hn
  logged i n s r hi := by
    rw [ha.log] at hi
    rcases getElem?_snoc.mp hi with hi | ⟨-, he⟩
    · exact Nat.lt_of_lt_of_le (h.logged i n s r hi) ha.next
    · rcases (ha.reads n s r he).1 with hn | ⟨rd, hn⟩
      · exact hn
      · exact Nat.lt_of_lt_of_le (h.fresh n rd hn) ha.next
  begun i n s r rd hi hn := by
    rw [ha.log] at hi
    rcases getElem?_snoc.mp hi with hi | ⟨-, he⟩
    · exact h.begun i n s r rd hi (h.stays ha hi hn)
    · exact (ha.reads n s r he).2 rd hn
  past n rd hn := by
    rcases ha.stays n rd hn with hn | ⟨-, -, he, -⟩
    · exact Nat.le_trans (h.past n rd hn) ha.le_epoch
    · exact Nat.le_of_eq he
  cleared i j n s r rd hij hi hj hn := by
    rw [ha.log] at hi hj
    have hlt : i < x.log.length := by
      have hj := (List.getElem?_eq_some_iff.mp hj).1
      rw [List.length_append, List.length_singleton] at hj
      omega
    rw [List.getElem?_append_left hlt] at hi
    have hx := h.stays ha hi hn
    rcases getElem?_snoc.mp hj with hj | ⟨-, he⟩
    · exact Nat.lt_of_lt_of_le (h.cleared i j n s r rd hij hi hj hx) ha.le_epoch
    · rcases ha.epoch with ⟨-, hne⟩ | ⟨hn, -⟩
      · exact absurd he hne
      · rw [hn]
        exact Nat.lt_succ_of_le (h.past n rd hx)

theorem aware_run (os : List Op) : Aware (run os) := by
  induction os using List.reverseRecOn with
  | nil => exact aware_new
  | append_singleton os o ih =>
    obtain ⟨e, ha⟩ := step_attends (run os) o
    exact run_snoc os o ▸ ih.attends ha

theorem poll_of_cleared (os : List Op) {i j : Nat} {r : Option (Except Failure Json.Value)} (hij : i < j)
    (hi : (run os).log[i]? = some (.read n s r)) (hj : (run os).log[j]? = some (.did .clear))
    (hn : (run os).readers.get? n = some rd) :
    ((run os).step (.poll n)).log = (run os).log ++ [.read n s (some (.error .connectionClosed))] ∧
      ((run os).step (.poll n)).correlator = (run os).correlator ∧
      ((run os).step (.poll n)).readers.get? n = none := by
  have ha := aware_run os
  have he : (run os).correlator.epoch ≠ rd.epoch := (Nat.ne_of_lt (ha.cleared i j n s r rd hij hi hj hn)).symm
  have hs := ha.begun i n s r rd hi hn
  have hl : (run os).correlator.nextNotification rd.subscription rd.epoch =
      (some (.error .connectionClosed), (run os).correlator) := if_pos he
  rw [step_poll hn, look, hl]
  refine ⟨by rw [hs]; rfl, rfl, ?_⟩
  show ((run os).readers.erase n).get? n = none
  rw [Table.get?_erase, if_pos rfl]

/-- A clearance comes between what was deposited before it and those who ask after it. -/
structure Apart (x : Exchange) : Prop where
  responses : ∃ source : Nat → Nat, Set.InjOn source {j | ((x.log[j]?).bind Entry.hands).isSome} ∧
    ∀ j r, (x.log[j]?).bind Entry.hands = some r →
      (x.log[source j]?).bind Entry.accepts = some r ∧
      ∀ m, x.log[m]? = some (.did .clear) →
        (∀ k, m < j → x.log[j]? = some (.popped k (some r)) → m < source j) ∧
        ∀ i id t, m < i → x.log[i]? = some (.registered id (.ok t)) →
          x.log[j]? = some (.received t (.filled r)) → m < source j
  pushes : ∀ (m : Nat) s, x.log[m]? = some (.did .clear) →
    ((x.log.drop (m + 1)).flatMap (Entry.returns s)).Sublist ((x.log.drop (m + 1)).filterMap (Entry.pushes s))
  readers : ∀ (i m : Nat) n s r rd, i < m → x.log[i]? = some (.read n s r) →
    x.log[m]? = some (.did .clear) → x.readers.get? n = some rd →
      (x.step (.poll n)).log = x.log ++ [.read n s (some (.error .connectionClosed))] ∧
      (x.step (.poll n)).correlator = x.correlator ∧ (x.step (.poll n)).readers.get? n = none

theorem apart_run (os : List Op) : Apart (run os) where
  responses := by
    obtain ⟨source, hs⟩ := traced_run os
    have ho := owned_run os
    refine ⟨fun j => source (.handed j), fun i hi j hj he => ?_,
      fun j r hj => ⟨hs.accepted _ r hj, fun m hm => ⟨?_, ?_⟩⟩⟩
    · obtain ⟨r, hr⟩ := Option.isSome_iff_exists.mp hi
      obtain ⟨s, hs'⟩ := Option.isSome_iff_exists.mp hj
      exact Holder.handed.inj (hs.own _ _ r s hr hs' he)
    · intro k hmj hk
      refine hs.recent _ r m hj hm ⟨hmj, fun t s ht => ?_⟩
      rw [hk] at ht
      cases ht
    · intro i id t hmi hi ht
      obtain ⟨i', hij, hi'⟩ := ho.received j t r ht
      obtain rfl := ho.once i i' id r.id t hi hi'
      refine hs.recent _ r m hj hm ⟨Nat.lt_trans hmi hij, fun u s hu => ?_⟩
      rw [ht] at hu
      cases hu
      exact ⟨i, hmi, hij, id, hi⟩
  pushes m s hm := (List.sublist_append_left _ _).trans ((fed_run os s).cleared m hm)
  readers _ _ _ _ _ _ hij hi hm hn := poll_of_cleared os hij hi hm hn

end Exchange

end SocketRpc.Correlator
