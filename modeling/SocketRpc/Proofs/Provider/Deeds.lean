import SocketRpc.Proofs.Provider.Farewell
import SocketRpc.Proofs.Provider.Waiters

namespace SocketRpc.Provider

variable {F : Failure → Prop} {a : Option CallId} {p q m : Provider} {b c : CallId} {l : ListenerId}
  {d : Dispatch} {ph ph' : Phase} {e : Event} {es : List Event} {f : Failure} {s : SocketId}

inductive Deed where
  | writes (s : SocketId) (bs : Bytes)
  | wrote (r : Except Failure Unit)
  | closes (s : SocketId)
  | opens
  | opened (r : Except Failure SocketId)
  | handed (r : Except Failure SocketId)
deriving DecidableEq

def Phase.told (next : SocketId) : Phase → Event → Option Deed
  | .writing _ out _, .sink _ a =>
    match out.step a with
    | .done r => some (.wrote r)
    | .more _ => none
  | .resetOpening _ _, .opened _ r => some (.opened (r.map fun _ => next))
  | _, _ => none

def Phase.inHand (next : SocketId) : Phase → Event → Option SocketId
  | .handing _ _ s, .turn _ => some s
  | .resetOpening _ _, .opened _ (.ok _) => some next
  | _, _ => none

def offer (p : Provider) (s : SocketId) : Option (Except Failure SocketId) :=
  match p.listening with
  | none => some (.error p.correlator.closedFailure)
  | some l =>
    if p.isFinished l then some (.error p.correlator.closedFailure)
    else
      match (p.listeners.get? l).bind Listener.replacement with
      | some _ => none
      | none => some (.ok s)

def Phase.asks (s : SocketId) : Phase → Option Deed
  | .writing _ out _ => some (.writes s out.left)
  | .resetClosing _ _ => some (.closes s)
  | .resetOpening _ _ => some .opens
  | _ => none

def Phase.goesOn : Phase → Phase → Bool
  | .writing _ out _, .writing _ rest _ => rest.left.isSuffixOf out.left
  | .resetClosing _ _, .resetClosing _ _ | .resetOpening _ _, .resetOpening _ _ => true
  | _, _ => false

def asked (q : Provider) (c : CallId) (old : Phase) : Option Deed :=
  match q.phaseOf c, q.slot with
  | some ph, some conn => if old.goesOn ph then none else ph.asks conn.writer
  | _, _ => none

def deed (p : Provider) (c : CallId) (e : Event) : List Deed :=
  if p.subject e = some c then
    match p.phaseOf c with
    | none => []
    | some ph =>
      (ph.told p.nextSocket e).toList ++ ((ph.inHand p.nextSocket e).bind p.offer).toList.map Deed.handed ++
        ((p.step e).asked c ph).toList
  else []

def deeds (p : Provider) (c : CallId) : List Event → List Deed
  | [] => []
  | e :: es => p.deed c e ++ (p.step e).deeds c es

lemma deeds_snoc (p : Provider) (c : CallId) (es : List Event) (e : Event) :
    p.deeds c (es ++ [e]) = p.deeds c es ++ (p.steps es).deed c e := by
  induction es generalizing p with
  | nil => exact List.append_nil _
  | cons d es ih =>
    rw [List.cons_append, deeds, ih, deeds, List.append_assoc]
    rfl

def Note.settles (c : CallId) : Note → Option (Except Failure Response)
  | .settled b _ r => if b = c then some r else none
  | _ => none

/-- What a call makes of its request in a run: nothing as long as it is not through with it. -/
def settlements (p : Provider) (c : CallId) (es : List Event) : List (Except Failure Response) :=
  ((p.steps es).notes.drop p.notes.length).filterMap (Note.settles c)

lemma deed_of_phase (hs : p.subject e = some c) (hp : p.phaseOf c = some ph) :
    p.deed c e = (ph.told p.nextSocket e).toList ++
      ((ph.inHand p.nextSocket e).bind p.offer).toList.map Deed.handed ++ ((p.step e).asked c ph).toList := by
  rw [deed, if_pos hs, hp]

lemma deed_other (hs : p.subject e ≠ some c) : p.deed c e = [] := by rw [deed, if_neg hs]

lemma deed_gone (hp : p.phaseOf c = none) : p.deed c e = [] := by
  rw [deed, hp]
  split <;> rfl

lemma asked_of_phase {conn : Connection} (hp : q.phaseOf c = some ph') (hs : q.slot = some conn) :
    q.asked c ph = if ph.goesOn ph' then none else ph'.asks conn.writer := by
  rw [asked, hp, hs]

lemma asked_none (hp : ∀ ph', q.phaseOf c = some ph' → ph.goesOn ph' ∨ ∀ s, ph'.asks s = none) :
    q.asked c ph = none := by
  rw [asked]
  split
  · rename_i ph' conn hq _
    split
    · rfl
    · exact (hp ph' hq).resolve_left ‹_› _
  · rfl

lemma Phase.goesOn_self (ph : Phase) : ph.goesOn ph ∨ ∀ s, ph.asks s = none := by
  cases ph <;> simp [goesOn, asks]

lemma deed_unheeded (hk : c < p.nextCall) (hp : p.phaseOf c = some ph) (hs : p.subject e = some c)
    (hh : ph.heeds e = false) : p.deed c e = [] := by
  have ht : ph.told p.nextSocket e = none ∧ ph.inHand p.nextSocket e = none := by
    cases ph <;> cases e <;> first | exact ⟨rfl, rfl⟩ | cases hh
  have ha : (p.step e).asked c ph = none := by
    rw [step_unheeded hk hp hs hh]
    refine asked_none fun ph' hp' => ?_
    cases hp.symm.trans hp'
    exact ph.goesOn_self
  rw [deed_of_phase hs hp, ht.1, ht.2, ha]
  rfl

def Unsettled (p : Provider) (c : CallId) (q : Provider) : Prop :=
  ∃ ns, q.notes = p.notes ++ ns ∧ ns.filterMap (Note.settles c) = []

lemma unsettled_same (h : q.notes = p.notes) : Unsettled p c q := ⟨[], h.trans (List.append_nil _).symm, rfl⟩

lemma Unsettled.trans (h : Unsettled p c m) (g : Unsettled m c q) : Unsettled p c q := by
  obtain ⟨ns, hn, hs⟩ := h
  obtain ⟨ms, gn, gs⟩ := g
  exact ⟨ns ++ ms, by rw [gn, hn, List.append_assoc], by rw [List.filterMap_append, hs, gs, List.append_nil]⟩

lemma settles_of_tacit {x : Note} (hx : x.tacit) (c : CallId) : x.settles c = none := by
  cases x <;> first | rfl | cases hx

lemma settles_tacit {ns : List Note} (h : ∀ x ∈ ns, x.tacit) (c : CallId) :
    ns.filterMap (Note.settles c) = [] :=
  List.filterMap_eq_nil_iff.mpr fun x hx => settles_of_tacit (h x hx) c

lemma unsettled_tacit (h : ∃ ns, q.notes = p.notes ++ ns ∧ ∀ x ∈ ns, x.tacit) (c : CallId) :
    Unsettled p c q := by
  obtain ⟨ns, hn, hs⟩ := h
  exact ⟨ns, hn, settles_tacit hs c⟩

lemma Handles.unsettled (h : Handles F p a q) (hc : a ≠ some c ∨ Over p c fun _ => True) : Unsettled p c q := by
  -- whoever is through with a request had one in progress, or had not begun
  have other : ∀ {b ph}, a = some b → p.phaseOf b = some ph → (∀ r, ph ≠ .done r) → b ≠ c := by
    rintro b ph ha hp hn rfl
    obtain ⟨r, hr, -⟩ := (hc.resolve_left (not_not.mpr ha)).done ph hp
    exact hn r hr
  have carries : ∀ {b d}, a = some b → p.dispatch? b = some d → b ≠ c := fun ha hd => by
    obtain ⟨ph, hp, hd⟩ := Option.bind_eq_some_iff.mp hd
    refine other ha hp ?_
    rintro r rfl
    cases hd
  cases h with
  | stay hs => exact unsettled_tacit hs.notes c
  | refuse hp hn hw hq =>
    have hb := other rfl hp nofun
    exact ⟨_, hn, by simp [Note.settles, hb]⟩
  | claim hp hr hn hd => exact ⟨_, hn, rfl⟩
  | reclaim hp hm hr hw hn hd => exact ⟨_, hn, rfl⟩
  | settle hp hn hs hw hk hd =>
    have hb := carries rfl hp
    refine ⟨_, hn.trans (List.append_assoc _ _ _), ?_⟩
    rw [List.filterMap_append, settles_tacit hs]
    simp [Note.settles, hb]
  | desert hp hd hn hq => exact unsettled_tacit hn c

lemma unsettled_step (ho : Orderly p) (hc : p.subject e ≠ some c ∨ Over p c fun _ => True) :
    Unsettled p c (p.step e) := by
  obtain ⟨m, hm, he⟩ := step_moves (F := fun _ => True) p e fun _ _ => trivial
  have hu : Orderly m ∧ (p.subject e ≠ some c ∨ Over m c fun _ => True) ∧ Unsettled p c m :=
    chain_preserves (I := fun q => Orderly q ∧ (p.subject e ≠ some c ∨ Over q c fun _ => True) ∧ Unsettled p c q)
      (fun _ _ ⟨ho, hc, hu⟩ hm =>
        ⟨ho.calm hm, hc.imp_right (·.calm hm), hu.trans ((calm_handles ho.ledger hm).unsettled hc)⟩)
      ⟨ho, hc, unsettled_same rfl⟩ hm
  rcases he with he | ⟨-, hup, -⟩
  · exact he ▸ hu.2.2
  · exact hu.2.2.trans (unsettled_tacit (upheaval_stays hup).1.notes c)

lemma settlements_snoc {ms : List Note} (h : ((p.steps es).step e).notes = (p.steps es).notes ++ ms) :
    p.settlements c (es ++ [e]) = p.settlements c es ++ ms.filterMap (Note.settles c) := by
  obtain ⟨ns, hn⟩ := notes_steps p es
  rw [settlements, settlements, steps_snoc, h, hn, List.append_assoc, List.drop_left, List.drop_left,
    List.filterMap_append]

lemma Unsettled.settlements_snoc (h : Unsettled (p.steps es) c ((p.steps es).step e)) :
    p.settlements c (es ++ [e]) = p.settlements c es := by
  obtain ⟨ns, hn, hs⟩ := h
  rw [Provider.settlements_snoc hn, hs, List.append_nil]

structure AtRest (p : Provider) (c : CallId) : Prop where
  known : c < p.nextCall
  rests : ∀ ph, p.phaseOf c = some ph → ph.rests

lemma Over.atRest (h : Over p c fun _ => True) : AtRest p c where
  known := h.known
  rests ph hp := by
    obtain ⟨r, rfl, -⟩ := h.done ph hp
    rfl

lemma phaseOf_settle (hp : m.phaseOf c = some ph) (x : Request) (r : Except Failure Response) :
    ∃ z, (m.settle c x r).phaseOf c = some (.done z) := by
  obtain ⟨z, hz⟩ := calls_settle m c x r
  refine ⟨z, ?_⟩
  obtain ⟨op, hc⟩ := call_of_phase hp
  simp [phaseOf, hz, hc]

lemma phaseOf_settleDispatch (hp : m.phaseOf c = some ph) (d : Dispatch) (r : Except Failure Response) :
    ∃ ph', (m.settleDispatch c d r).phaseOf c = some ph' ∧ ph'.rests := by
  obtain ⟨z, hz⟩ := phaseOf_settle (m := { m with correlator := m.correlator.discard d.ticket }) hp d.request r
  exact ⟨_, hz, rfl⟩

lemma phaseOf_await (hp : p.phaseOf c = some ph) (hr : ph.rests) (d : Dispatch) (started : Nat) :
    ∃ ph', (p.await c d started).phaseOf c = some ph' ∧ ph'.rests := by
  rw [await]
  split
  · rename_i r k _
    exact phaseOf_settleDispatch (m := { p with correlator := k }) hp d _
  · exact phaseOf_settleDispatch hp d _
  · split
    · exact phaseOf_settleDispatch (m := p.withdrawing _ _) hp d _
    · exact ⟨ph, hp, hr⟩

lemma phaseOf_awaitAfterReset (hp : p.phaseOf c = some ph) (hr : ph.rests) (d : Dispatch) :
    ∃ ph', (p.awaitAfterReset c d).phaseOf c = some ph' ∧ ph'.rests := by
  rw [awaitAfterReset]
  split
  · split
    · rename_i t k _
      let m := { p with correlator := k.discard d.ticket }.note (.claimed c d.request t)
      have hw : (m.setPhase c (.awaiting { d with ticket := t } p.now)).phaseOf c =
          some (.awaiting { d with ticket := t } p.now) := phaseOf_setPhase_self (p := m) hp
      exact phaseOf_await hw rfl _ _
    · rename_i f k _
      exact phaseOf_settleDispatch (m := { p with correlator := k }) hp d _
  · exact phaseOf_await hp hr d _

lemma AtRest.step (h : AtRest p c) (e : Event) : AtRest (p.step e) c := by
  refine ⟨Nat.lt_of_lt_of_le h.known (nextCall_le p e), fun ph hq => ?_⟩
  by_cases hs : p.subject e = some c
  · cases hp : p.phaseOf c with
    | none =>
      have := gone_step h.known (e := e) (Option.map_eq_none_iff.mp hp)
      rw [phaseOf, this] at hq
      cases hq
    | some old =>
      have hr := h.rests old hp
      cases hh : old.heeds e with
      | false =>
        rw [step_unheeded h.known hp hs hh, hp] at hq
        cases hq
        exact hr
      | true =>
        obtain ⟨op, hc⟩ := call_of_phase hp
        cases old with
        | awaiting d started =>
          cases e with
          | turn b =>
            cases hs
            obtain ⟨ph', hp', hr'⟩ := phaseOf_await hp hr d started
            have ht : p.step (.turn c) = p.await c d started := by simp only [Provider.step, turn, hc]
            rw [ht, hp'] at hq
            cases hq
            exact hr'
          | drop b =>
            cases hs
            cases (phaseOf_drop hp).symm.trans hq
          | _ => cases hh
        | done r =>
          cases e with
          | collect b =>
            cases hs
            have ht : p.step (.collect c) = { p with calls := p.calls.erase c } := by
              simp only [Provider.step, collect, result?, hp]
            rw [ht] at hq
            simp [phaseOf] at hq
          | drop b =>
            cases hs
            cases (phaseOf_drop hp).symm.trans hq
          | _ => cases hh
        | _ => cases hr
  · exact h.rests ph (phaseOf_other hs ▸ hq)

lemma AtRest.deed (h : AtRest p c) (e : Event) : p.deed c e = [] := by
  by_cases hs : p.subject e = some c
  · cases hp : p.phaseOf c with
    | none => exact deed_gone hp
    | some ph =>
      have hr := h.rests ph hp
      have ht : ph.told p.nextSocket e = none ∧ ph.inHand p.nextSocket e = none := by
        cases ph <;> first | exact ⟨rfl, rfl⟩ | cases hr
      have ha : (p.step e).asked c ph = none := asked_none fun ph' hp' => by
        have hr' := (h.step e).rests ph' hp'
        right
        cases ph' <;> first | exact fun _ => rfl | cases hr'
      rw [deed_of_phase hs hp, ht.1, ht.2, ha]
      rfl
  · exact deed_other hs

lemma upheaval_slot (hu : Upheaval p q) : q.slot = p.slot := by
  cases hu with
  | tear hp hf =>
    rename_i next
    cases next with
    | connect => rfl
    | disconnect => exact slot_release _
  | orphan => rfl
  | fail _ hs f => exact slot_fault p _ f

lemma slot_calm (ho : Orderly p) (hm : Calm F p a q) (hp : p.phaseOf c = some ph) (hg : ph.guarded)
    (hc : a ≠ some c) : q.slot = p.slot := by
  have apart : ∀ {b ph'}, a = some b → p.phaseOf b = some ph' → ph'.guarded → False := fun ha hb hg' =>
    hc (ha.trans (congrArg some (ho.guarded.alone (ho.guarded.holds _ _ hb hg') hp hg)))
  cases calm_works ho.ledger.known hm with
  | aside hs | part _ _ hs | hand _ _ _ hs | desert _ _ _ hs => exact hs
  | takeOut ha hh => exact absurd (ha.trans (congrArg some (ho.guarded.alone hh.2 hp hg))) hc
  | connect ha hb => exact (apart ha hb rfl).elim
  | renew ha hb => exact (apart ha hb rfl).elim

lemma slot_other (ho : Orderly p) (hp : p.phaseOf c = some ph) (hg : ph.guarded) (hs : p.subject e ≠ some c) :
    (p.step e).slot = p.slot := by
  obtain ⟨m, hm, he⟩ := step_moves (F := fun _ => True) p e fun _ _ => trivial
  have hslot : Orderly m ∧ m.phaseOf c = some ph ∧ m.slot = p.slot :=
    chain_preserves (I := fun q => Orderly q ∧ q.phaseOf c = some ph ∧ q.slot = p.slot)
      (fun _ _ ⟨ho, hp, hsl⟩ hm => by
        obtain ⟨ns, f⟩ := entries_frame (calm_entries hm)
        exact ⟨ho.calm hm, (f.phaseOf hs).trans hp, (slot_calm ho hm hp hg hs).trans hsl⟩)
      ⟨ho, hp, rfl⟩ hm
  rcases he with he | ⟨hsl, hu, -⟩
  · exact he ▸ hslot.2.2
  · exact (upheaval_slot hu).trans hsl

end SocketRpc.Provider
