import SocketRpc.Proofs.Provider.Callers
import SocketRpc.Proofs.Provider.Undisturbed

namespace SocketRpc.Provider

variable {a : Option CallId} {p q : Provider} {c : CallId} {e : Event} {es : List Event}
  {cut cut' : Phase → Bool} {I : Provider → Prop}

def inside (cut : Phase → Bool) (p : Provider) (c : CallId) : Bool := ((p.phaseOf c).map cut).getD false

/-- No call is dropped inside of certain phases. -/
def Spares (cut : Phase → Bool) (p : Provider) : List Event → Prop
  | [] => True
  | e :: es => (∀ c, e = .drop c → p.inside cut c = false) ∧ (p.step e).Spares cut es

instance (P : CallId → Prop) [DecidablePred P] (e : Event) : Decidable (∀ c, e = .drop c → P c) :=
  match e with
  | .drop b => decidable_of_iff (P b) ⟨by rintro h c ⟨⟩; exact h, fun h => h b rfl⟩
  | .call _ | .turn _ | .listen _ | .arrive _ _ | .opened _ _ | .closed _ | .sink _ _ | .collect _ | .pop _
  | .take _ | .elapse _ => isTrue nofun

instance decidableSpares : (p : Provider) → (es : List Event) → Decidable (p.Spares cut es)
  | _, [] => isTrue trivial
  | p, e :: es =>
    have := decidableSpares (p.step e) es
    inferInstanceAs (Decidable ((∀ c, e = .drop c → p.inside cut c = false) ∧ (p.step e).Spares cut es))

lemma Spares.mono (h : p.Spares cut es) (hc : ∀ ph, cut ph = false → cut' ph = false) :
    p.Spares cut' es := by
  induction es generalizing p with
  | nil => trivial
  | cons e es ih =>
    refine ⟨fun c he => ?_, ih h.2⟩
    have hs := h.1 c he
    rw [inside] at hs ⊢
    cases hp : p.phaseOf c with
    | none => rfl
    | some ph =>
      rw [hp] at hs
      exact hc ph hs

def Severs (cut : Phase → Bool) (a : Option CallId) (p q : Provider) : Prop :=
  ∃ c ph, a = some c ∧ p.phaseOf c = some ph ∧ cut ph ∧ q.phaseOf c = none

lemma get?_newCall (p : Provider) (op : Operation) : (p.newCall op).calls.get? p.nextCall = some { op } := by
  rw [newCall, Table.get?_set, if_pos rfl]

lemma step_unknown (hs : p.subject e = some c) (hn : ∀ op, e ≠ .call op) (hc : p.calls.get? c = none) :
    p.step e = p := by
  cases e with
  | call op => exact absurd rfl (hn op)
  | turn b =>
    cases hs
    simp only [step, Provider.turn, hc]
  | opened b | closed b | sink b | collect b | drop b =>
    cases hs
    simp [step, opened, closed, sink, collect, result?, drop, phaseOf, hc]
  | listen | arrive | pop | take | elapse => cases hs

lemma kept_calms (calm : ∀ p q, Orderly p → I p → Calm (fun _ => True) p a q → I q ∨ Severs cut a p q)
    (ho : Orderly p) (hi : I p) (hm : Calms (fun _ => True) a p q) :
    I q ∨ ∃ c, a = some c ∧ Over q c fun _ => False := by
  induction hm with
  | refl => exact Or.inl hi
  | tail hs hm ih =>
    rcases ih with h | ⟨c, ha, hover⟩
    · refine (calm _ _ (ho.calms hs) h hm).imp_right fun ⟨c, ph, ha, hp, _, hgone⟩ =>
        ⟨c, ha, ?_, fun y hy => ?_⟩
      · obtain ⟨ns, f⟩ := entries_frame (calm_entries hm)
        exact Nat.lt_of_lt_of_le ((ho.calms hs).ledger.known c (isSome_of_phase hp)) f.nextCall
      · rw [hgone] at hy
        cases hy
    · exact Or.inr ⟨c, ha, hover.calm hm⟩

section Steps

variable (calm : ∀ m q, Orderly m → I m → Calm (fun _ => True) m (p.subject e) q →
    I q ∨ Severs cut (p.subject e) m q)
  (upheaval : ∀ m q, Orderly m → I m → Upheaval m q → I q)

include calm upheaval

lemma kept_stay (ho : Orderly p) (hi : I p)
    (hc : ∀ c, p.subject e = some c → ((p.step e).calls.get? c).isSome) : I (p.step e) := by
  have stays : ∀ c, p.subject e = some c → ¬ Over (p.step e) c fun _ => False := fun c hs hover => by
    obtain ⟨call, hcall⟩ := Option.isSome_iff_exists.mp (hc c hs)
    obtain ⟨r, -, hr⟩ := hover.done call.phase (phaseOf_of_call hcall)
    exact hr
  obtain ⟨m, hm, he | ⟨-, hu, -⟩⟩ := step_moves (F := fun _ => True) p e fun _ _ => trivial
  · rcases kept_calms calm ho hi hm with hr | ⟨c, hs, hover⟩
    · exact he ▸ hr
    · exact absurd (he ▸ hover) (stays c hs)
  · rcases kept_calms calm ho hi hm with hr | ⟨c, hs, hover⟩
    · exact upheaval _ _ (ho.calms hm) hr hu
    · exact absurd (hover.upheaval hu) (stays c hs)

lemma kept_step (hd : ∀ r, cut (.done r) = false) (ho : Orderly p) (hi : I p)
    (hc : ∀ c, e = .drop c → p.inside cut c = false) : I (p.step e) := by
  have goes : ∀ {b ph}, p.subject e = some b → Calm (fun _ => True) p (p.subject e) (p.step e) →
      p.phaseOf b = some ph → cut ph = false → I (p.step e) := fun hb hm hp hcut => by
    refine (calm _ _ ho hi hm).resolve_right fun ⟨c, y, hc, hy, hl, _⟩ => ?_
    cases hb.symm.trans hc
    cases hp.symm.trans hy
    exact absurd hl (Bool.eq_false_iff.mp hcut)
  have stays : (∀ op, e ≠ .call op) → (∀ c, e ≠ .drop c) → (∀ c, e ≠ .collect c) → I (p.step e) :=
    fun hnew hdrop htake => by
      by_cases hn : ∃ c, p.subject e = some c ∧ p.calls.get? c = none
      · obtain ⟨c, hs, hn⟩ := hn
        exact (step_unknown hs hnew hn).symm ▸ hi
      · refine kept_stay calm upheaval ho hi fun c hs => known_step ?_ (hdrop c) (htake c)
        exact Option.isSome_iff_ne_none.mpr fun h => hn ⟨c, hs, h⟩
  cases e with
  | call op =>
    refine kept_stay calm upheaval ho hi fun c hs => ?_
    cases hs
    exact Option.isSome_of_eq_some (get?_newCall p op)
  | turn | opened | closed | sink | listen | arrive | pop | take | elapse => exact stays nofun nofun nofun
  | drop b =>
    cases hp : p.phaseOf b with
    | none => exact (step_unknown (e := .drop b) rfl nofun (Option.map_eq_none_iff.mp hp)).symm ▸ hi
    | some ph =>
      have hn := hc b rfl
      rw [inside, hp] at hn
      exact goes rfl (.drop hp) hp hn
  | collect b =>
    cases hr : p.result? b with
    | none =>
      simp only [step, collect, hr]
      exact hi
    | some r =>
      have hp := phaseOf_of_result hr
      refine goes rfl ?_ hp (hd r)
      simp only [step, collect, hr]
      exact .collect hp

end Steps

theorem invariant_of_spared
    (calm : ∀ p a q, Orderly p → I p → Calm (fun _ => True) p a q → I q ∨ Severs cut a p q)
    (upheaval : ∀ p q, Orderly p → I p → Upheaval p q → I q) (hd : ∀ r, cut (.done r) = false) (ho : Orderly p)
    (hi : I p) (hc : p.Spares cut es) : I (p.steps es) := by
  induction es generalizing p with
  | nil => exact hi
  | cons e es ih =>
    exact ih (ho.steps [e]) (kept_step (fun m q => calm m _ q) upheaval hd ho hi hc.1) hc.2

end SocketRpc.Provider
