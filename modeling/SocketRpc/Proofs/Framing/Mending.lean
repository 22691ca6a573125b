import SocketRpc.Proofs.Framing.Messages
import SocketRpc.Proofs.Number.Rounding

/-! What is malformed for good, and the one thing that a continuation can still mend. -/

namespace SocketRpc

namespace Json

variable {room : Nat} {stack : List Frame} {negative : Bool} {n x : Nat} {e e' : Int}

namespace NumberScan

def shrinks : NumberScan → Bool
  | exponent _ _ false _ => false
  | _ => true

lemma assemble_error {f : Flaw} (h : assemble n e = .error f) : f = .numberRange := by
  unfold assemble at h
  extract_lets x y k z at h
  split at h
  · split at h <;> cases h
    rfl
  · split at h
    · split at h <;> cases h
      rfl
    · split at h <;> cases h

lemma assemble_error_iff : assemble n e = .error .numberRange ↔
    308 < e ∧ (Binary64.ofNat n).isZero = false ∨
      (0 ≤ e ∧ e ≤ 308) ∧ (Binary64.ofNat n * powerOfTen e.toNat).isInfinite = true := by
  simp only [assemble]
  by_cases hg : 308 < e
  · rw [if_pos hg]
    cases (Binary64.ofNat n).isZero <;> simp [hg]
  · rw [if_neg hg]
    by_cases he : 0 ≤ e
    · rw [if_pos he]
      cases (Binary64.ofNat n * powerOfTen e.toNat).isInfinite <;> simp [hg, he, not_lt.mp hg]
    · rw [if_neg he]
      split <;> simp [hg, he]

lemma isZero_of_isInfinite {f : Binary64} (h : (f * Binary64.ofNat n).isInfinite = true) :
    f.isZero = false := by
  cases f with
  | finite s u =>
    have hu : u ≠ 0 := by
      rintro rfl
      simp [Binary64.zero_mul_isInfinite] at h
    simpa [Binary64.isZero] using hu
  | _ => rfl

lemma ne_zero_of_assemble (h : assemble n e = .error .numberRange) : n ≠ 0 := by
  rintro rfl
  have hz : (Binary64.ofNat 0).isZero = true := by decide +kernel
  obtain ⟨-, hf⟩ | ⟨-, hi⟩ := assemble_error_iff.mp h
  · simp [hz] at hf
  · simp [isZero_of_isInfinite hi] at hz

lemma assemble_mono (he : e ≤ e') (h : assemble n e = .error .numberRange) :
    assemble n e' = .error .numberRange := by
  rw [assemble_error_iff] at h ⊢
  obtain ⟨hg, hz⟩ | ⟨⟨h0, -⟩, hi⟩ := h
  · exact Or.inl ⟨by omega, hz⟩
  · by_cases hg : 308 < e'
    · exact Or.inl ⟨hg, isZero_of_isInfinite hi⟩
    · have hp : Nat.pow 10 e.toNat ≤ Nat.pow 10 e'.toNat :=
        Nat.pow_le_pow_right (by decide) (by omega)
      exact Or.inr ⟨by omega, Binary64.mul_ofNat_isInfinite _ hp hi⟩

lemma ofParts_error {f : Flaw} : ofParts negative n e = .error f ↔ assemble n e = .error f := by
  rw [ofParts]
  cases assemble n e <;> simp [Except.map]

lemma result_complete {s : NumberScan} {f : Flaw} (hc : s.isComplete = true)
    (h : s.result negative = .error f) : f = .numberRange := by
  cases s with
  | sign | point n e | mark n e | markSign n e small => cases hc
  | zero | whole n | vanished => cases h
  | long n k | fraction n e | longFraction n e | exponent n e small x =>
    exact assemble_error (ofParts_error.mp h)

lemma result_exponent {f : Flaw} :
    (exponent n e false x).result negative = .error f ↔ assemble n (e + x) = .error f := by
  simp [result, ofParts_error]

end NumberScan

namespace Reader

open NumberScan

lemma run_too_large (h : assemble n (e + x) = .error .numberRange) (cs : Bytes) :
    ∃ f, run room ⟨.number negative (.exponent n e false x), stack⟩ cs = .error f := by
  induction cs generalizing x with
  | nil => exact ⟨.numberRange, by simp [run, finish, isComplete, result_exponent.mpr h, Except.map]⟩
  | cons b rest ih =>
    have hs : step room ⟨.number negative (.exponent n e false x), stack⟩ b = .fail .numberRange ∨
        ∃ y, x ≤ y ∧ step room ⟨.number negative (.exponent n e false x), stack⟩ b =
          .more ⟨.number negative (.exponent n e false y), stack⟩ := by
      simp only [step, NumberScan.step]
      by_cases hd : isDigit b = true
      · by_cases hl : exponentLimit < x * 10 + digitOf b
        · simp [hd, hl, ne_zero_of_assemble h]
        · exact Or.inr ⟨x * 10 + digitOf b, by omega, by simp [hd, hl]⟩
      · simp [hd, result_exponent.mpr h]
    obtain hs | ⟨y, hy, hs⟩ := hs
    · exact ⟨_, by rw [run, hs]⟩
    · simp only [run, hs]
      exact ih (assemble_mono (by omega) h)

lemma scan_nines (k : Nat) (h : exponentLimit + 1 < 10 ^ (k + 1) * (x + 1)) :
    scan room ⟨.number negative (.exponent n e true x), stack⟩ (List.replicate (k + 1) 57) =
      .more ⟨.number negative .vanished, stack⟩ := by
  have hv : ∀ k, scan room ⟨.number negative .vanished, stack⟩ (List.replicate k 57) =
      .more ⟨.number negative .vanished, stack⟩ := by
    intro k
    induction k with
    | zero => rfl
    | succ k ih => exact ih
  have hd : isDigit 57 = true := rfl
  have h9 : digitOf 57 = 9 := rfl
  induction k generalizing x with
  | zero =>
    have hl : exponentLimit < x * 10 + 9 := by omega
    simp [scan, step, NumberScan.step, hd, h9, hl]
  | succ k ih =>
    rw [List.replicate_succ, scan]
    by_cases hl : exponentLimit < x * 10 + 9
    · simpa [step, NumberScan.step, hd, h9, hl] using hv (k + 1)
    · have hx : exponentLimit + 1 < 10 ^ (k + 1) * (x * 10 + 9 + 1) := by
        rw [Nat.pow_succ] at h
        calc exponentLimit + 1 < 10 ^ (k + 1) * 10 * (x + 1) := h
          _ = 10 ^ (k + 1) * (x * 10 + 9 + 1) := by rw [Nat.mul_assoc]; congr 1; omega
      simpa [step, NumberScan.step, hd, h9, hl] using ih hx

def closer : Frame → UInt8
  | .array _ => 93
  | .object _ _ => 125

lemma scan_closers {v : Value} {r : Reader} (h : deliver v stack = .more r) :
    ∃ w, scan room r (stack.map closer) = .done w [] := by
  induction stack generalizing v r with
  | nil => cases h
  | cons frame stack ih =>
    have hs : ∃ w, step room r (closer frame) = deliver w stack := by
      cases frame <;>
      · cases h
        exact ⟨_, rfl⟩
    obtain ⟨w, hs⟩ := hs
    rw [List.map_cons, scan, hs]
    cases stack with
    | nil => exact ⟨w, rfl⟩
    | cons frame stack =>
      have hw : ∃ r, deliver w (frame :: stack) = .more r := by cases frame <;> exact ⟨_, rfl⟩
      obtain ⟨r, hw⟩ := hw
      rw [hw]
      exact ih hw

lemma endOf_isEnd (stack : List Frame) : (endOf stack).isEnd = true := by
  cases stack with
  | nil => rfl
  | cons frame stack => cases frame <;> rfl

lemma finish_error {r : Reader} {f : Flaw} (h : r.finish = .error f) (he : f.isEnd = false) :
    ∃ negative s, r.mode = .number negative s ∧ s.result negative = .error .numberRange := by
  obtain ⟨mode, stack⟩ := r
  have hs := endOf_isEnd stack
  cases mode with
  | number negative s =>
    refine ⟨negative, s, rfl, ?_⟩
    simp only [finish] at h
    cases hc : s.isComplete with
    | false => grind [Flaw.isEnd]
    | true =>
      cases hr : s.result negative with
      | error g => rw [result_complete hc hr]
      | ok n => grind
  | _ => grind [finish, Flaw.isEnd]

lemma run_vanished (stack : List Frame) :
    ∃ v, run room ⟨.number negative .vanished, stack⟩ (stack.map closer) = .ok (v, []) := by
  cases stack with
  | nil => exact ⟨_, rfl⟩
  | cons frame stack =>
    have hr : ∃ r v, deliver v (frame :: stack) = .more r ∧
        step room ⟨.number negative .vanished, frame :: stack⟩ (closer frame) =
          step room r (closer frame) := by
      cases frame <;> exact ⟨_, _, rfl, rfl⟩
    obtain ⟨r, v, hv, hs⟩ := hr
    obtain ⟨w, hw⟩ : ∃ w, scan room r ((frame :: stack).map closer) = .done w [] := scan_closers hv
    rw [List.map_cons, scan] at hw
    rw [run_eq_scan, List.map_cons, scan, hs, hw]
    exact ⟨w, rfl⟩

lemma scan_shrinks {s : NumberScan} (hr : s.result negative = .error .numberRange)
    (hs : s.shrinks = true) :
    ∃ bs, scan room ⟨.number negative s, stack⟩ bs = .more ⟨.number negative .vanished, stack⟩ := by
  have hl : ∀ x, exponentLimit + 1 < 10 ^ (9 + 1) * (x + 1) := fun x => by
    rw [exponentLimit]
    omega
  have hm : ∀ {t n e}, NumberScan.step t 101 = .more (.mark n e) →
      scan room ⟨.number negative t, stack⟩ (101 :: 45 :: 57 :: List.replicate 10 57) =
        .more ⟨.number negative .vanished, stack⟩ := by
    intro t n e ht
    have ht : step room ⟨.number negative t, stack⟩ 101 = .more ⟨.number negative (.mark n e), stack⟩ := by
      simp only [step, ht]
    rw [scan, ht]
    exact scan_nines 9 (hl 9)
  cases s with
  | long n k => exact ⟨_, hm rfl⟩
  | fraction n e => exact ⟨_, hm rfl⟩
  | longFraction n e => exact ⟨_, hm rfl⟩
  | exponent n e small x =>
    cases small with
    | true => exact ⟨_, scan_nines 9 (hl x)⟩
    | false => cases hs
  | _ => cases hr

end Reader

end Json

namespace Framer

open Json (Value readValue)
open Json.Reader (scan run run_eq_scan run_append maxDepth)

variable {f g : Framer} {m : Malformed}

/-- What has come of the message is a number too large, whose exponent may still make it smaller. -/
def Overlong (f : Framer) : Prop :=
  ∃ negative s stack, scan maxDepth {} (skipGap f.pending) = .more ⟨.number negative s, stack⟩ ∧
    s.result negative = .error .numberRange ∧ s.shrinks = true

lemma next_error_cases (h : f.next = (.error m, g)) : ∃ b rest, skipGap f.pending = b :: rest ∧
    ((∃ v left, scan maxDepth {} (b :: rest) = .done v left ∧ isDelimited b = false ∧
        mayFollow left = false) ∨
      (∃ e, scan maxDepth {} (b :: rest) = .fail e) ∨
      ∃ r e, scan maxDepth {} (b :: rest) = .more r ∧ r.finish = .error e ∧ e.isEnd = false) := by
  rw [next] at h
  split at h
  · cases h
  · rename_i b rest hs
    refine ⟨b, rest, hs, ?_⟩
    rw [readValue, run_eq_scan] at h
    cases hc : scan maxDepth {} (b :: rest) with
    | fail e => exact Or.inr (Or.inl ⟨e, rfl⟩)
    | done v left =>
      simp only [hc] at h
      split at h
      · cases h
      · simp_all
    | more r =>
      refine Or.inr (Or.inr ⟨r, ?_⟩)
      cases hf : r.finish with
      | error e =>
        simp only [hc, hf, Except.map] at h
        cases he : e.isEnd
        · exact ⟨e, rfl, rfl, he⟩
        · simp [he] at h
      | ok v => simp [hc, hf, Except.map, mayFollow] at h

lemma next_push_overlong (h : f.Overlong) : ∃ bs v k, (f.push bs).next = (.ok (some v), k) := by
  obtain ⟨negative, s, stack, hm, hr, hs⟩ := h
  obtain ⟨bs, hv⟩ : ∃ bs, scan maxDepth ⟨.number negative s, stack⟩ bs =
      .more ⟨.number negative .vanished, stack⟩ := Json.Reader.scan_shrinks hr hs
  obtain ⟨v, hw⟩ : ∃ v, run maxDepth ⟨.number negative .vanished, stack⟩ (stack.map Json.Reader.closer) =
      .ok (v, []) := Json.Reader.run_vanished stack
  obtain ⟨b, rest, hp⟩ : ∃ b rest, skipGap f.pending = b :: rest := by
    cases hp : skipGap f.pending with
    | nil =>
      rw [hp] at hm
      cases hm
    | cons b rest => exact ⟨b, rest, rfl⟩
  have hr : readValue maxDepth (b :: rest ++ (bs ++ stack.map Json.Reader.closer)) = .ok (v, []) := by
    rw [readValue, ← hp, run_append, hm]
    simp only [run_append, hv, hw]
  refine ⟨bs ++ stack.map Json.Reader.closer, v, ⟨[]⟩, ?_⟩
  rw [next_of_ok (skipGap_push hp _) hr]
  simp [mayFollow]

/-- What is malformed cannot be mended, save a number too large for as long as its exponent may
become smaller. -/
theorem mended_iff_overlong (h : f.next = (.error m, g)) :
    (∃ bs v k, (f.push bs).next = (.ok (some v), k)) ↔ f.Overlong := by
  refine ⟨fun ⟨bs, v, k, hp⟩ => ?_, next_push_overlong⟩
  obtain ⟨b, rest, hs, hc⟩ := next_error_cases h
  have hv : run maxDepth {} (b :: rest ++ bs) = .ok (v, k.pending) := by
    obtain ⟨c, used, hs', hv⟩ := next_some hp
    rwa [← hs', skipGap_push hs] at hv
  rw [run_append] at hv
  obtain ⟨w, left, hw, hd, hf⟩ | ⟨e, he⟩ | ⟨⟨mode, stack⟩, e, hr, hf, he⟩ := hc
  · have hl : mayFollow (left ++ bs) = false := by
      cases left with
      | nil => cases hf
      | cons c left => exact hf
    have hr : readValue maxDepth (b :: rest ++ bs) = .ok (w, left ++ bs) := by
      rw [readValue, run_append, hw]
    rw [next_of_ok (skipGap_push hs bs) hr] at hp
    simp [hd, hl] at hp
  · simp [he] at hv
  · obtain ⟨negative, s, rfl, hn⟩ := Json.Reader.finish_error hf he
    refine ⟨negative, s, stack, by rw [hs, hr], hn, ?_⟩
    by_contra hx
    cases s with
    | exponent n e small x =>
      cases small with
      | true => exact hx rfl
      | false =>
        obtain ⟨y, hy⟩ : ∃ y, run maxDepth ⟨.number negative (.exponent n e false x), stack⟩ bs = .error y :=
          Json.Reader.run_too_large (Json.NumberScan.result_exponent.mp hn) bs
        simp [hr, hy] at hv
    | _ => exact hx rfl

/-- The front of an array whose only number has 310 digits so far. -/
def farOut : Framer := ⟨91 :: 49 :: List.replicate 309 48⟩

theorem mended_iff_overlong_farOut :
    farOut.next = (.error ⟨0, .numberRange⟩, farOut) ∧
      ((∃ bs v k, (farOut.push bs).next = (.ok (some v), k)) ↔ farOut.Overlong) := by
  have h : farOut.next = (.error ⟨0, .numberRange⟩, farOut) := by decide +kernel
  exact ⟨h, mended_iff_overlong h⟩

/-- The digits are as good as lost when the exponent comes that makes a billion of them. -/
theorem farOut_mended :
    farOut.next = (.error ⟨0, .numberRange⟩, farOut) ∧
      (farOut.push (Utf8.ofText "e-300]")).next =
        (.ok (some (.array [.number (.real (.ofNat 1000000000))])), {}) := by
  decide +kernel

end Framer

end SocketRpc
