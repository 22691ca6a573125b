import SocketRpc.Number.Binary64
import Mathlib.Tactic.Lemma
import Mathlib.Algebra.Order.Ring.Nat
import Mathlib.Data.Nat.Log

/-! Rounding keeps the order, so what overflows still does when it grows. -/

namespace SocketRpc

variable {m n den : Nat}

lemma roundDiv_mono (h : m ≤ n) (den : Nat) : roundDiv m den ≤ roundDiv n den := by
  have hq : m / den ≤ n / den := Nat.div_le_div_right h
  obtain hlt | heq := hq.lt_or_eq
  · -- the quotients differ, and one is all that rounding can add
    calc roundDiv m den ≤ m / den + 1 := by grind [roundDiv]
      _ ≤ n / den := hlt
      _ ≤ roundDiv n den := by grind [roundDiv]
  · have hr : m % den ≤ n % den := by
      have hm := Nat.div_add_mod m den
      have hn := Nat.div_add_mod n den
      rw [heq] at hm
      omega
    simp only [roundDiv, heq]
    grind

lemma roundDiv_le (hd : 0 < den) (h : m ≤ n * den) : roundDiv m den ≤ n :=
  (roundDiv_mono h den).trans_eq (roundDiv_mul n hd)

lemma le_roundDiv (hd : 0 < den) (h : m * den ≤ n) : m ≤ roundDiv n den :=
  (roundDiv_mul m hd).symm.trans_le (roundDiv_mono h den)

namespace Binary64

lemma excess_mono (h : m ≤ n) : excess m ≤ excess n := by
  have := Nat.log_mono_right (b := 2) h
  rw [excess, excess, Nat.log2_eq_log_two, Nat.log2_eq_log_two]
  omega

lemma lt_excess (n : Nat) : n < 2 ^ (53 + excess n) := by
  obtain rfl | hn := Nat.eq_zero_or_pos n
  · exact Nat.two_pow_pos _
  · apply (Nat.log2_lt hn.ne').mp
    rw [excess]
    omega

lemma excess_le (h : 0 < excess n) : 2 ^ (52 + excess n) ≤ n := by
  have hn : n ≠ 0 := by
    rintro rfl
    simp [excess] at h
  apply (Nat.le_log2 hn).mp
  rw [excess] at h ⊢
  omega

lemma shiftLeft_pos (hd : 0 < den) (k : Nat) : 0 < den <<< k := by
  rw [Nat.shiftLeft_eq]
  exact Nat.mul_pos hd (Nat.two_pow_pos k)

lemma roundUnits_le (m : Nat) (hd : 0 < den) : roundUnits m den ≤ 2 ^ (53 + excess (m / den)) := by
  have hm : m ≤ 2 ^ 53 * (den <<< excess (m / den)) := by
    have := (Nat.div_lt_iff_lt_mul hd).mp (lt_excess (m / den))
    rw [Nat.shiftLeft_eq]
    calc m ≤ 2 ^ (53 + excess (m / den)) * den := this.le
      _ = 2 ^ 53 * (den * 2 ^ excess (m / den)) := by rw [Nat.pow_add]; ac_rfl
  have hs := shiftLeft_pos hd (excess (m / den))
  rw [roundUnits, Nat.shiftLeft_eq _ (excess (m / den)), Nat.pow_add]
  exact Nat.mul_le_mul_right _ (roundDiv_le hs hm)

lemma le_roundUnits (hd : 0 < den) (h : 0 < excess (n / den)) :
    2 ^ (52 + excess (n / den)) ≤ roundUnits n den := by
  have hn : 2 ^ 52 * (den <<< excess (n / den)) ≤ n := by
    have := (Nat.le_div_iff_mul_le hd).mp (excess_le h)
    rw [Nat.shiftLeft_eq]
    calc 2 ^ 52 * (den * 2 ^ excess (n / den)) = 2 ^ (52 + excess (n / den)) * den := by
          rw [Nat.pow_add]; ac_rfl
      _ ≤ n := this
  have hs := shiftLeft_pos hd (excess (n / den))
  rw [roundUnits, Nat.shiftLeft_eq _ (excess (n / den)), Nat.pow_add]
  exact Nat.mul_le_mul_right _ (le_roundDiv hs hn)

lemma roundUnits_mono (hd : 0 < den) (h : m ≤ n) : roundUnits m den ≤ roundUnits n den := by
  have hx := excess_mono (Nat.div_le_div_right (c := den) h)
  obtain hlt | heq := hx.lt_or_eq
  · -- a power of two stands between numbers with units of different size
    calc roundUnits m den ≤ 2 ^ (53 + excess (m / den)) := roundUnits_le m hd
      _ ≤ 2 ^ (52 + excess (n / den)) := Nat.pow_le_pow_right Nat.two_pos (by omega)
      _ ≤ roundUnits n den := le_roundUnits hd (by omega)
  · simp only [roundUnits, heq, Nat.shiftLeft_eq]
    exact Nat.mul_le_mul_right _ (roundDiv_mono h _)

lemma ofQuotient_isInfinite {s : Bool} :
    (ofQuotient s m den).isInfinite = true ↔ limit ≤ roundUnits m den := by
  rw [ofQuotient]
  split
  · simp [isInfinite, *]
  · simp [isInfinite, not_lt.mp, *]

lemma one_pos : 0 < one := by decide

lemma finite_mul_finite (s t : Bool) (u v : Nat) :
    finite s u * finite t v = ofQuotient (s != t) (u * v) one := by
  change mul _ _ = _
  rw [mul]

lemma finite_mul_infinite (s t : Bool) (u : Nat) :
    finite s u * infinite t = if u = 0 then nan else infinite (t != s) := rfl

lemma infinite_mul_finite (s t : Bool) (u : Nat) :
    infinite s * finite t u = if u = 0 then nan else infinite (s != t) := rfl

lemma nan_mul (f : Binary64) : nan * f = nan := rfl

lemma ofNat_le (h : m ≤ n) :
    ofNat n = infinite false ∨ ∃ u v, u ≤ v ∧ ofNat m = finite false u ∧ ofNat n = finite false v := by
  have hu : roundUnits (m * one) 1 ≤ roundUnits (n * one) 1 :=
    roundUnits_mono Nat.one_pos (Nat.mul_le_mul_right one h)
  by_cases hn : roundUnits (n * one) 1 < limit
  · refine Or.inr ⟨_, _, hu, ?_, ?_⟩
    · rw [ofNat, ofQuotient, if_pos (hu.trans_lt hn)]
    · rw [ofNat, ofQuotient, if_pos hn]
  · rw [ofNat, ofQuotient, if_neg hn]
    exact Or.inl rfl

lemma zero_mul_isInfinite (s : Bool) (n : Nat) : (finite s 0 * ofNat n).isInfinite = false := by
  obtain hn | ⟨u, -, -, hn, -⟩ := ofNat_le (le_refl n)
  · rw [hn, finite_mul_infinite, if_pos rfl]
    rfl
  · rw [hn, finite_mul_finite, Nat.zero_mul]
    exact Bool.eq_false_iff.mpr fun hi => absurd (ofQuotient_isInfinite.mp hi) (by decide +kernel)

lemma mul_ofNat_isInfinite (f : Binary64) (h : m ≤ n) (hi : (f * ofNat m).isInfinite = true) :
    (f * ofNat n).isInfinite = true := by
  cases f with
  | nan =>
    rw [nan_mul] at hi
    cases hi
  | infinite s =>
    obtain hn | ⟨u, v, huv, hm, hn⟩ := ofNat_le h
    · rw [hn]
      rfl
    · rw [hm, infinite_mul_finite] at hi
      rw [hn, infinite_mul_finite]
      have hu : u ≠ 0 := by
        rintro rfl
        cases hi
      rw [if_neg (by omega)]
      rfl
  | finite s w =>
    obtain hn | ⟨u, v, huv, hm, hn⟩ := ofNat_le h
    · have hw : w ≠ 0 := by
        rintro rfl
        rw [zero_mul_isInfinite] at hi
        cases hi
      rw [hn, finite_mul_infinite, if_neg hw]
      rfl
    · rw [hm, finite_mul_finite, ofQuotient_isInfinite] at hi
      rw [hn, finite_mul_finite, ofQuotient_isInfinite]
      exact hi.trans (roundUnits_mono one_pos (Nat.mul_le_mul_left w huv))

end Binary64

end SocketRpc
