import SocketRpc.Text.Utf8
import Mathlib.Tactic.Lemma

namespace SocketRpc.Utf8

lemma toNat_octet {n : Nat} (h : n < 256) : n.toUInt8.toNat = n := by
  simp [Nat.toUInt8, Nat.mod_eq_of_lt h]

lemma octet_lt {n : Nat} (h : n < 256) (b : UInt8) : n.toUInt8 < b ↔ n < b.toNat := by
  rw [UInt8.lt_iff_toNat_lt, toNat_octet h]

lemma le_octet {n : Nat} (h : n < 256) (b : UInt8) : b ≤ n.toUInt8 ↔ b.toNat ≤ n := by
  rw [UInt8.le_iff_toNat_le, toNat_octet h]

lemma isTail_octet (n : Nat) : isTail (0x80 + n % 64).toUInt8 = true := by
  have h : 0x80 + n % 64 < 256 := by omega
  simp only [isTail, le_octet h, octet_lt h, Bool.and_eq_true, decide_eq_true_eq]
  show 0x80 ≤ _ ∧ _ < 0xC0
  omega

lemma tail_octet (n : Nat) : tail (0x80 + n % 64).toUInt8 = n % 64 := by
  rw [tail, toNat_octet (by omega)]
  omega

variable {a b c d : UInt8} {n : Nat} {bs : Bytes}

lemma decode?_one (ha : a < 0x80) : decode? (a :: bs) = (decode? bs).map (Char.ofNat a.toNat :: ·) := by
  rw [decode?.eq_def]
  simp only [ha, if_true]

lemma decode?_two (ha : ¬ a < 0x80) (hb : isTail b) (h : (0xC2 ≤ a && a < 0xE0) = true)
    (hn : a.toNat % 32 * 64 + tail b = n) :
    decode? (a :: b :: bs) = (decode? bs).map (Char.ofNat n :: ·) := by
  rw [decode?.eq_def]
  simp only [ha, hb, h, hn, if_true, if_false, Bool.not_true, Bool.false_eq_true]

lemma decode?_three (ha : ¬ a < 0x80) (hb : isTail b) (hc : isTail c) (h2 : (0xC2 ≤ a && a < 0xE0) = false)
    (h : (0xE0 ≤ a && a < 0xF0) = true) (hn : a.toNat % 16 * 4096 + tail b * 64 + tail c = n)
    (hr : (n < 0x800 || (0xD800 ≤ n && n < 0xE000 : Bool)) = false) :
    decode? (a :: b :: c :: bs) = (decode? bs).map (Char.ofNat n :: ·) := by
  rw [decode?.eq_def]
  simp only [ha, hb, hc, h2, h, hn, hr, if_true, if_false, Bool.not_true, Bool.false_eq_true]

lemma decode?_four (ha : ¬ a < 0x80) (hb : isTail b) (hc : isTail c) (hd : isTail d)
    (h2 : (0xC2 ≤ a && a < 0xE0) = false) (h3 : (0xE0 ≤ a && a < 0xF0) = false)
    (h : (0xF0 ≤ a && a < 0xF5) = true)
    (hn : a.toNat % 8 * 262144 + tail b * 4096 + tail c * 64 + tail d = n)
    (hr : (n < 0x10000 || 0x110000 ≤ n : Bool) = false) :
    decode? (a :: b :: c :: d :: bs) = (decode? bs).map (Char.ofNat n :: ·) := by
  rw [decode?.eq_def]
  simp only [ha, hb, hc, hd, h2, h3, h, hn, hr, if_true, if_false, Bool.not_true, Bool.false_eq_true]

lemma between_octet (h : n < 256) (low high : UInt8) :
    (low ≤ n.toUInt8 && n.toUInt8 < high) = (low.toNat ≤ n && n < high.toNat : Bool) := by
  simp only [le_octet h, octet_lt h]

lemma decode?_encodeChar (c : Char) (bs : Bytes) : decode? (encodeChar c ++ bs) = (decode? bs).map (c :: ·) := by
  have hv : c.toNat < 0xD800 ∨ 0xDFFF < c.toNat ∧ c.toNat < 0x110000 := c.valid
  have hc : Char.ofNat c.toNat = c := Char.ofNat_toNat c
  rw [encodeChar]
  generalize c.toNat = n at hv hc
  subst hc
  have small : ∀ {m : Nat}, m < 256 → ¬ m < 0x80 → ¬ m.toUInt8 < 0x80 := fun hm h hl =>
    h ((octet_lt hm _).mp hl)
  split
  · rename_i h
    have hb : n < 256 := by omega
    rw [List.cons_append, decode?_one ((octet_lt hb _).mpr h), toNat_octet hb]
    rfl
  split
  · have hb : 0xC0 + n / 64 < 256 := by omega
    refine decode?_two (small hb (by omega)) (isTail_octet n) ?_ ?_
    · rw [between_octet hb]
      show (0xC2 ≤ _ && _ < 0xE0 : Bool) = true
      simp; omega
    · rw [toNat_octet hb, tail_octet]
      omega
  split
  · have hb : 0xE0 + n / 4096 < 256 := by omega
    refine decode?_three (small hb (by omega)) (isTail_octet _) (isTail_octet n) ?_ ?_ ?_ ?_
    · rw [between_octet hb]
      show (0xC2 ≤ _ && _ < 0xE0 : Bool) = false
      simp
    · rw [between_octet hb]
      show (0xE0 ≤ _ && _ < 0xF0 : Bool) = true
      simp; omega
    · rw [toNat_octet hb, tail_octet, tail_octet]
      omega
    · simp; omega
  · have hb : 0xF0 + n / 262144 < 256 := by omega
    refine decode?_four (small hb (by omega)) (isTail_octet _) (isTail_octet _) (isTail_octet n) ?_ ?_ ?_ ?_ ?_
    · rw [between_octet hb]
      show (0xC2 ≤ _ && _ < 0xE0 : Bool) = false
      simp; omega
    · rw [between_octet hb]
      show (0xE0 ≤ _ && _ < 0xF0 : Bool) = false
      simp
    · rw [between_octet hb]
      show (0xF0 ≤ _ && _ < 0xF5 : Bool) = true
      simp; omega
    · rw [toNat_octet hb, tail_octet, tail_octet, tail_octet]
      omega
    · simp; omega

lemma mem_encodeChar {x : Char} (h : b ∈ encodeChar x) : b.toNat = x.toNat ∨ 0x80 ≤ b.toNat := by
  have hv : x.toNat < 0xD800 ∨ 0xDFFF < x.toNat ∧ x.toNat < 0x110000 := x.valid
  have large : ∀ {m : Nat}, 0x80 ≤ m → m < 256 → b = m.toUInt8 → 0x80 ≤ b.toNat := fun hl hm he => by
    rwa [he, toNat_octet hm]
  rw [encodeChar] at h
  split at h
  · rw [List.mem_singleton.mp h]
    exact Or.inl (toNat_octet (by omega))
  · right
    split at h
    · simp only [List.mem_cons, List.not_mem_nil, or_false] at h
      rcases h with h | h <;> exact large (by omega) (by omega) h
    · split at h
      · simp only [List.mem_cons, List.not_mem_nil, or_false] at h
        rcases h with h | h | h <;> exact large (by omega) (by omega) h
      · simp only [List.mem_cons, List.not_mem_nil, or_false] at h
        rcases h with h | h | h | h <;> exact large (by omega) (by omega) h

theorem decode?_encode (cs : List Char) : decode? (encode cs) = some cs := by
  induction cs with
  | nil => rfl
  | cons c cs ih =>
    rw [encode, List.flatMap_cons, decode?_encodeChar, ← encode, ih]
    rfl

@[simp] lemma encode_append (as bs : List Char) : encode (as ++ bs) = encode as ++ encode bs :=
  List.flatMap_append

end SocketRpc.Utf8
