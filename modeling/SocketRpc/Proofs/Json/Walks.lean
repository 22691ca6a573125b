import SocketRpc.Json.Printer
import SocketRpc.Proofs.Json.Scan
import SocketRpc.Proofs.Text.Utf8

namespace SocketRpc.Json

namespace Reader

variable {room : Nat} {r s t : Reader} {b : UInt8} {bs cs : Bytes} {stack : List Frame}

def Open (r : Reader) : Prop := ∃ f, r.finish = .error f ∧ f.isEnd = true

inductive Walk (room : Nat) : Reader → Bytes → Reader → Prop where
  | nil (r : Reader) : Walk room r [] r
  | cons {r s t : Reader} {b : UInt8} {bs : Bytes} (ho : r.Open) (hs : r.step room b = .more s)
      (h : Walk room s bs t) : Walk room r (b :: bs) t

lemma Walk.trans (h : Walk room r bs s) (g : Walk room s cs t) : Walk room r (bs ++ cs) t := by
  induction h with
  | nil => exact g
  | cons ho hs _ ih => exact .cons ho hs (ih g)

lemma Walk.single (ho : r.Open) (hs : r.step room b = .more s) : Walk room r [b] s := .cons ho hs (.nil s)

lemma Walk.scan (h : Walk room r bs t) : scan room r bs = .more t := by
  induction h with
  | nil => rfl
  | cons _ hs _ ih =>
    rw [Reader.scan, hs]
    exact ih

lemma Walk.stop (h : Walk room r (bs ++ b :: cs) t) : ∃ s, Reader.scan room r bs = .more s ∧ s.Open := by
  induction bs generalizing r with
  | nil =>
    cases h with
    | cons ho _ _ => exact ⟨r, rfl, ho⟩
  | cons c bs ih =>
    cases h with
    | cons _ hs h =>
      obtain ⟨s, hs', ho⟩ := ih h
      refine ⟨s, ?_, ho⟩
      rw [Reader.scan, hs]
      exact hs'

end Reader

namespace TextScan

def reads (s : TextScan) : Bytes → Option TextScan
  | [] => some s
  | b :: bs =>
    match s.step b with
    | .more t => t.reads bs
    | _ => Option.none

variable {s t u : TextScan} {b : UInt8} {bs cs : Bytes}

lemma reads_append (h : s.reads bs = some t) : s.reads (bs ++ cs) = t.reads cs := by
  induction bs generalizing s with
  | nil =>
    cases h
    rfl
  | cons b bs ih =>
    rw [List.cons_append, reads]
    rw [reads] at h
    split at h
    · rename_i u hu
      rw [ih h]
    · cases h

lemma reads_plain (rev : Bytes) (h : ∀ b ∈ bs, ¬ b < 32 ∧ b ≠ 34 ∧ b ≠ 92) :
    reads { rev } bs = some { rev := bs.reverse ++ rev } := by
  induction bs generalizing rev with
  | nil => rfl
  | cons b bs ih =>
    obtain ⟨h1, h2, h3⟩ := h b List.mem_cons_self
    have hs : step { rev } b = .more { rev := b :: rev } := by
      simp only [step, h1, h2, h3, if_false, push]
    rw [reads, hs]
    dsimp only
    rw [ih _ fun c hc => h c (List.mem_cons_of_mem b hc)]
    simp

lemma encodeChar_hexDigit : ∀ n < 16, Utf8.encodeChar (hexDigit n) = [(hexDigit n).toNat.toUInt8] ∧
    hexValue? (hexDigit n).toNat.toUInt8 = some n := by
  decide

lemma reads_hex {n : Nat} (hn : n < 32) (rev : Bytes) :
    reads { rev } (Utf8.encode ['\\', 'u', '0', '0', hexDigit (n / 16), hexDigit (n % 16)]) =
      some { rev := (Utf8.encodeChar (Char.ofNat n)).reverse ++ rev } := by
  obtain ⟨e1, h1⟩ := encodeChar_hexDigit (n / 16) (by omega)
  obtain ⟨e2, h2⟩ := encodeChar_hexDigit (n % 16) (by omega)
  have hs : hexNumber? [(hexDigit (n % 16)).toNat.toUInt8, (hexDigit (n / 16)).toNat.toUInt8, 48, 48] =
      some n := by
    have hd : n / 16 * 16 + n % 16 = n := by omega
    simp [hexNumber?, h1, h2, show hexValue? 48 = some 0 from rfl, hd]
  have ht : isTrailing n = false := by simp [isTrailing]; omega
  have hl : isLeading n = false := by simp [isLeading]; omega
  have he : Utf8.encode ['\\', 'u', '0', '0', hexDigit (n / 16), hexDigit (n % 16)] =
      [92, 117, 48, 48, (hexDigit (n / 16)).toNat.toUInt8, (hexDigit (n % 16)).toNat.toUInt8] := by
    simp only [Utf8.encode, List.flatMap_cons, e1, e2]
    rfl
  rw [he]
  simp [reads, step, hs, unescape, ht, hl, pushNumber]

lemma reads_escape (c : Char) (rev : Bytes) :
    reads { rev } (Utf8.encode (escapeChar c)) = some { rev := (Utf8.encodeChar c).reverse ++ rev } := by
  have hc : Char.ofNat c.toNat = c := Char.ofNat_toNat c
  rw [escapeChar]
  split
  · subst c; rfl
  split
  · subst c; rfl
  split
  · subst c; rfl
  split
  · subst c; rfl
  split
  · subst c; rfl
  split
  · rename_i h
    rw [← hc, h]
    rfl
  split
  · rename_i h
    rw [← hc, h]
    rfl
  split
  · rename_i h
    rw [reads_hex h, hc]
  · rw [show Utf8.encode [c] = Utf8.encodeChar c from List.append_nil _]
    refine reads_plain rev fun b hb => ?_
    have h34 : c.toNat ≠ 34 := fun h => by
      rw [h] at hc
      exact absurd hc.symm ‹_›
    have h92 : c.toNat ≠ 92 := fun h => by
      rw [h] at hc
      exact absurd hc.symm ‹_›
    have far : ∀ n : UInt8, n.toNat < 128 → c.toNat ≠ n.toNat → b ≠ n := fun n hn hc he => by
      rcases Utf8.mem_encodeChar hb with h | h <;> rw [he] at h <;> omega
    refine ⟨fun hl => ?_, far 34 (by decide) h34, far 92 (by decide) h92⟩
    rw [UInt8.lt_iff_toNat_lt] at hl
    have hl : b.toNat < 32 := hl
    rcases Utf8.mem_encodeChar hb with h | h <;> omega

lemma reads_chars (cs : List Char) (rev : Bytes) :
    reads { rev } (Utf8.encode (cs.flatMap escapeChar)) = some { rev := (Utf8.encode cs).reverse ++ rev } := by
  induction cs generalizing rev with
  | nil => rfl
  | cons c cs ih =>
    rw [List.flatMap_cons, Utf8.encode_append, reads_append (reads_escape c rev), ih]
    simp [Utf8.encode]

lemma reads_text (text : String) : ∃ s : TextScan,
    reads {} (Utf8.encode (text.toList.flatMap escapeChar)) = some s ∧ s.step 34 = .done text := by
  refine ⟨_, reads_chars text.toList [], ?_⟩
  simp [step, Utf8.toText?, Utf8.decode?_encode]

end TextScan

namespace Reader

variable {room : Nat} {s t : TextScan} {bs : Bytes} {stack : List Frame}

lemma walk_scan {g : TextScan → Reader} (ho : ∀ s, (g s).Open)
    (hs : ∀ {s b u}, s.step b = .more u → (g s).step room b = .more (g u)) (h : s.reads bs = some t) :
    Walk room (g s) bs (g t) := by
  induction bs generalizing s with
  | nil =>
    cases h
    exact .nil _
  | cons b bs ih =>
    rw [TextScan.reads] at h
    split at h
    · exact .cons (ho s) (hs ‹_›) (ih h)
    · cases h

lemma walk_text (h : s.reads bs = some t) : Walk room ⟨.text s, stack⟩ bs ⟨.text t, stack⟩ :=
  walk_scan (g := fun s => ⟨.text s, stack⟩) (fun _ => ⟨_, rfl, rfl⟩) (fun hu => by simp only [step, hu]) h

lemma walk_keyText (h : s.reads bs = some t) : Walk room ⟨.keyText s, stack⟩ bs ⟨.keyText t, stack⟩ :=
  walk_scan (g := fun s => ⟨.keyText s, stack⟩) (fun _ => ⟨_, rfl, rfl⟩) (fun hu => by simp only [step, hu]) h

lemma open_sign (negative : Bool) (stack : List Frame) : Open ⟨.number negative .sign, stack⟩ :=
  ⟨_, rfl, rfl⟩

lemma open_number {negative : Bool} {s : NumberScan} {n : Number} (hc : s.isComplete)
    (hr : s.result negative = .ok n) (hs : stack ≠ []) : Open ⟨.number negative s, stack⟩ := by
  refine ⟨endOf stack, by simp [finish, hc, hr, hs], ?_⟩
  cases stack with
  | nil => contradiction
  | cons frame stack => cases frame <;> rfl

lemma open_whole (negative : Bool) (n : Nat) (hs : stack ≠ []) :
    Open ⟨.number negative (.whole n), stack⟩ :=
  open_number rfl rfl hs

lemma digit_octet : ∀ d < 10, Utf8.encodeChar d.digitChar = [(48 + d).toUInt8] ∧
    isDigit (48 + d).toUInt8 = true ∧ digitOf (48 + d).toUInt8 = d ∧ ((48 + d).toUInt8 = 48 → d = 0) := by
  decide

lemma digits_induction {motive : Nat → Bytes → Prop}
    (one : ∀ d, 0 < d → d < 10 → motive d [(48 + d).toUInt8])
    (more : ∀ n d bs, 0 < n → d < 10 → motive n bs → motive (n * 10 + d) (bs ++ [(48 + d).toUInt8]))
    {n : Nat} (h0 : 0 < n) : motive n (Utf8.encode (Nat.toDigits 10 n)) := by
  induction n using Nat.strongRecOn with
  | _ n ih =>
    by_cases hb : n < 10
    · rw [Nat.toDigits_of_lt_base hb, Utf8.encode, List.flatMap_singleton, (digit_octet n hb).1]
      exact one n h0 hb
    · have hd : n % 10 < 10 := Nat.mod_lt n (by decide)
      have hm : n / 10 * 10 + n % 10 = n := by omega
      have front := more (n / 10) (n % 10) _ (by omega) hd (ih (n / 10) (by omega) (by omega))
      rw [Nat.toDigits_of_base_le (by decide) (by omega), Utf8.encode_append, Utf8.encode, Utf8.encode,
        List.flatMap_singleton, (digit_octet _ hd).1]
      rwa [hm] at front

lemma sign_digit {d : Nat} (h0 : 0 < d) (hd : d < 10) :
    NumberScan.sign.step (48 + d).toUInt8 = .more (.whole d) := by
  obtain ⟨-, hi, hv, h48⟩ := digit_octet d hd
  have hz : (48 + d).toUInt8 ≠ 48 := fun h => absurd (h48 h) (Nat.ne_of_gt h0)
  simp only [NumberScan.step, hz, hi, hv, if_false, if_true]

lemma whole_digit {n d : Nat} (hd : d < 10) (hn : n * 10 + d ≤ NumberScan.significandLimit) :
    (NumberScan.whole n).step (48 + d).toUInt8 = .more (.whole (n * 10 + d)) := by
  obtain ⟨-, hi, hv, -⟩ := digit_octet d hd
  simp only [NumberScan.step, hi, hv, if_true, Nat.not_lt.mpr hn, if_false]

lemma walk_digits (negative : Bool) (hs : stack ≠ []) {n : Nat} (h0 : 0 < n)
    (hn : n ≤ NumberScan.significandLimit) :
    Walk room ⟨.number negative .sign, stack⟩ (Utf8.encode (Nat.toDigits 10 n))
      ⟨.number negative (.whole n), stack⟩ := by
  refine digits_induction (motive := fun n bs => n ≤ NumberScan.significandLimit →
    Walk room ⟨.number negative .sign, stack⟩ bs ⟨.number negative (.whole n), stack⟩)
    (fun d h0 hd _ => ?_) (fun n d bs _ hd ih hn => ?_) h0 hn
  · refine .single (open_sign _ _) ?_
    simp only [step, sign_digit h0 hd]
  · refine (ih (by omega)).trans (.single (open_whole _ _ hs) ?_)
    simp only [step, whole_digit hd hn]

end Reader

end SocketRpc.Json
