import SocketRpc.Proofs.Framing.Objects

/-!
Two readers of the same octets, one inside an object and one that takes its place for the beginning
of a message, never come into step.
-/

namespace SocketRpc.Json.Reader

open Place (between inside lost)

variable {r s : Reader} {b : UInt8} {d : Nat} {room : Nat}

def depth (r : Reader) : Nat := r.stack.length

def escape? (r : Reader) : Option EscapeScan :=
  match r.mode with
  | .text s | .keyText s => some s.escape
  | _ => none

def opening (b : UInt8) : Nat := if b = 91 ∨ b = 123 then 1 else 0
def closing (b : UInt8) : Nat := if b = 93 ∨ b = 125 then 1 else 0

def isLetter (b : UInt8) : Bool := 97 ≤ b && b ≤ 122

structure Sound (r : Reader) : Prop where
  letters : ∀ rest v, r.mode = .word rest v → ∀ c ∈ rest, isLetter c = true
  nonempty : r.mode = .firstItem ∨ r.mode = .firstKey → r.stack ≠ []

def Step.Outside (b : UInt8) (d : Nat) : Step → Prop
  | .more s => s.Sound ∧ b ≠ 92 ∧
      (b = 34 ∧ s.escape? = some .none ∧ s.depth = d ∨
        b ≠ 34 ∧ s.escape? = none ∧ s.depth + closing b = d + opening b ∧
          (closing b = 1 → 0 < s.depth))
  | .done _ true => b ≠ 34 ∧ b ≠ 92 ∧ d = closing b
  | .done _ false => d = 0
  | .fail _ => True

def Dull (b : UInt8) : Prop := b ≠ 34 ∧ b ≠ 92 ∧ opening b = 0 ∧ closing b = 0

instance : DecidablePred Dull := fun _ => inferInstanceAs (Decidable (_ ∧ _))

lemma dull_of_ne (h34 : b ≠ 34) (h92 : b ≠ 92) (h91 : b ≠ 91) (h123 : b ≠ 123) (h93 : b ≠ 93)
    (h125 : b ≠ 125) : Dull b := ⟨h34, h92, by simp [opening, *], by simp [closing, *]⟩

lemma dull_letter (h : isLetter b = true) : Dull b := by
  apply dull_of_ne <;> rintro rfl <;> revert h <;> decide

lemma dull_digit (h : isDigit b = true) : Dull b := by
  apply dull_of_ne <;> rintro rfl <;> revert h <;> decide

lemma dull_blank (h : isBlank b = true) : Dull b := by
  apply dull_of_ne <;> rintro rfl <;> revert h <;> decide

lemma outside_more_dull (hb : Dull b) (hs : s.Sound) (he : s.escape? = none) (hd : s.depth = d) :
    (Step.more s).Outside b d := by
  obtain ⟨h34, h92, ho, hc⟩ := hb
  exact ⟨hs, h92, Or.inr ⟨h34, he, by omega, by omega⟩⟩

lemma sound_of_mode {mode : Mode} {stack : List Frame} (hw : ∀ rest v, mode ≠ .word rest v)
    (hi : mode ≠ .firstItem) (hk : mode ≠ .firstKey) : ({ mode, stack } : Reader).Sound :=
  ⟨fun rest v h => absurd h (hw rest v), fun h => h.elim (absurd · hi) (absurd · hk)⟩

lemma deliver_outside (v : Value) (stack : List Frame) (h34 : b ≠ 34) (h92 : b ≠ 92)
    (ho : opening b = 0) (hd : d = stack.length + closing b) : (deliver v stack).Outside b d := by
  cases stack with
  | nil => exact ⟨h34, h92, by simpa using hd⟩
  | cons frame stack =>
    cases frame <;>
    · refine ⟨sound_of_mode (by simp) (by simp) (by simp), h92, Or.inr ⟨h34, rfl, ?_, ?_⟩⟩
      · simp only [depth, List.length_cons] at hd ⊢
        omega
      · simp [depth]

lemma openFrame_outside (frame : Frame) (mode : Mode) (stack : List Frame) (hb : b = 91 ∨ b = 123)
    (hm : mode = .firstItem ∨ mode = .firstKey) :
    (openFrame room frame mode stack).Outside b stack.length := by
  rw [openFrame]
  split
  · trivial
  · have hb' : b ≠ 92 ∧ b ≠ 34 ∧ closing b = 0 ∧ opening b = 1 := by
      obtain rfl | rfl := hb <;> decide
    obtain ⟨h92, h34, hc, ho⟩ := hb'
    refine ⟨⟨?_, fun _ => by simp⟩, h92, Or.inr ⟨h34, ?_, ?_, by omega⟩⟩
    · rintro rest v rfl
      simp at hm
    · obtain rfl | rfl := hm <;> rfl
    · simp only [depth, List.length_cons]
      omega

lemma begin_outside (stack : List Frame) (b : UInt8) :
    (begin room stack b).Outside b stack.length := by
  rw [begin]
  dsimp only
  split
  · subst b
    exact ⟨sound_of_mode (by simp) (by simp) (by simp), by decide, Or.inl ⟨rfl, rfl, rfl⟩⟩
  · split
    · exact openFrame_outside _ _ _ (Or.inl ‹_›) (Or.inl rfl)
    · split
      · exact openFrame_outside _ _ _ (Or.inr ‹_›) (Or.inr rfl)
      · have number : ∀ negative s, Dull b →
            (Step.more { mode := .number negative s, stack }).Outside b stack.length :=
          fun _ _ hb => outside_more_dull hb (sound_of_mode (by simp) (by simp) (by simp)) rfl rfl
        have word : ∀ rest v, (∀ c ∈ rest, isLetter c = true) → isLetter b = true →
            (Step.more { mode := .word rest v, stack }).Outside b stack.length := by
          intro rest v hr hb
          refine outside_more_dull (dull_letter hb) ⟨?_, by simp⟩ rfl rfl
          intro rest' v' h
          simp only [Mode.word.injEq] at h
          exact h.1 ▸ hr
        split
        · exact number _ _ (by subst b; decide)
        · split
          · exact number _ _ (dull_digit (by subst b; rfl))
          · split
            · exact number _ _ (dull_digit ‹_›)
            · split
              · exact word _ _ (by decide +kernel) (by subst b; rfl)
              · split
                · exact word _ _ (by decide +kernel) (by subst b; rfl)
                · split
                  · exact word _ _ (by decide +kernel) (by subst b; rfl)
                  · trivial

lemma separate_outside (stack : List Frame) (b : UInt8) :
    (separate stack b).Outside b stack.length := by
  have after : ∀ stack, Dull b → (Step.more { mode := .after, stack }).Outside b stack.length :=
    fun _ hb => outside_more_dull hb (sound_of_mode (by simp) (by simp) (by simp)) rfl rfl
  have comma : ∀ mode stack, b = 44 → mode = .item ∨ mode = .key →
      (Step.more { mode, stack }).Outside b stack.length := by
    rintro mode stack rfl (rfl | rfl) <;>
    exact outside_more_dull (by decide) (sound_of_mode (by simp) (by simp) (by simp)) rfl rfl
  simp only [separate]
  split
  · trivial
  · split
    · exact after _ (dull_blank ‹_›)
    · split
      · exact comma _ _ ‹_› (Or.inl rfl)
      · split
        · subst b
          exact deliver_outside _ _ (by decide) (by decide) rfl rfl
        · trivial
  · split
    · exact after _ (dull_blank ‹_›)
    · split
      · exact comma _ _ ‹_› (Or.inr rfl)
      · split
        · subst b
          exact deliver_outside _ _ (by decide) (by decide) rfl rfl
        · trivial

lemma endNumber_outside (stack : List Frame) (v : Value) (b : UInt8) :
    (endNumber stack v b).Outside b stack.length := by
  cases stack with
  | nil => rfl
  | cons frame stack =>
    rw [endNumber]
    cases frame <;> exact separate_outside _ b

lemma dull_of_number_more {s t : NumberScan} (h : s.step b = .more t) : Dull b := by
  have digit : isDigit b = true → Dull b := dull_digit
  have mark : isExponentMark b = true → Dull b := by
    intro h
    apply dull_of_ne <;> rintro rfl <;> revert h <;> decide
  have sign : b = 46 ∨ b = 43 ∨ b = 45 ∨ b = 48 → Dull b := by
    rintro (rfl | rfl | rfl | rfl) <;> decide
  cases s <;> grind [NumberScan.step, NumberScan.afterWhole, NumberScan.afterFraction]

lemma blank_outside {t : Step} (hr : r.Sound) (he : r.escape? = none) (ht : t.Outside b r.depth) :
    (if isBlank b then .more r else t).Outside b r.depth := by
  split
  · exact outside_more_dull (dull_blank ‹_›) hr he rfl
  · exact ht

lemma keyText_outside (stack : List Frame) (hb : b = 34) :
    (Step.more { mode := .keyText {}, stack }).Outside b stack.length := by
  subst b
  exact ⟨sound_of_mode (by simp) (by simp) (by simp), by decide, Or.inl ⟨rfl, rfl, rfl⟩⟩

lemma emptied_outside (v : Value) {stack : List Frame} (hs : stack ≠ []) (hb : b = 93 ∨ b = 125) :
    (deliver v stack.tail).Outside b stack.length := by
  obtain ⟨frame, rest, rfl⟩ := List.exists_cons_of_ne_nil hs
  obtain rfl | rfl := hb <;>
  exact deliver_outside _ _ (by decide) (by decide) rfl rfl

lemma word_outside {word : Bytes} {v : Value} (stack : List Frame) (hw : ∀ x ∈ word, isLetter x = true) :
    (step room { mode := .word word v, stack } b).Outside b stack.length := by
  cases word with
  | nil => trivial
  | cons c rest =>
    have hc : isLetter c = true := hw c (by simp)
    simp only [step]
    split
    · trivial
    · rename_i hb
      obtain rfl : b = c := by simpa using hb
      obtain ⟨h34, h92, ho, hcl⟩ := dull_letter hc
      split
      · exact deliver_outside _ _ h34 h92 ho (by omega)
      · refine outside_more_dull (dull_letter hc) ⟨?_, by simp⟩ rfl rfl
        intro rest' v' h
        simp only [Mode.word.injEq] at h
        exact h.1 ▸ fun x hx => hw x (by simp [hx])

lemma number_outside (negative : Bool) (s : NumberScan) (stack : List Frame) :
    (step room { mode := .number negative s, stack } b).Outside b stack.length := by
  simp only [step]
  split
  · rename_i t ht
    exact outside_more_dull (dull_of_number_more ht) (sound_of_mode (by simp) (by simp) (by simp)) rfl rfl
  · trivial
  · split
    · trivial
    · exact endNumber_outside _ _ _

lemma step_outside (room : Nat) (hr : r.Sound) (he : r.escape? = none) (b : UInt8) :
    (r.step room b).Outside b r.depth := by
  obtain ⟨mode, stack⟩ := r
  cases mode with
  | value => exact blank_outside hr he (begin_outside _ _)
  | firstItem =>
    refine blank_outside hr he ?_
    split
    · exact emptied_outside _ (hr.nonempty (Or.inl rfl)) (Or.inl ‹_›)
    · exact begin_outside _ _
  | item =>
    refine blank_outside hr he ?_
    split
    · trivial
    · exact begin_outside _ _
  | firstKey =>
    refine blank_outside hr he ?_
    split
    · exact keyText_outside _ ‹_›
    · split
      · exact emptied_outside _ (hr.nonempty (Or.inr rfl)) (Or.inr ‹_›)
      · trivial
  | key =>
    refine blank_outside hr he ?_
    split
    · exact keyText_outside _ ‹_›
    · split <;> trivial
  | colon =>
    refine blank_outside hr he ?_
    split
    · subst b
      exact outside_more_dull (by decide) (sound_of_mode (by simp) (by simp) (by simp)) rfl rfl
    · trivial
  | after => exact separate_outside _ _
  | word rest v => exact word_outside _ (hr.letters _ _ rfl)
  | number negative s => exact number_outside _ _ _
  | text s => cases he
  | keyText s => cases he

def afterHex : Option Nat → Option Nat → EscapeScan
  | none, some n => if TextScan.isLeading n then .pairSlash n else .none
  | _, _ => .none

def nextEscape : EscapeScan → UInt8 → EscapeScan
  | .none, b => if b = 92 then .slash else .none
  | .slash, b => if b = 117 then .hex none [] else .none
  | .hex high seen, b =>
    if seen.length < 3 then .hex high (b :: seen)
    else afterHex high (TextScan.hexNumber? (b :: seen))
  | .pairSlash high, _ => .pairMark high
  | .pairMark high, _ => .hex (some high) []

lemma nextEscape_slash {e : EscapeScan} (h : nextEscape e b = .slash) : b = 92 := by
  cases e with
  | none => simpa [nextEscape] using h
  | hex high seen =>
    simp only [nextEscape] at h
    split at h
    · cases h
    · simp only [afterHex] at h
      split at h
      · split at h <;> cases h
      · cases h
  | slash =>
    simp only [nextEscape] at h
    split at h <;> cases h
  | _ => cases h

def Paired (e : EscapeScan) : Prop := (∃ high, e = .pairSlash high) ∨ ∃ high, e = .pairMark high

lemma text_step_more {s t : TextScan} (h : s.step b = .more t) :
    t.escape = nextEscape s.escape b ∧ ¬ (s.escape = .none ∧ b = 34) ∧
      (Paired s.escape → b = 92 ∨ b = 117) := by
  obtain ⟨rev, escape⟩ := s
  cases escape with
  | hex high seen =>
    have hn : ¬ Paired (.hex high seen) := by
      rintro (⟨_, h⟩ | ⟨_, h⟩) <;> cases h
    cases high <;>
    grind [TextScan.step, nextEscape, afterHex, TextScan.unescape, TextScan.pushNumber,
      TextScan.isLeading, TextScan.isTrailing]
  | _ => grind [TextScan.step, nextEscape, TextScan.push, Paired]

lemma text_step_done {s : TextScan} {t : String} (h : s.step b = .done t) :
    s.escape = .none ∧ b = 34 := by
  obtain ⟨rev, escape⟩ := s
  cases escape with
  | hex high seen => cases high <;> grind [TextScan.step, TextScan.unescape]
  | _ => grind [TextScan.step]

def Step.Within (e : EscapeScan) (b : UInt8) (d : Nat) : Step → Prop
  | .more s => s.Sound ∧ s.depth = d ∧
      (e = .none ∧ b = 34 ∧ s.escape? = none ∨
        ¬ (e = .none ∧ b = 34) ∧ s.escape? = some (nextEscape e b) ∧
          (Paired e → b = 92 ∨ b = 117))
  | .done _ used => used = true ∧ e = .none ∧ b = 34 ∧ d = 0
  | .fail _ => True

lemma step_within (room : Nat) {e : EscapeScan} (he : r.escape? = some e) (b : UInt8) :
    (r.step room b).Within e b r.depth := by
  obtain ⟨mode, stack⟩ := r
  cases mode with
  | text s =>
    obtain rfl : s.escape = e := by simpa [escape?] using he
    simp only [step, depth]
    split
    · rename_i t ht
      obtain ⟨hn, hq, hp⟩ := text_step_more ht
      exact ⟨sound_of_mode (by simp) (by simp) (by simp), rfl, Or.inr ⟨hq, by rw [← hn]; rfl, hp⟩⟩
    · trivial
    · rename_i t ht
      obtain ⟨hn, rfl⟩ := text_step_done ht
      cases stack with
      | nil => exact ⟨rfl, hn, rfl, rfl⟩
      | cons frame stack =>
        cases frame <;>
        exact ⟨sound_of_mode (by simp) (by simp) (by simp), rfl, Or.inl ⟨hn, rfl, rfl⟩⟩
  | keyText s =>
    obtain rfl : s.escape = e := by simpa [escape?] using he
    simp only [step, depth]
    split
    · rename_i t ht
      obtain ⟨hn, hq, hp⟩ := text_step_more ht
      exact ⟨sound_of_mode (by simp) (by simp) (by simp), rfl, Or.inr ⟨hq, by rw [← hn]; rfl, hp⟩⟩
    · trivial
    · rename_i t ht
      obtain ⟨hn, rfl⟩ := text_step_done ht
      refine ⟨sound_of_mode (by simp) (by simp) (by simp), ?_, Or.inl ⟨hn, rfl, rfl⟩⟩
      cases stack with
      | nil => rfl
      | cons frame stack => cases frame <;> rfl
  | _ => cases he

lemma step_sound (hr : r.Sound) (h : r.step room b = .more s) : s.Sound := by
  cases he : r.escape? with
  | none =>
    have := step_outside room hr he b
    rw [h] at this
    exact this.1
  | some e =>
    have := step_within room he b
    rw [h] at this
    exact this.1

def Doomed (r : Reader) : Prop :=
  ∃ high seen, r.escape? = some (.hex high seen) ∧ ∃ b ∈ seen, TextScan.hexValue? b = none

lemma hexNumber?_none {bs : Bytes} (h : ∃ b ∈ bs, TextScan.hexValue? b = none) :
    TextScan.hexNumber? bs = none := by
  induction bs with
  | nil => simp at h
  | cons b bs ih =>
    obtain ⟨c, hc, hv⟩ := h
    rcases List.mem_cons.mp hc with rfl | hc
    · cases hn : TextScan.hexNumber? bs <;> simp [TextScan.hexNumber?, hn, hv]
    · simp [TextScan.hexNumber?, ih ⟨c, hc, hv⟩]

lemma text_step_doomed {s : TextScan} {high : Option Nat} {seen : Bytes}
    (he : s.escape = .hex high seen) (h : ∃ c ∈ b :: seen, TextScan.hexValue? c = none) :
    s.step b = .more { s with escape := .hex high (b :: seen) } ∨ ∃ f, s.step b = .fail f := by
  simp only [TextScan.step, he]
  split
  · exact Or.inl rfl
  · rw [hexNumber?_none h]
    exact Or.inr ⟨_, rfl⟩

lemma step_doomed (room : Nat) {high : Option Nat} {seen : Bytes} (he : r.escape? = some (.hex high seen))
    (h : ∃ c ∈ b :: seen, TextScan.hexValue? c = none) :
    (∃ s, r.step room b = .more s ∧ s.Sound ∧ s.depth = r.depth ∧ s.Doomed) ∨
      ∃ f, r.step room b = .fail f := by
  obtain ⟨mode, stack⟩ := r
  cases mode with
  | text s | keyText s =>
    have he' : s.escape = .hex high seen := by simpa [escape?] using he
    simp only [step]
    rcases text_step_doomed he' h with ht | ⟨f, ht⟩
    · rw [ht]
      exact Or.inl ⟨_, rfl, sound_of_mode (by simp) (by simp) (by simp), rfl, high, b :: seen, rfl, h⟩
    · rw [ht]
      exact Or.inr ⟨f, rfl⟩
  | _ => cases he

/-- How a reader that began too late stands to the stream: it is in a text where the stream is not,
or it is not as deep. -/
def Skew (r : Reader) : Place → Prop
  | .between => r.escape? = some .none
  | .inside t => t.Doomed ∨
      match r.escape?, t.escape? with
      | none, none => r.depth < t.depth
      | none, some e => e = .slash → r.depth < t.depth
      | some e, none => e = .none
      | some e, some f => e = f ∧ r.depth < t.depth
  | .lost => True

end SocketRpc.Json.Reader

namespace SocketRpc.Place

open Json (Reader)
open Json.Reader (maxDepth scan)

variable {p : Place} {r : Reader} {b : UInt8}

def Sound : Place → Prop
  | inside r => r.Sound ∧ 0 < r.depth
  | _ => True

lemma inside_more (hp : (inside r).Sound) {s : Reader} (h : r.step maxDepth b = .more s) :
    s.Sound ∧ 0 < s.depth := by
  obtain ⟨hr, hd⟩ := hp
  cases he : r.escape? with
  | none =>
    have := Json.Reader.step_outside maxDepth hr he b
    rw [h] at this
    obtain ⟨hs, -, ⟨-, -, hd'⟩ | ⟨-, -, hd', hc⟩⟩ := this
    · exact ⟨hs, by omega⟩
    · refine ⟨hs, ?_⟩
      by_cases hcl : Json.Reader.closing b = 1
      · exact hc hcl
      · have : Json.Reader.closing b = 0 := by
          rw [Json.Reader.closing] at hcl ⊢
          split at hcl <;> simp_all
        omega
  | some e =>
    have := Json.Reader.step_within maxDepth he b
    rw [h] at this
    exact ⟨this.1, by rw [this.2.1]; exact hd⟩

lemma step_sound (hp : p.Sound) (b : UInt8) : (p.step b).Sound := by
  cases p with
  | between =>
    simp only [step]
    split
    · trivial
    · split
      · exact ⟨⟨by simp, by simp⟩, by simp [Json.Reader.depth]⟩
      · trivial
  | inside r =>
    simp only [step]
    split
    · exact inside_more hp ‹_›
    · trivial
    · trivial
  | lost => trivial

lemma run_sound (hp : p.Sound) (bs : Bytes) : (p.run bs).Sound := by
  induction bs generalizing p with
  | nil => exact hp
  | cons b bs ih => exact ih (step_sound hp b)

lemma closing_le (b : UInt8) : Json.Reader.closing b ≤ 1 := by
  rw [Json.Reader.closing]
  split <;> omega

lemma opening_of_closing (h : Json.Reader.closing b = 1) : Json.Reader.opening b = 0 := by
  have hb : b = 93 ∨ b = 125 := by
    rw [Json.Reader.closing] at h
    split at h
    · assumption
    · omega
  obtain rfl | rfl := hb <;> rfl

lemma depth_of_done (hp : (inside r).Sound) {v : Json.Value} {used : Bool}
    (h : r.step maxDepth b = .done v used) (hu : used = true) :
    r.escape? = none ∧ r.depth = 1 ∧ Json.Reader.closing b = 1 := by
  obtain ⟨hr, hd⟩ := hp
  subst hu
  cases he : r.escape? with
  | none =>
    have ho := Json.Reader.step_outside maxDepth hr he b
    rw [h] at ho
    obtain ⟨-, -, hc⟩ := ho
    have := closing_le b
    exact ⟨rfl, by omega, by omega⟩
  | some e =>
    have hw := Json.Reader.step_within maxDepth he b
    rw [h] at hw
    exact absurd hw.2.2.2 (by omega)

lemma step_inside (r : Reader) (b : UInt8) :
    (∃ s, r.step maxDepth b = .more s ∧ (inside r).step b = inside s) ∨
      (∃ v, r.step maxDepth b = .done v true ∧ (inside r).step b = between) ∨
        (inside r).step b = lost := by
  simp only [step]
  split
  · exact Or.inl ⟨_, ‹_›, rfl⟩
  · exact Or.inr (Or.inl ⟨_, ‹_›, rfl⟩)
  · exact Or.inr (Or.inr rfl)

lemma step_between_text (h : b = 34 ∨ b = 92) : between.step b = lost := by
  obtain rfl | rfl := h <;> rfl

lemma skew_more_outside {t s : Reader} (hr : r.Sound) (hp : (inside t).Sound)
    (he : r.escape? = none) (hf : t.escape? = none) (hs : r.depth < t.depth)
    (h : r.step maxDepth b = .more s) : s.Skew ((inside t).step b) := by
  have hro := Json.Reader.step_outside maxDepth hr he b
  have hto := Json.Reader.step_outside maxDepth hp.1 hf b
  rw [h] at hro
  obtain ⟨-, -, hro⟩ := hro
  rcases step_inside t b with ⟨u, hu, hi⟩ | ⟨v, hv, hi⟩ | hi
  · rw [hu] at hto
    rw [hi]
    obtain ⟨-, -, ⟨h34, hue, hud⟩ | ⟨h34, hue, hud, -⟩⟩ := hto
    · obtain ⟨-, hse, hsd⟩ | ⟨hn, -⟩ := hro
      · exact Or.inr (by simp only [hse, hue, true_and]; omega)
      · exact absurd h34 hn
    · obtain ⟨hn, -⟩ | ⟨-, hse, hsd, -⟩ := hro
      · exact absurd hn h34
      · exact Or.inr (by simp only [hse, hue]; omega)
  · obtain ⟨-, hd, hc⟩ := depth_of_done hp hv rfl
    have ho := opening_of_closing hc
    obtain ⟨rfl, -⟩ | ⟨-, -, hsd, -⟩ := hro
    · exact absurd hc (by decide)
    · omega
  · rw [hi]
    trivial

lemma skew_more_behind {t s : Reader} {f : Json.EscapeScan} (hr : r.Sound) (hp : (inside t).Sound)
    (he : r.escape? = none) (hf : t.escape? = some f) (hs : f = .slash → r.depth < t.depth)
    (h : r.step maxDepth b = .more s) : s.Skew ((inside t).step b) := by
  have hro := Json.Reader.step_outside maxDepth hr he b
  have htw := Json.Reader.step_within maxDepth hf b
  rw [h] at hro
  obtain ⟨-, h92, hro⟩ := hro
  rcases step_inside t b with ⟨u, hu, hi⟩ | ⟨v, hv, hi⟩ | hi
  · rw [hu] at htw
    rw [hi]
    obtain ⟨-, hud, ⟨rfl, rfl, hue⟩ | ⟨hq, hue, hpair⟩⟩ := htw
    · obtain ⟨-, hse, -⟩ | ⟨hn, -⟩ := hro
      · exact Or.inr (by simp only [hse, hue])
      · exact absurd rfl hn
    · obtain ⟨rfl, hse, hsd⟩ | ⟨h34, hse, -⟩ := hro
      · cases f with
        | none => exact absurd ⟨rfl, rfl⟩ hq
        | slash =>
          apply Or.inr
          have := hs rfl
          simp only [hse, hue, Json.Reader.nextEscape]
          exact ⟨rfl, by omega⟩
        | hex high seen =>
          rcases Json.Reader.step_doomed maxDepth hf (b := 34)
            ⟨34, by simp, rfl⟩ with ⟨w, hw, -, -, hd⟩ | ⟨e, he⟩
          · rw [hu, Json.Reader.Step.more.injEq] at hw
            exact Or.inl (hw ▸ hd)
          · simp [hu] at he
        | pairSlash high => exact absurd (hpair (Or.inl ⟨high, rfl⟩)) (by decide)
        | pairMark high => exact absurd (hpair (Or.inr ⟨high, rfl⟩)) (by decide)
      · apply Or.inr
        simp only [hse, hue]
        intro hn
        exact absurd (Json.Reader.nextEscape_slash hn) h92
  · rw [hv] at htw
    exact absurd htw.2.2.2 (by have := hp.2; omega)
  · rw [hi]
    trivial

lemma skew_more_ahead {t s : Reader} (hp : (inside t).Sound) (he : r.escape? = some .none)
    (hf : t.escape? = none) (h : r.step maxDepth b = .more s) : s.Skew ((inside t).step b) := by
  have hrw := Json.Reader.step_within maxDepth he b
  have hto := Json.Reader.step_outside maxDepth hp.1 hf b
  rw [h] at hrw
  obtain ⟨-, -, hrw⟩ := hrw
  rcases step_inside t b with ⟨u, hu, hi⟩ | ⟨v, hv, hi⟩ | hi
  · rw [hu] at hto
    rw [hi]
    apply Or.inr
    obtain ⟨-, h92, ⟨h34, hue, -⟩ | ⟨h34, hue, -⟩⟩ := hto
    · obtain ⟨-, -, hse⟩ | ⟨hn, -⟩ := hrw
      · simp [hse, hue]
      · exact absurd ⟨rfl, h34⟩ hn
    · obtain ⟨-, hn, -⟩ | ⟨-, hse, -⟩ := hrw
      · exact absurd hn h34
      · simp [hse, hue, Json.Reader.nextEscape, h92]
  · rw [hv] at hto
    rw [hi]
    obtain ⟨-, hn, -⟩ | ⟨-, hse, -⟩ := hrw
    · exact absurd hn hto.1
    · simp [Json.Reader.Skew, hse, Json.Reader.nextEscape, hto.2.1]
  · rw [hi]
    trivial

lemma skew_more_within {t s : Reader} {e : Json.EscapeScan} (hp : (inside t).Sound)
    (he : r.escape? = some e) (hf : t.escape? = some e) (hs : r.depth < t.depth)
    (h : r.step maxDepth b = .more s) : s.Skew ((inside t).step b) := by
  have hrw := Json.Reader.step_within maxDepth he b
  have htw := Json.Reader.step_within maxDepth hf b
  rw [h] at hrw
  obtain ⟨-, hsd, hrw⟩ := hrw
  rcases step_inside t b with ⟨u, hu, hi⟩ | ⟨v, hv, hi⟩ | hi
  · rw [hu] at htw
    rw [hi]
    apply Or.inr
    obtain ⟨-, hud, ⟨hn, h34, hue⟩ | ⟨hq, hue, -⟩⟩ := htw
    · obtain ⟨-, -, hse⟩ | ⟨hq, -⟩ := hrw
      · simp only [hse, hue]
        omega
      · exact absurd ⟨hn, h34⟩ hq
    · obtain ⟨hn, h34, -⟩ | ⟨-, hse, -⟩ := hrw
      · exact absurd ⟨hn, h34⟩ hq
      · simp only [hse, hue, true_and]
        omega
  · rw [hv] at htw
    exact absurd htw.2.2.2 (by have := hp.2; omega)
  · rw [hi]
    trivial

lemma skew_more_between {s : Reader} (he : r.escape? = some .none)
    (h : r.step maxDepth b = .more s) : s.Skew (between.step b) := by
  have hrw := Json.Reader.step_within maxDepth he b
  rw [h] at hrw
  obtain ⟨-, -, ⟨-, rfl, -⟩ | ⟨-, hse, -⟩⟩ := hrw
  · trivial
  · by_cases h92 : b = 92
    · rw [step_between_text (Or.inr h92)]
      trivial
    · have hse' : s.escape? = some .none := by
        rw [hse]
        simp [Json.Reader.nextEscape, h92]
      simp only [step]
      split
      · exact hse'
      · split
        · apply Or.inr
          rw [hse']
          rfl
        · trivial

lemma skew_more (hs : r.Skew p) (hr : r.Sound) (hp : p.Sound) {s : Reader}
    (h : r.step maxDepth b = .more s) : s.Skew (p.step b) := by
  cases p with
  | between => exact skew_more_between hs h
  | lost => trivial
  | inside t =>
    rcases hs with ⟨high, seen, hf, c, hc, hv⟩ | hs
    · rcases Json.Reader.step_doomed maxDepth hf (b := b)
        ⟨c, List.mem_cons_of_mem b hc, hv⟩ with ⟨w, hw, -, -, hd⟩ | ⟨e, he⟩
      · simp only [step, hw]
        exact Or.inl hd
      · simp only [step, he]
        trivial
    · cases he : r.escape? with
      | none =>
        cases hf : t.escape? with
        | none => exact skew_more_outside hr hp he hf (by simpa only [he, hf] using hs) h
        | some f => exact skew_more_behind hr hp he hf (by simpa only [he, hf] using hs) h
      | some e =>
        cases hf : t.escape? with
        | none =>
          simp only [he, hf] at hs
          exact skew_more_ahead hp (hs ▸ he) hf h
        | some f =>
          simp only [he, hf] at hs
          exact skew_more_within hp he (hs.1 ▸ hf) hs.2 h

lemma skew_done (hs : r.Skew p) (hr : r.Sound) (hp : p.Sound) {v : Json.Value} {used : Bool}
    (h : r.step maxDepth b = .done v used) (hl : p.step b ≠ lost) :
    ∃ t, (if used then p.step b else p) = inside t := by
  cases p with
  | lost => exact absurd rfl hl
  | between =>
    have hrw := Json.Reader.step_within maxDepth hs b
    rw [h] at hrw
    exact absurd (step_between_text (Or.inl hrw.2.2.1)) hl
  | inside t =>
    cases used with
    | false => exact ⟨t, rfl⟩
    | true =>
      rcases step_inside t b with ⟨u, -, hi⟩ | ⟨w, hw, -⟩ | hi
      · exact ⟨u, hi⟩
      · obtain ⟨hf, hd, hc⟩ := depth_of_done hp hw rfl
        rcases hs with ⟨high, seen, hn, -⟩ | hs
        · simp [hf] at hn
        · cases he : r.escape? with
          | none =>
            have hro := Json.Reader.step_outside maxDepth hr he b
            rw [h] at hro
            obtain ⟨-, -, hrd⟩ := hro
            simp only [he, hf] at hs
            omega
          | some e =>
            have hrw := Json.Reader.step_within maxDepth he b
            rw [h] at hrw
            obtain ⟨-, -, rfl, -⟩ := hrw
            exact absurd hc (by decide)
      · exact absurd hi hl

lemma run_inside_of_skew (hs : r.Skew p) (hr : r.Sound) (hp : p.Sound) {bs : Bytes}
    (hl : p.run bs ≠ lost) :
    (∀ s, scan maxDepth r bs = .more s → s.Skew (p.run bs) ∧ s.Sound) ∧
      ∀ v left, scan maxDepth r bs = .done v left →
        ∃ used t, bs = used ++ left ∧ p.run used = inside t := by
  induction bs generalizing r p with
  | nil =>
    refine ⟨fun s h => ?_, fun v left h => by simp [scan] at h⟩
    obtain rfl : r = s := by simpa [scan] using h
    exact ⟨hs, hr⟩
  | cons b bs ih =>
    have hb : p.step b ≠ lost := by
      intro h
      rw [run_cons, h, run_lost] at hl
      exact hl rfl
    rw [scan]
    cases h : r.step maxDepth b with
    | more s =>
      obtain ⟨hm, hd⟩ := ih (skew_more hs hr hp h) (Json.Reader.step_sound hr h) (step_sound hp b) hl
      refine ⟨hm, fun v left h' => ?_⟩
      obtain ⟨used, t, rfl, ht⟩ := hd v left h'
      exact ⟨b :: used, t, rfl, ht⟩
    | done w u =>
      obtain ⟨t, ht⟩ := skew_done hs hr hp h hb
      cases u with
      | true =>
        refine ⟨by simp, fun v left h' => ⟨[b], t, ?_, by simpa using ht⟩⟩
        simp only [Json.Reader.Outcome.done.injEq] at h'
        rw [← h'.2]
        rfl
      | false =>
        refine ⟨by simp, fun v left h' => ⟨[], t, ?_, by simpa using ht⟩⟩
        simp only [Json.Reader.Outcome.done.injEq] at h'
        rw [← h'.2]
        rfl
    | fail f => simp

lemma skew_start {t : Reader} (hp : (inside t).Sound) : ({} : Reader).Skew (inside t) := by
  have hd : ({} : Reader).depth < t.depth := hp.2
  apply Or.inr
  cases hf : t.escape? with
  | none => exact hd
  | some f => exact fun _ => hd

lemma new_sound : ({} : Reader).Sound := ⟨by simp, by simp⟩

lemma run_gap_inside {t : Reader} {gap : Bytes} (hp : (inside t).Sound)
    (hg : ∀ b ∈ gap, isGap b = true) (hl : (inside t).run gap ≠ lost) :
    ∃ u, (inside t).run gap = inside u := by
  induction gap generalizing t with
  | nil => exact ⟨t, rfl⟩
  | cons b gap ih =>
    rw [run_cons] at hl ⊢
    rcases step_inside t b with ⟨u, hu, hi⟩ | ⟨v, hv, -⟩ | hi
    · rw [hi] at hl ⊢
      exact ih (inside_more hp hu) (fun c hc => hg c (by simp [hc])) hl
    · obtain ⟨-, -, hc⟩ := depth_of_done hp hv rfl
      have := hg b (by simp)
      have hb : b = 93 ∨ b = 125 := by
        rw [Json.Reader.closing] at hc
        split at hc
        · assumption
        · omega
      obtain rfl | rfl := hb <;> exact absurd this (by decide)
    · rw [hi, run_lost] at hl
      exact absurd rfl hl

end SocketRpc.Place
