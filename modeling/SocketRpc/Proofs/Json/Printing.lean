import SocketRpc.Proofs.Json.Walks

/-!
What has been printed is read back. Members of an object may be printed in any order, then they are read in
increasing order of their keys.
-/

namespace SocketRpc.Json

def Number.integral : Number → Bool
  | .integer i => -9223372036854775808 ≤ i && i < 18446744073709551616
  | .real _ => false

namespace Value

mutual

def depth : Value → Nat
  | array vs => depthItems vs + 1
  | object ms => depthMembers ms + 1
  | _ => 0

def depthItems : List Value → Nat
  | [] => 0
  | v :: vs => max (depth v) (depthItems vs)

def depthMembers : List (String × Value) → Nat
  | [] => 0
  | (_, v) :: ms => max (depth v) (depthMembers ms)

end

mutual

def integral : Value → Bool
  | number n => n.integral
  | array vs => integralItems vs
  | object ms => integralMembers ms
  | _ => true

def integralItems : List Value → Bool
  | [] => true
  | v :: vs => integral v && integralItems vs

def integralMembers : List (String × Value) → Bool
  | [] => true
  | (_, v) :: ms => integral v && integralMembers ms

end

mutual

def sorted : Value → Bool
  | array vs => sortedItems vs
  | object ms => (ms.map Prod.fst).Pairwise (· < ·) && sortedMembers ms
  | _ => true

def sortedItems : List Value → Bool
  | [] => true
  | v :: vs => sorted v && sortedItems vs

def sortedMembers : List (String × Value) → Bool
  | [] => true
  | (_, v) :: ms => sorted v && sortedMembers ms

end

mutual

def normal : Value → Value
  | array vs => array (normalItems vs)
  | object ms => object (normalMembers [] ms)
  | v => v

def normalItems : List Value → List Value
  | [] => []
  | v :: vs => normal v :: normalItems vs

def normalMembers (placed : List (String × Value)) : List (String × Value) → List (String × Value)
  | [] => placed
  | (k, v) :: ms => normalMembers (insertMember k (normal v) placed) ms

end

lemma insertMember_last {α : Type} {k : String} {v : α} {ms : List (String × α)}
    (h : ∀ e ∈ ms, e.1 < k) :
    insertMember k v ms = ms ++ [(k, v)] := by
  induction ms with
  | nil => rfl
  | cons e ms ih =>
    obtain ⟨j, w⟩ := e
    have hj : j < k := h _ List.mem_cons_self
    have hne : k ≠ j := fun he => String.lt_irrefl j (he ▸ hj)
    rw [insertMember, if_neg (String.lt_asymm hj), if_neg hne, ih fun e he => h e (List.mem_cons_of_mem _ he)]
    rfl

mutual

theorem normal_of_sorted : ∀ v : Value, v.sorted = true → v.normal = v
  | null, _ | bool _, _ | number _, _ | text _, _ => rfl
  | array vs, h => congrArg array (normalItems_of_sorted vs h)
  | object ms, h => by
    simp only [sorted, Bool.and_eq_true, decide_eq_true_eq] at h
    exact congrArg object (normalMembers_of_sorted ms [] h.1 h.2)

theorem normalItems_of_sorted : ∀ vs : List Value, sortedItems vs = true → normalItems vs = vs
  | [], _ => rfl
  | v :: vs, h => by
    simp only [sortedItems, Bool.and_eq_true] at h
    rw [normalItems, normal_of_sorted v h.1, normalItems_of_sorted vs h.2]

theorem normalMembers_of_sorted : ∀ (ms placed : List (String × Value)),
    ((placed ++ ms).map Prod.fst).Pairwise (· < ·) → sortedMembers ms = true →
    normalMembers placed ms = placed ++ ms
  | [], placed, _, _ => (List.append_nil placed).symm
  | (k, v) :: ms, placed, hp, h => by
    simp only [sortedMembers, Bool.and_eq_true] at h
    have hk : ∀ e ∈ placed, e.1 < k := fun e he => by
      rw [List.map_append, List.pairwise_append] at hp
      exact hp.2.2 e.1 (List.mem_map_of_mem he) k (by simp)
    rw [normalMembers, normal_of_sorted v h.1, insertMember_last hk,
      normalMembers_of_sorted ms (placed ++ [(k, v)]) (by simpa using hp) h.2]
    simp

end

end Value

namespace Reader

variable {room : Nat} {r t : Reader} {b : UInt8} {bs cs : Bytes} {stack : List Frame} {v : Value}

structure Ready (room : Nat) (stack : List Frame) (r : Reader) : Prop where
  isOpen : r.Open
  step : ∀ b, isBlank b = false → b ≠ 93 → r.step room b = begin room stack b

structure Behind (room : Nat) (stack : List Frame) (r : Reader) : Prop where
  isOpen : r.Open
  step : ∀ b, b = 44 ∨ b = 93 ∨ b = 125 → r.step room b = separate stack b

def Ends (room : Nat) (r : Reader) (bs : Bytes) (v : Value) (stack : List Frame) : Prop :=
  ∃ front b t, bs = front ++ [b] ∧ Walk room r front t ∧ t.Open ∧ t.step room b = deliver v stack

def delivered (v : Value) : List Frame → List Frame
  | .array rev :: stack => .array (v :: rev) :: stack
  | .object members key :: stack => .object (insertMember key v members) "" :: stack
  | [] => []

def Passes (room : Nat) (r : Reader) (bs : Bytes) (v : Value) (stack : List Frame) : Prop :=
  ∃ t, Walk room r bs t ∧ Behind room (delivered v stack) t

lemma deliver_cons (v : Value) (hs : stack ≠ []) :
    deliver v stack = .more ⟨.after, delivered v stack⟩ := by
  cases stack with
  | nil => contradiction
  | cons frame stack => cases frame <;> rfl

lemma isEnd_endOf (stack : List Frame) : (endOf stack).isEnd = true := by
  cases stack with
  | nil => rfl
  | cons frame stack => cases frame <;> rfl

lemma ready_value (stack : List Frame) : Ready room stack ⟨.value, stack⟩ where
  isOpen := ⟨_, rfl, rfl⟩
  step b hb _ := by simp only [Reader.step, hb]; rfl

lemma ready_item (stack : List Frame) : Ready room stack ⟨.item, stack⟩ where
  isOpen := ⟨_, rfl, rfl⟩
  step b hb h93 := by simp only [Reader.step, hb, h93]; rfl

lemma ready_firstItem (stack : List Frame) : Ready room stack ⟨.firstItem, stack⟩ where
  isOpen := ⟨_, rfl, isEnd_endOf stack⟩
  step b hb h93 := by simp only [Reader.step, hb, h93]; rfl

lemma Ends.prepend (h : Walk room r bs t) (he : Ends room t cs v stack) : Ends room r (bs ++ cs) v stack := by
  obtain ⟨front, b, u, rfl, hw, ho, hs⟩ := he
  exact ⟨bs ++ front, b, u, (List.append_assoc _ _ _).symm, h.trans hw, ho, hs⟩

lemma Ends.passes (h : Ends room r bs v stack) (hs : stack ≠ []) : Passes room r bs v stack := by
  obtain ⟨front, b, t, rfl, hw, ho, ht⟩ := h
  rw [deliver_cons v hs] at ht
  exact ⟨_, hw.trans (.single ho ht), ⟨_, rfl, isEnd_endOf _⟩, fun _ _ => rfl⟩

lemma ends_word {rest : Bytes} (hr : rest ≠ []) (v : Value) (stack : List Frame) :
    Ends room ⟨.word rest v, stack⟩ rest v stack := by
  induction rest with
  | nil => contradiction
  | cons c rest ih =>
    by_cases hn : rest = []
    · subst hn
      exact ⟨[], c, _, rfl, .nil _, ⟨_, rfl, rfl⟩, by simp [step]⟩
    · exact (ih hn).prepend (.single ⟨_, rfl, rfl⟩ (by simp [step, hn]))

lemma Ready.ends_word (h : Ready room stack r) {rest : Bytes} (hb : isBlank b = false) (h93 : b ≠ 93)
    (hw : begin room stack b = .more ⟨.word rest v, stack⟩) (hr : rest ≠ []) :
    Ends room r (b :: rest) v stack :=
  (Reader.ends_word hr v stack).prepend (.single h.isOpen ((h.step b hb h93).trans hw))

lemma digit_apart (hd : isDigit b) :
    isBlank b = false ∧ b ≠ 93 ∧ b ≠ 34 ∧ b ≠ 91 ∧ b ≠ 123 ∧ b ≠ 45 := by
  simp only [isDigit, Bool.and_eq_true, decide_eq_true_eq] at hd
  simp only [isBlank]
  grind

lemma begin_digit (hd : isDigit b) : begin room stack b = step room ⟨.number false .sign, stack⟩ b := by
  obtain ⟨-, -, h34, h91, h123, h45⟩ := digit_apart hd
  by_cases h48 : b = 48
  · subst h48
    rfl
  · simp only [begin, step, NumberScan.step, h34, h91, h123, h45, h48, hd, if_false, if_true]

lemma Ready.digits (h : Ready room stack r) {s : NumberScan} (hs : s ≠ .sign)
    (hw : Walk room ⟨.number false .sign, stack⟩ bs ⟨.number false s, stack⟩) :
    Walk room r bs ⟨.number false s, stack⟩ := by
  generalize ht : (⟨.number false s, stack⟩ : Reader) = t at hw ⊢
  cases hw with
  | nil =>
    cases ht
    exact absurd rfl hs
  | cons ho hs' hw =>
    rename_i u b bs
    have hd : isDigit b := by
      refine Decidable.byContradiction fun hd => ?_
      have h48 : b ≠ 48 := fun h => hd (h ▸ rfl)
      simp [Reader.step, NumberScan.step, hd, h48] at hs'
    obtain ⟨hb, h93, -⟩ := digit_apart hd
    exact .cons h.isOpen ((h.step b hb h93).trans ((begin_digit hd).trans hs')) hw

lemma behind_number {negative : Bool} {s : NumberScan} {n : Number} (hc : s.isComplete)
    (hr : s.result negative = .ok n) (he : ∀ b, b = 44 ∨ b = 93 ∨ b = 125 → s.step b = .ended)
    (hs : stack ≠ []) : Behind room (delivered (.number n) stack) ⟨.number negative s, stack⟩ where
  isOpen := open_number hc hr hs
  step b hb := by simp only [Reader.step, he b hb, hr, endNumber, deliver_cons _ hs]

lemma whole_ended (n : Nat) : ∀ b, b = 44 ∨ b = 93 ∨ b = 125 → (NumberScan.whole n).step b = .ended := by
  rintro b (rfl | rfl | rfl) <;> rfl

lemma zero_ended : ∀ b, b = 44 ∨ b = 93 ∨ b = 125 → NumberScan.zero.step b = .ended := by
  rintro b (rfl | rfl | rfl) <;> rfl

lemma passes_number (h : Ready room stack r) (hs : stack ≠ []) {n : Number} (hn : n.integral) :
    Passes room r (Utf8.encode n.chars) (.number n) stack := by
  cases n with
  | real x => cases hn
  | integer i =>
    have hn : -9223372036854775808 ≤ i ∧ i < 18446744073709551616 := by simpa [Number.integral] using hn
    rw [Number.chars]
    split
    · obtain ⟨m, rfl⟩ : ∃ m : Nat, i = -m := ⟨i.natAbs, by omega⟩
      have hm : ¬ (m = 0 ∨ 9223372036854775808 < m) := by omega
      have hw : Walk room ⟨.number true .sign, stack⟩ _ _ := walk_digits true hs (n := m) (by omega)
        (by simp [NumberScan.significandLimit]; omega)
      have hr : (NumberScan.whole m).result true = .ok (.integer (-m)) := by
        simp only [NumberScan.result, NumberScan.ofWhole, hm, if_false, Bool.true_eq_false]
      rw [Int.natAbs_neg, Int.natAbs_natCast]
      exact ⟨_, .cons h.isOpen (h.step 45 rfl (by decide)) hw, behind_number rfl hr (whole_ended m) hs⟩
    · by_cases h0 : i = 0
      · subst h0
        exact ⟨_, h.digits (s := .zero) (by simp) (.single (open_sign _ _) rfl),
          behind_number rfl rfl zero_ended hs⟩
      · obtain ⟨m, rfl⟩ := Int.eq_ofNat_of_zero_le (Int.not_lt.mp ‹_›)
        have hw : Walk room ⟨.number false .sign, stack⟩ _ _ := walk_digits false hs (n := m) (by omega)
          (by simp [NumberScan.significandLimit]; omega)
        exact ⟨_, h.digits (by simp) hw, behind_number rfl rfl (whole_ended m) hs⟩

lemma encode_quoteChars (text : String) :
    Utf8.encode (quoteChars text) = 34 :: (Utf8.encode (text.toList.flatMap escapeChar) ++ [34]) := by
  rw [quoteChars, Utf8.encode_append]
  rfl

lemma ends_text (h : Ready room stack r) (text : String) :
    Ends room r (Utf8.encode (quoteChars text)) (.text text) stack := by
  obtain ⟨s, hs, hd⟩ := TextScan.reads_text text
  have front : Walk room r [34] ⟨.text {}, stack⟩ := .single h.isOpen (h.step 34 rfl (by decide))
  rw [encode_quoteChars, ← List.cons_append]
  exact ⟨_, 34, _, rfl, front.trans (walk_text hs), ⟨_, rfl, rfl⟩, by simp only [step, hd]⟩

lemma walk_key {members : List (String × Value)} {key : String} (ho : r.Open)
    (hs : r.step room 34 = .more ⟨.keyText {}, .object members key :: stack⟩) (k : String) :
    Walk room r (Utf8.encode (quoteChars k ++ [':'])) ⟨.value, .object members k :: stack⟩ := by
  obtain ⟨s, hr, hd⟩ := TextScan.reads_text k
  rw [Utf8.encode_append, encode_quoteChars, ← List.cons_append, List.append_assoc]
  refine ((Walk.single ho hs).trans (walk_keyText hr)).trans ?_
  refine .cons ⟨_, rfl, rfl⟩ (s := ⟨.colon, .object members k :: stack⟩) ?_ (.single ⟨_, rfl, rfl⟩ rfl)
  simp only [step, hd, named]

lemma Ends.both (h : Ends room r bs v stack) (p : Prop) : (stack ≠ [] → Passes room r bs v stack) ∧
    (p → Ends room r bs v stack) :=
  ⟨h.passes, fun _ => h⟩

lemma open_array (h : Ready room stack r) (hl : stack.length < room) :
    Walk room r [91] ⟨.firstItem, .array [] :: stack⟩ := by
  refine .single h.isOpen ?_
  rw [h.step 91 rfl (by decide)]
  simp [begin, openFrame, Nat.not_le.mpr hl]

lemma open_object (h : Ready room stack r) (hl : stack.length < room) :
    Walk room r [123] ⟨.firstKey, .object [] "" :: stack⟩ := by
  refine .single h.isOpen ?_
  rw [h.step 123 rfl (by decide)]
  simp [begin, openFrame, Nat.not_le.mpr hl]

lemma encode_cons (c : Char) (cs : List Char) : Utf8.encode (c :: cs) = Utf8.encodeChar c ++ Utf8.encode cs :=
  List.flatMap_cons

-- The case of an object goes from key to key, that of an array from item to item, each with what is on
-- the stack.
mutual

theorem reads_value : ∀ (v : Value) {stack : List Frame} {r : Reader}, v.integral = true →
    v.depth + stack.length ≤ room → Ready room stack r →
    (stack ≠ [] → Passes room r (Utf8.encode v.chars) v.normal stack) ∧
      ((∀ n, v ≠ .number n) → Ends room r (Utf8.encode v.chars) v.normal stack)
  | .null, _, _, _, _, h => (h.ends_word (b := 110) rfl (by decide) rfl (by decide)).both _
  | .bool true, _, _, _, _, h => (h.ends_word (b := 116) rfl (by decide) rfl (by decide)).both _
  | .bool false, _, _, _, _, h => (h.ends_word (b := 102) rfl (by decide) rfl (by decide)).both _
  | .number n, _, _, hi, _, h => ⟨fun hs => passes_number h hs hi, fun hn => absurd rfl (hn n)⟩
  | .text s, _, _, _, _, h => (ends_text h s).both _
  | .array [], stack, _, _, hd, h => by
    have hw := open_array h (by simp only [Value.depth, Value.depthItems] at hd; omega)
    exact Ends.both ⟨[91], 93, _, rfl, hw, ⟨_, rfl, rfl⟩, rfl⟩ _
  | .array (v :: vs), stack, _, hi, hd, h => by
    simp only [Value.integral, Value.integralItems, Bool.and_eq_true] at hi
    simp only [Value.depth, Value.depthItems] at hd
    have hw := open_array h (by omega)
    obtain ⟨t, ht, hb⟩ := (reads_value v hi.1 (by rw [List.length_cons]; omega)
      (ready_firstItem (.array [] :: stack))).1 (by simp)
    have hr := reads_items vs hi.2 (by omega) hb
    have he : Utf8.encode (Value.array (v :: vs)).chars =
        [91] ++ (Utf8.encode v.chars ++ Utf8.encode (Value.restItems vs)) := by
      rw [Value.chars, List.cons_append, encode_cons, Utf8.encode_append]
      rfl
    rw [he]
    exact (Ends.prepend hw (hr.prepend ht)).both _
  | .object [], _, _, _, hd, h => by
    have hw := open_object h (by simp only [Value.depth, Value.depthMembers] at hd; omega)
    exact Ends.both ⟨[123], 125, _, rfl, hw, ⟨_, rfl, rfl⟩, rfl⟩ _
  | .object ((k, v) :: ms), stack, _, hi, hd, h => by
    simp only [Value.integral, Value.integralMembers, Bool.and_eq_true] at hi
    simp only [Value.depth, Value.depthMembers] at hd
    have hw := open_object h (by omega)
    have hk : Walk room ⟨.firstKey, .object [] "" :: stack⟩ _ _ := walk_key ⟨_, rfl, rfl⟩ rfl k
    obtain ⟨t, ht, hb⟩ := (reads_value v hi.1 (by rw [List.length_cons]; omega)
      (ready_value (.object [] k :: stack))).1 (by simp)
    have hr := reads_members ms hi.2 (by omega) hb
    have he : Utf8.encode (Value.object ((k, v) :: ms)).chars = [123] ++ (Utf8.encode (quoteChars k ++ [':']) ++
        (Utf8.encode v.chars ++ Utf8.encode (Value.restMembers ms))) := by
      simp only [Value.chars, Utf8.encode_append, encode_cons, List.append_assoc, List.cons_append]
      rfl
    rw [he]
    exact (Ends.prepend hw ((hr.prepend ht).prepend hk)).both _

theorem reads_items : ∀ (vs : List Value) {rev : List Value} {stack : List Frame} {r : Reader},
    Value.integralItems vs = true → Value.depthItems vs + stack.length < room →
    Behind room (.array rev :: stack) r →
    Ends room r (Utf8.encode (Value.restItems vs)) (.array (rev.reverse ++ Value.normalItems vs)) stack
  | [], rev, stack, r, _, _, h => by
    refine ⟨[], 93, r, rfl, .nil r, h.isOpen, ?_⟩
    rw [h.step 93 (by simp), Value.normalItems, List.append_nil]
    rfl
  | v :: vs, rev, stack, r, hi, hd, h => by
    simp only [Value.integralItems, Bool.and_eq_true] at hi
    simp only [Value.depthItems] at hd
    have hw : Walk room r [44] ⟨.item, .array rev :: stack⟩ := .single h.isOpen (h.step 44 (by simp))
    obtain ⟨t, ht, hb⟩ := (reads_value v hi.1 (by rw [List.length_cons]; omega)
      (ready_item (.array rev :: stack))).1 (by simp)
    have hr := reads_items vs hi.2 (by omega) hb
    have he : Utf8.encode (Value.restItems (v :: vs)) =
        [44] ++ (Utf8.encode v.chars ++ Utf8.encode (Value.restItems vs)) := by
      rw [Value.restItems, List.cons_append, encode_cons, Utf8.encode_append]
      rfl
    rw [he, Value.normalItems, List.append_cons]
    rw [List.reverse_cons] at hr
    exact Ends.prepend hw (hr.prepend ht)

theorem reads_members : ∀ (ms : List (String × Value)) {members : List (String × Value)} {key : String}
    {stack : List Frame} {r : Reader}, Value.integralMembers ms = true →
    Value.depthMembers ms + stack.length < room → Behind room (.object members key :: stack) r →
    Ends room r (Utf8.encode (Value.restMembers ms)) (.object (Value.normalMembers members ms)) stack
  | [], members, key, stack, r, _, _, h =>
    ⟨[], 125, r, rfl, .nil r, h.isOpen, h.step 125 (by simp)⟩
  | (k, v) :: ms, members, key, stack, r, hi, hd, h => by
    simp only [Value.integralMembers, Bool.and_eq_true] at hi
    simp only [Value.depthMembers] at hd
    have hw : Walk room r [44] ⟨.key, .object members key :: stack⟩ :=
      .single h.isOpen (h.step 44 (by simp))
    have hk : Walk room ⟨.key, .object members key :: stack⟩ _ _ := walk_key ⟨_, rfl, rfl⟩ rfl k
    obtain ⟨t, ht, hb⟩ := (reads_value v hi.1 (by rw [List.length_cons]; omega)
      (ready_value (.object members k :: stack))).1 (by simp)
    have hr := reads_members ms hi.2 (by omega) hb
    have he : Utf8.encode (Value.restMembers ((k, v) :: ms)) = [44] ++ (Utf8.encode (quoteChars k ++ [':']) ++
        (Utf8.encode v.chars ++ Utf8.encode (Value.restMembers ms))) := by
      simp only [Value.restMembers, Utf8.encode_append, encode_cons, List.append_assoc, List.cons_append]
      rfl
    rw [he]
    exact Ends.prepend hw ((hr.prepend ht).prepend hk)

end

lemma ends_printed {v : Value} (hb : ¬ v.IsBare) (hi : v.integral = true) (hd : v.depth ≤ room) :
    Ends room {} (Utf8.ofText v.compact) v.normal [] := by
  rw [Utf8.ofText, Value.compact, String.toList_ofList]
  exact (reads_value v hi hd (ready_value [])).2 fun n hn => hb (hn ▸ trivial)

end Reader

variable {v : Value} {room : Nat}

theorem readValue_printed (hb : ¬ v.IsBare) (hi : v.integral = true) (hd : v.depth ≤ room) (rest : Bytes) :
    readValue room (Utf8.ofText v.compact ++ rest) = .ok (v.normal, rest) := by
  obtain ⟨front, b, t, he, hw, -, hs⟩ := Reader.ends_printed hb hi hd
  have hscan : Reader.scan room {} (front ++ b :: rest) = .done v.normal rest := by
    rw [Reader.scan_append, hw.scan]
    dsimp only
    rw [Reader.scan, hs]
    rfl
  rw [readValue, Reader.run_eq_scan, he, List.append_assoc, List.singleton_append, hscan]

theorem readValue_part (hb : ¬ v.IsBare) (hi : v.integral = true) (hd : v.depth ≤ room) {bs cs : Bytes}
    (h : bs ++ cs = Utf8.ofText v.compact) (hc : cs ≠ []) :
    ∃ f, readValue room bs = .error f ∧ f.isEnd = true := by
  obtain ⟨front, b, t, he, hw, ho, -⟩ := Reader.ends_printed hb hi hd
  obtain ⟨s, hs, f, hf, hend⟩ : ∃ s, Reader.scan room {} bs = .more s ∧ s.Open := by
    obtain ⟨ds, d, rfl⟩ := (List.eq_nil_or_concat cs).resolve_left hc
    have h : (bs ++ ds) ++ [d] = front ++ [b] := by simpa using h.trans he
    obtain ⟨rfl, -⟩ := List.append_inj' h rfl
    cases ds with
    | nil => exact ⟨t, by rw [← hw.scan, List.append_nil], ho⟩
    | cons c ds => exact hw.stop
  refine ⟨f, ?_, hend⟩
  rw [readValue, Reader.run_eq_scan, hs]
  dsimp only
  rw [hf]
  rfl

end SocketRpc.Json
