import SocketRpc.Proofs.Json.Printing

/-!
Objects written in any way: what a text means by itself it means as a member too, and members may be
spelled with escapes, stand in any order and have blanks around them.
-/

namespace SocketRpc.Json

namespace Reader

variable {room : Nat} {r s : Reader} {b c : UInt8} {bs left text : Bytes} {stack base : List Frame} {v : Value}

def within (base : List Frame) (r : Reader) : Reader := { r with stack := r.stack ++ base }

def Grounded (r : Reader) : Prop :=
  r.stack ≠ [] ∨ match r.mode with
    | .value | .word _ _ | .number _ _ | .text _ => True
    | _ => False

def Step.Mirrors (base : List Frame) (b : UInt8) (t : Step) : Step → Prop
  | .more s => s.Grounded ∧ t = .more (s.within base)
  | .done v true => t = deliver v base
  | .done v false => t = endNumber base v b
  | .fail _ => True

lemma deliver_mirrors (v : Value) (stack : List Frame) :
    (deliver v (stack ++ base)).Mirrors base b (deliver v stack) := by
  rcases stack with _ | ⟨frame, stack⟩
  · rfl
  · cases frame <;> exact ⟨Or.inl (List.cons_ne_nil _ _), rfl⟩

lemma begin_mirrors (stack : List Frame) (c : UInt8) :
    (begin (room + base.length) (stack ++ base) c).Mirrors base b (begin room stack c) := by
  simp only [begin, openFrame, List.length_append, Nat.add_le_add_iff_right]
  repeat' split
  all_goals first | trivial | exact ⟨Or.inr trivial, rfl⟩ | exact ⟨Or.inl (List.cons_ne_nil _ _), rfl⟩

lemma separate_mirrors (hs : stack ≠ []) (c : UInt8) :
    (separate (stack ++ base) c).Mirrors base b (separate stack c) := by
  rcases stack with _ | ⟨frame, stack⟩
  · contradiction
  · cases frame <;> simp only [separate, List.cons_append] <;> repeat' split
    all_goals first | trivial | exact ⟨Or.inl (List.cons_ne_nil _ _), rfl⟩ | exact deliver_mirrors _ _

lemma endNumber_mirrors (stack : List Frame) (v : Value) :
    (endNumber (stack ++ base) v b).Mirrors base b (endNumber stack v b) := by
  rcases stack with _ | ⟨frame, stack⟩
  · rfl
  · cases frame with
    | array rev => exact separate_mirrors (List.cons_ne_nil (.array (v :: rev)) stack) b
    | object members key => exact separate_mirrors (List.cons_ne_nil (.object (insertMember key v members) "") stack) b

lemma step_mirrors (hr : r.Grounded) (b : UInt8) :
    (step (room + base.length) (r.within base) b).Mirrors base b (step room r b) := by
  obtain ⟨mode, stack⟩ := r
  have hb : (begin (room + base.length) (stack ++ base) b).Mirrors base b (begin room stack b) := begin_mirrors stack b
  cases mode with
  | value =>
    simp only [step, within]
    split
    · exact ⟨hr, rfl⟩
    · exact hb
  | word rest v =>
    cases rest with
    | nil => trivial
    | cons c rest =>
      simp only [step, within]
      repeat' split
      all_goals first | trivial | exact deliver_mirrors _ _
  | number negative s =>
    simp only [step, within]
    rcases s.step b with t | _ | f
    · exact ⟨Or.inr trivial, rfl⟩
    · rcases s.result negative with f | n
      · trivial
      · exact endNumber_mirrors _ _
    · trivial
  | text s =>
    simp only [step, within]
    rcases s.step b with t | t | f
    · exact ⟨Or.inr trivial, rfl⟩
    · exact deliver_mirrors _ _
    · trivial
  | keyText s =>
    obtain ⟨frame, stack, rfl⟩ := List.exists_cons_of_ne_nil (hr.resolve_right id)
    simp only [step, within]
    rcases s.step b with t | t | f
    · exact ⟨Or.inl (List.cons_ne_nil _ _), rfl⟩
    · cases frame <;> exact ⟨Or.inl (List.cons_ne_nil _ _), rfl⟩
    · trivial
  | after => exact separate_mirrors (hr.resolve_right id) b
  | _ =>
    obtain ⟨frame, stack, rfl⟩ := List.exists_cons_of_ne_nil (hr.resolve_right id)
    simp only [step, within]
    repeat' split
    all_goals first | trivial | exact ⟨Or.inl (List.cons_ne_nil _ _), rfl⟩ | exact hb | exact deliver_mirrors _ _

lemma scan_more_within (hr : r.Grounded) (h : scan room r bs = .more s) :
    s.Grounded ∧ scan (room + base.length) (r.within base) bs = .more (s.within base) := by
  induction bs generalizing r with
  | nil =>
    cases h
    exact ⟨hr, rfl⟩
  | cons b bs ih =>
    have hm := @step_mirrors room r base hr b
    rw [scan] at h ⊢
    rcases hs : step room r b with t | ⟨v, _ | _⟩ | f <;> rw [hs] at h hm
    · rw [hm.2]
      exact ih hm.1 h
    all_goals cases h

lemma endNumber_eq (hb : base ≠ []) (v : Value) (b : UInt8) :
    endNumber base v b = separate (delivered v base) b := by
  rw [endNumber, deliver_cons v hb]

lemma scan_done_within (hb : base ≠ []) (hr : r.Grounded) (h : scan room r bs = .done v left) :
    scan (room + base.length) (r.within base) bs =
      scan (room + base.length) ⟨.after, delivered v base⟩ left := by
  induction bs generalizing r with
  | nil => cases h
  | cons b bs ih =>
    have hm := @step_mirrors room r base hr b
    rw [scan] at h ⊢
    rcases hs : step room r b with t | ⟨w, _ | _⟩ | f <;> rw [hs] at h hm
    · rw [hm.2]
      exact ih hm.1 h
    · cases h
      rw [hm, endNumber_eq hb]
      rfl
    · cases h
      rw [hm, deliver_cons _ hb]
    · cases h

def Parts (b : UInt8) : Prop := isBlank b = true ∨ b = 44 ∨ b = 93 ∨ b = 125

def Fits (room : Nat) (base : List Frame) (text : Bytes) (v : Value) : Prop :=
  ∀ b rest, Parts b → scan room ⟨.value, base⟩ (text ++ b :: rest) = scan room ⟨.after, delivered v base⟩ (b :: rest)

lemma number_ended {s : NumberScan} (hc : s.isComplete = true) (hb : Parts b) : s.step b = .ended := by
  have hd : isDigit b = false ∧ b ≠ 46 ∧ isExponentMark b = false := by
    simp only [Parts, isBlank, isDigit, isExponentMark] at hb ⊢
    grind
  cases s <;> simp_all [NumberScan.isComplete, NumberScan.step, NumberScan.afterWhole, NumberScan.afterFraction]

lemma number_of_finish (h : r.finish = .ok v) : ∃ negative s n, r = ⟨.number negative s, []⟩ ∧
    s.isComplete = true ∧ s.result negative = .ok n ∧ v = .number n := by
  obtain ⟨mode, stack⟩ := r
  cases mode with
  | number negative s =>
    rw [finish] at h
    dsimp only at h
    split at h
    · split at h
      · cases h
      · split at h <;> cases h
        obtain rfl : stack = [] := ‹_›
        exact ⟨_, _, _, rfl, ‹_›, ‹_›, rfl⟩
    · cases h
  | _ => cases h

lemma scan_number {negative : Bool} {s : NumberScan} {n : Number} (hb : base ≠ []) (hc : s.isComplete = true)
    (hn : s.result negative = .ok n) (hp : Parts b) (rest : Bytes) :
    scan room ⟨.number negative s, base⟩ (b :: rest) =
      scan room ⟨.after, delivered (.number n) base⟩ (b :: rest) := by
  have hs : step room ⟨.number negative s, base⟩ b = separate (delivered (.number n) base) b := by
    simp only [step, number_ended hc hp, hn, endNumber_eq hb]
  rw [scan, hs]
  rfl

lemma fits_of_readValue (hb : base ≠ []) (h : readValue room text = .ok (v, [])) :
    Fits (room + base.length) base text v := by
  intro b rest hp
  have hr : ({} : Reader).Grounded := Or.inr trivial
  have hw : within base {} = ⟨.value, base⟩ := rfl
  rw [readValue, run_eq_scan] at h
  rw [scan_append, ← hw]
  rcases hs : scan room {} text with t | ⟨w, left⟩ | f <;> rw [hs] at h
  · rw [(scan_more_within hr hs).2]
    obtain ⟨w, hf⟩ : ∃ w, t.finish = .ok w := by
      rcases hf : t.finish with f | w
      · simp [hf, Except.map] at h
      · exact ⟨w, rfl⟩
    obtain ⟨negative, s, n, rfl, hc, hn, rfl⟩ := number_of_finish hf
    simp only [hf, Except.map, Except.ok.injEq, Prod.mk.injEq, and_true] at h
    subst h
    exact scan_number hb hc hn hp rest
  · cases h
    rw [scan_done_within hb hr hs]
    rfl
  · cases h

end Reader

/-- A member of an object as it is written: its key, the octets of its value, and what these are read as. -/
structure Entry where
  key : String
  text : Bytes
  value : Value

def Quotes (inner : Bytes) (k : String) : Prop := ∃ s, TextScan.reads {} inner = some s ∧ s.step 34 = .done k

inductive Spells (room : Nat) : Entry → Bytes → Prop
  | intro {e : Entry} {b₁ b₂ b₃ b₄ inner : Bytes} (hb : ∀ b ∈ b₁ ++ b₂ ++ b₃ ++ b₄, Reader.isBlank b = true)
      (hk : Quotes inner e.key) (hv : readValue room e.text = .ok (e.value, [])) :
      Spells room e (b₁ ++ 34 :: (inner ++ 34 :: (b₂ ++ 58 :: (b₃ ++ (e.text ++ b₄)))))

inductive SpellsAll (room : Nat) : List Entry → Bytes → Prop
  | last {e : Entry} {bs : Bytes} (h : Spells room e bs) : SpellsAll room [e] bs
  | cons {e : Entry} {es : List Entry} {bs cs : Bytes} (h : Spells room e bs) (hs : SpellsAll room es cs) :
      SpellsAll room (e :: es) (bs ++ 44 :: cs)

def Entry.all (es : List Entry) : Value := .ofMembers (es.map fun e => (e.key, e.value))

namespace Reader

variable {room : Nat} {r : Reader} {b : UInt8} {bs cs inner : Bytes} {k key : String} {e : Entry}
  {es : List Entry} {members : List (String × Value)} {mode : Mode} {v : Value}

lemma scan_blanks (hs : ∀ b, isBlank b = true → step room r b = .more r) (hb : ∀ b ∈ bs, isBlank b = true)
    (rest : Bytes) : scan room r (bs ++ rest) = scan room r rest := by
  induction bs with
  | nil => rfl
  | cons b bs ih =>
    rw [List.cons_append, scan, hs b (hb b List.mem_cons_self)]
    exact ih fun c hc => hb c (List.mem_cons_of_mem b hc)

lemma scan_key (hm : mode = .firstKey ∨ mode = .key) (hk : Quotes inner k) (rest : Bytes) :
    scan room ⟨mode, [.object members key]⟩ (34 :: (inner ++ 34 :: rest)) =
      scan room ⟨.colon, [.object members k]⟩ rest := by
  obtain ⟨s, hr, hd⟩ := hk
  have hq : step room ⟨mode, [.object members key]⟩ 34 = .more ⟨.keyText {}, [.object members key]⟩ := by
    rcases hm with rfl | rfl <;> rfl
  have he : step room ⟨.keyText s, [.object members key]⟩ 34 = .more ⟨.colon, [.object members k]⟩ := by
    simp only [step, hd, named]
  rw [scan, hq]
  dsimp only
  rw [scan_append, (walk_keyText hr).scan]
  dsimp only
  rw [scan, he]

lemma scan_colon (rest : Bytes) : scan room ⟨.colon, [.object members k]⟩ (58 :: rest) =
    scan room ⟨.value, [.object members k]⟩ rest := rfl

lemma Fits.blanks (h : Fits room [.object members k] bs v) (hb : ∀ b ∈ cs, isBlank b = true)
    (hp : b = 44 ∨ b = 125) (rest : Bytes) :
    scan room ⟨.value, [.object members k]⟩ (bs ++ (cs ++ b :: rest)) =
      scan room ⟨.after, [.object (insertMember k v members) ""]⟩ (b :: rest) := by
  have hs : scan room ⟨.after, [.object (insertMember k v members) ""]⟩ (cs ++ b :: rest) =
      scan room ⟨.after, [.object (insertMember k v members) ""]⟩ (b :: rest) :=
    scan_blanks (fun c hc => by simp only [step, separate, hc, if_true]) hb _
  rw [← hs]
  cases cs with
  | nil => exact h b rest (Or.inr (hp.imp_right Or.inr))
  | cons c cs => exact h c _ (Or.inl (hb c List.mem_cons_self))

lemma scan_entry (hm : mode = .firstKey ∨ mode = .key) (h : Spells room e bs)
    (hp : b = 44 ∨ b = 125) (rest : Bytes) :
    scan (room + 1) ⟨mode, [.object members key]⟩ (bs ++ b :: rest) =
      scan (room + 1) ⟨.after, [.object (insertMember e.key e.value members) ""]⟩ (b :: rest) := by
  obtain ⟨hb, hk, hv⟩ := h
  simp only [List.forall_mem_append] at hb
  obtain ⟨⟨⟨h₁, h₂⟩, h₃⟩, h₄⟩ := hb
  have hn : [Frame.object members e.key] ≠ [] := List.cons_ne_nil _ _
  have hf : Fits (room + 1) [.object members e.key] e.text e.value := fits_of_readValue hn hv
  simp only [List.append_assoc, List.cons_append]
  rw [scan_blanks (fun c hc => by rcases hm with rfl | rfl <;> simp only [step, hc, if_true]) h₁, scan_key hm hk,
    scan_blanks (fun c hc => by simp only [step, hc, if_true]) h₂, scan_colon,
    scan_blanks (fun c hc => by simp only [step, hc, if_true]) h₃]
  exact hf.blanks h₄ hp rest

lemma scan_entries (hm : mode = .firstKey ∨ mode = .key) (h : SpellsAll room es bs) (rest : Bytes) :
    scan (room + 1) ⟨mode, [.object members key]⟩ (bs ++ 125 :: rest) =
      .done (.object (es.foldl (fun ms e => insertMember e.key e.value ms) members)) rest := by
  induction h generalizing members key mode with
  | last h => rw [scan_entry hm h (Or.inr rfl)]; rfl
  | cons h _ ih =>
    rw [List.append_assoc, List.cons_append, scan_entry hm h (Or.inl rfl)]
    exact ih (Or.inr rfl)

end Reader

variable {room : Nat} {es : List Entry} {bs : Bytes}

lemma SpellsAll.reads (h : SpellsAll room es bs) {e : Entry} (he : e ∈ es) :
    readValue room e.text = .ok (e.value, []) := by
  induction h with
  | last h =>
    obtain ⟨-, -, hv⟩ := h
    exact List.mem_singleton.mp he ▸ hv
  | cons h _ ih =>
    rcases List.mem_cons.mp he with rfl | he
    · obtain ⟨-, -, hv⟩ := h
      exact hv
    · exact ih he

theorem readValue_spelled (h : SpellsAll room es bs) (rest : Bytes) :
    readValue (room + 1) (123 :: (bs ++ 125 :: rest)) = .ok (Entry.all es, rest) := by
  have hs : Reader.scan (room + 1) {} (123 :: (bs ++ 125 :: rest)) =
      Reader.scan (room + 1) ⟨.firstKey, [.object [] ""]⟩ (bs ++ 125 :: rest) := rfl
  rw [readValue, Reader.run_eq_scan, hs, Reader.scan_entries (Or.inl rfl) h, Entry.all, Value.ofMembers,
    List.foldl_map]

namespace Reader

lemma scan_digits {room n : Nat} (h0 : 0 < n) (hn : n ≤ NumberScan.significandLimit) :
    scan room {} (Utf8.encode (Nat.toDigits 10 n)) = .more ⟨.number false (.whole n), []⟩ := by
  refine digits_induction (motive := fun n bs => n ≤ NumberScan.significandLimit →
    scan room {} bs = .more ⟨.number false (.whole n), []⟩)
    (fun d h0 hd _ => ?_) (fun n d bs _ hd ih hn => ?_) h0 hn
  · obtain ⟨-, hi, -⟩ := digit_octet d hd
    have hs : step room {} (48 + d).toUInt8 = .more ⟨.number false (.whole d), []⟩ := by
      have hb := (@ready_value room []).step _ (digit_apart hi).1 (digit_apart hi).2.1
      rw [show ({} : Reader) = ⟨.value, []⟩ from rfl, hb, begin_digit hi]
      simp only [step, sign_digit h0 hd]
    rw [scan, hs]
    rfl
  · rw [scan_append, ih (by omega)]
    dsimp only
    simp only [scan, step, whole_digit hd hn]

end Reader

lemma readValue_number {room n : Nat} (hn : n ≤ NumberScan.significandLimit) :
    readValue room (Utf8.ofText (Value.ofNat n).compact) = .ok (.ofNat n, []) := by
  have hc : (Value.ofNat n).chars = Nat.toDigits 10 n := by
    simp [Value.ofNat, Value.chars, Number.chars]
  rw [Utf8.ofText, Value.compact, String.toList_ofList, hc, readValue, Reader.run_eq_scan]
  rcases Nat.eq_zero_or_pos n with rfl | h0
  · rfl
  · rw [Reader.scan_digits h0 hn]
    rfl

variable {α : Type} {k j : String} {a : α} {ms : List (String × α)} {v : Value}

lemma findMember_insertMember (k j : String) (a : α) (ms : List (String × α)) :
    findMember j (insertMember k a ms) = if k = j then some a else findMember j ms := by
  induction ms with
  | nil => rfl
  | cons e ms ih => grind [insertMember, findMember]

lemma mem_keys_insertMember (h : j ∈ (insertMember k a ms).map Prod.fst) : j = k ∨ j ∈ ms.map Prod.fst := by
  induction ms with
  | nil => simpa [insertMember] using h
  | cons e ms ih => grind [insertMember]

lemma pairwise_insertMember (h : (ms.map Prod.fst).Pairwise (· < ·)) (k : String) (a : α) :
    ((insertMember k a ms).map Prod.fst).Pairwise (· < ·) := by
  induction ms with
  | nil => simp [insertMember]
  | cons e ms ih =>
    obtain ⟨j, b⟩ := e
    rw [List.map_cons, List.pairwise_cons] at h
    obtain ⟨hj, hms⟩ := h
    rw [insertMember]
    split
    · rename_i hlt
      refine List.pairwise_cons.mpr ⟨fun i hi => ?_, List.pairwise_cons.mpr ⟨hj, hms⟩⟩
      rcases List.mem_cons.mp hi with rfl | hi
      · exact hlt
      · exact String.lt_trans hlt (hj i hi)
    · split
      · rename_i he
        subst he
        exact List.pairwise_cons.mpr ⟨hj, hms⟩
      · rename_i hlt hne
        refine List.pairwise_cons.mpr ⟨fun i hi => ?_, ih hms⟩
        rcases mem_keys_insertMember hi with rfl | hi
        · exact Decidable.byContradiction fun hn =>
            hne (String.le_antisymm (String.not_lt.mp hn) (String.not_lt.mp hlt))
        · exact hj i hi

lemma pairwise_foldl (h : (ms.map Prod.fst).Pairwise (· < ·)) (es : List (String × α)) :
    ((es.foldl (fun acc e => insertMember e.1 e.2 acc) ms).map Prod.fst).Pairwise (· < ·) := by
  induction es generalizing ms with
  | nil => exact h
  | cons e es ih => exact ih (pairwise_insertMember h e.1 e.2)

lemma findMember_foldl {es : List (String × α)} (hv : ∀ e ∈ es, e.1 = k → e.2 = a)
    (h : findMember k ms = some a ∨ ∃ e ∈ es, e.1 = k) :
    findMember k (es.foldl (fun acc e => insertMember e.1 e.2 acc) ms) = some a := by
  induction es generalizing ms with
  | nil => exact h.resolve_right nofun
  | cons e es ih =>
    refine ih (fun e he => hv e (List.mem_cons_of_mem _ he)) ?_
    rw [findMember_insertMember]
    by_cases hk : e.1 = k
    · rw [if_pos hk, hv e List.mem_cons_self hk]
      exact .inl rfl
    · rw [if_neg hk]
      exact h.imp_right fun ⟨d, hd, hdk⟩ =>
        ⟨d, (List.mem_cons.mp hd).resolve_left fun hde => hk (hde ▸ hdk), hdk⟩

lemma Entry.all_eq (es : List Entry) :
    ∃ ms, Entry.all es = .object ms ∧ (ms.map Prod.fst).Nodup ∧
      ∀ k v, (∀ e ∈ es, e.key = k → e.value = v) → (∃ e ∈ es, e.key = k) → findMember k ms = some v := by
  have hn : (([] : List (String × Value)).map Prod.fst).Pairwise (· < ·) := .nil
  have hd := (pairwise_foldl hn (es.map fun e => (e.key, e.value))).imp fun {a b} (h : a < b) (he : a = b) =>
    String.lt_irrefl b (he ▸ h)
  refine ⟨_, rfl, hd, fun k v hv he => ?_⟩
  obtain ⟨e, he, hk⟩ := he
  refine findMember_foldl (fun d hd hdk => ?_) (.inr ⟨_, List.mem_map_of_mem he, hk⟩)
  obtain ⟨d, hm, rfl⟩ := List.mem_map.mp hd
  exact hv d hm hdk

end SocketRpc.Json
