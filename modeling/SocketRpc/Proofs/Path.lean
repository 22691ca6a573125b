import Mathlib.Data.List.Basic
import Mathlib.Tactic.Lemma
import SocketRpc.Path

/-! Where a path leads, component by component: to itself, below the home directory or below the working directory. -/

namespace SocketRpc.Path

inductive Component where
  | root
  | here
  | above
  | name (cs : List Char)
deriving Repr, DecidableEq

def Component.ofSegment? : List Char → Option Component
  | [] | ['.'] => none
  | ['.', '.'] => some .above
  | cs => some (.name cs)

def Component.tilde : Component := .name ['~']

def steps (cs : List Char) : List Component := (cs.splitOn '/').filterMap Component.ofSegment?

def start (cs : List Char) : List Component :=
  if cs.head? = some '/' then [.root]
  else if (cs.splitOn '/').head? = some ['.'] then [.here]
  else []

def components (p : Path) : List Component := start p.chars ++ steps p.chars

variable {p q : Path} {cs : List Char}

lemma steps_append_slash (cs ds : List Char) : steps (cs ++ '/' :: ds) = steps cs ++ steps ds := by
  rw [steps, List.splitOn_append_cons_self, List.filterMap_append]
  rfl

@[simp] lemma steps_nil : steps [] = [] := rfl

lemma steps_slash (cs : List Char) : steps ('/' :: cs) = steps cs := steps_append_slash [] cs

lemma steps_dot_slash (cs : List Char) : steps ('.' :: '/' :: cs) = steps cs :=
  steps_append_slash ['.'] cs

lemma start_append_slash (h : cs ≠ []) (ds : List Char) : start (cs ++ '/' :: ds) = start cs := by
  have hs : ((cs ++ '/' :: ds).splitOn '/').head? = (cs.splitOn '/').head? := by
    rw [List.splitOn_append_cons_self, List.head?_append_of_ne_nil _ (List.splitOn_ne_nil _ _)]
  rw [start, start, hs, List.head?_append_of_ne_nil _ h]

lemma components_join (hp : p.chars ≠ []) (hq : q.isAbsolute = false) :
    (p.join q).components = p.components ++ steps q.chars := by
  rw [join, if_neg (by simp [hq])]
  split
  · rename_i h
    obtain ⟨ds, hds⟩ := List.getLast?_eq_some_iff.mp (h.resolve_left hp)
    simp only [components, hds, List.append_assoc, List.singleton_append, steps_append_slash,
      steps_nil, List.append_nil]
    cases ds with
    | nil => rfl
    | cons d ds => simp only [start_append_slash (List.cons_ne_nil d ds)]
  · simp only [components, start_append_slash hp, steps_append_slash, List.append_assoc]

lemma chars_ne_nil (h : p.isAbsolute = true) : p.chars ≠ [] := by
  intro hn
  simp [isAbsolute, hn] at h

lemma join_absolute (p : Path) (hq : q.isAbsolute = true) : p.join q = q := if_pos hq

lemma isAbsolute_join (hp : p.isAbsolute = true) (q : Path) : (p.join q).isAbsolute = true := by
  unfold join
  split
  · assumption
  · split <;>
    · rw [isAbsolute, List.head?_append_of_ne_nil _ (chars_ne_nil hp)]
      exact hp

lemma dropIdle_suffix (cs : List Char) : dropIdle cs <:+ cs := by
  fun_induction dropIdle cs with
  | case1 rest ih => exact ih.trans (List.suffix_cons _ _)
  | case2 rest ih => exact ih.trans ((List.suffix_cons _ _).trans (List.suffix_cons _ _))
  | case3 => exact List.nil_suffix
  | case4 => exact List.suffix_rfl

lemma dropIdle_head (cs : List Char) : (dropIdle cs).head? ≠ some '/' := by
  fun_induction dropIdle cs with
  | case1 rest ih => exact ih
  | case2 rest ih => exact ih
  | case3 => simp
  | case4 cs h =>
    cases cs with
    | nil => simp
    | cons c cs =>
      intro hc
      simp only [List.head?_cons, Option.some.injEq] at hc
      subst hc
      exact h _ rfl

lemma steps_dropIdle (cs : List Char) : steps (dropIdle cs) = steps cs := by
  fun_induction dropIdle cs with
  | case1 rest ih => rw [ih, steps_slash]
  | case2 rest ih => rw [ih, steps_dot_slash]
  | case3 => rfl
  | case4 => rfl

lemma steps_dropIdle_reverse (cs : List Char) : steps (dropIdle cs).reverse = steps cs.reverse := by
  fun_induction dropIdle cs with
  | case1 rest ih => rw [ih, List.reverse_cons, steps_append_slash, steps_nil, List.append_nil]
  | case2 rest ih =>
    have hdot : steps ['.'] = [] := rfl
    rw [ih, List.reverse_cons, List.reverse_cons, List.append_assoc, List.singleton_append,
      steps_append_slash, hdot, List.append_nil]
  | case3 => rfl
  | case4 => rfl

lemma steps_trimIdle (cs : List Char) : steps (trimIdle cs) = steps cs := by
  rw [trimIdle, steps_dropIdle_reverse, List.reverse_reverse, steps_dropIdle]

lemma trimIdle_relative (cs : List Char) : isAbsolute ⟨trimIdle cs⟩ = false := by
  have hp : trimIdle cs <+: dropIdle cs := by
    rw [trimIdle, ← List.reverse_suffix, List.reverse_reverse]
    exact dropIdle_suffix _
  simp only [isAbsolute, decide_eq_false_iff_not]
  intro h
  obtain ⟨ds, hds⟩ := hp
  refine dropIdle_head cs ?_
  rw [← hds, List.head?_append, h]
  rfl

lemma belowHome?_eq_some (h : p.belowHome? = some q) :
    p.components = .tilde :: steps q.chars ∧ q.isAbsolute = false := by
  obtain ⟨cs⟩ := p
  rw [belowHome?] at h
  split at h
  · rename_i hc
    cases h
    obtain rfl : cs = ['~'] := hc
    exact ⟨rfl, rfl⟩
  · rename_i rest hc
    cases h
    obtain rfl : cs = '~' :: '/' :: rest := hc
    refine ⟨?_, trimIdle_relative rest⟩
    have hs : start ('~' :: '/' :: rest) = [] := @start_append_slash ['~'] (by simp) rest
    have ht : steps ('~' :: '/' :: rest) = .tilde :: steps rest := steps_append_slash ['~'] rest
    rw [components, hs, ht, steps_trimIdle, List.nil_append]
  · cases h

lemma components_segment (hn : cs ≠ []) (hs : '/' ∉ cs) :
    ∃ k, components ⟨cs⟩ = [k] ∧ (k = .tilde → cs = ['~']) := by
  have hsplit : cs.splitOn '/' = [cs] := List.splitOn_eq_singleton hs
  have hhead : cs.head? ≠ some '/' := fun h => hs (List.mem_of_mem_head? h)
  have hstart : start cs = if cs = ['.'] then [.here] else [] := by
    rw [start, if_neg hhead, hsplit, List.head?_cons]
    simp only [Option.some.injEq]
  have hsteps : steps cs = [cs].filterMap Component.ofSegment? := by rw [steps, hsplit]
  by_cases h1 : cs = ['.']
  · subst h1
    exact ⟨.here, rfl, by simp [Component.tilde]⟩
  by_cases h2 : cs = ['.', '.']
  · subst h2
    exact ⟨.above, rfl, by simp [Component.tilde]⟩
  · have hseg : Component.ofSegment? cs = some (.name cs) := by
      grind [Component.ofSegment?]
    refine ⟨.name cs, ?_, by simp [Component.tilde]⟩
    rw [components, hstart, if_neg h1, hsteps, List.filterMap_cons_some hseg]
    rfl

lemma belowHome?_isSome (h : p.components.head? = some .tilde) : ∃ q, p.belowHome? = some q := by
  obtain ⟨cs⟩ := p
  by_cases hs : '/' ∈ cs
  · obtain ⟨xs, ys, rfl, hx⟩ := List.eq_append_cons_of_mem hs
    by_cases hn : xs = []
    · subst hn
      cases h
    · obtain ⟨k, hk, ht⟩ := components_segment hn hx
      have hc : components ⟨xs ++ '/' :: ys⟩ = k :: steps ys := by
        rw [components, start_append_slash hn, steps_append_slash, ← List.append_assoc]
        exact congrArg (· ++ steps ys) hk
      rw [hc] at h
      rw [ht (by simpa using h)]
      exact ⟨_, rfl⟩
  · by_cases hn : cs = []
    · subst hn
      cases h
    · obtain ⟨k, hk, ht⟩ := components_segment hn hs
      rw [hk] at h
      rw [ht (by simpa using h)]
      exact ⟨_, rfl⟩

lemma belowHome?_eq_none (h : p.components.head? ≠ some .tilde) : p.belowHome? = none := by
  cases hb : p.belowHome? with
  | none => rfl
  | some q =>
    rw [(belowHome?_eq_some hb).1] at h
    exact absurd rfl h

lemma belowHome?_absolute (h : p.isAbsolute = true) : p.belowHome? = none := by
  apply belowHome?_eq_none
  have hs : p.chars.head? = some '/' := by simpa [isAbsolute] using h
  simp [components, start, hs, Component.tilde]

lemma expand_of_none (w : Place) (h : p.belowHome? = none) : p.expand w = p := by
  rw [expand, h]

lemma resolve_of_absolute (w : Place) (h : p.isAbsolute = true) : p.resolve w = p := by
  rw [resolve, expand_of_none w (belowHome?_absolute h), join_absolute _ h]

lemma knownHome_eq {w : Place} {home : Path} (h : w.home = some home) (ha : home.isAbsolute = true) :
    w.knownHome = some home := by
  simp [Place.knownHome, h, chars_ne_nil ha]

lemma components_resolve_home {w : Place} {home : Path} (h : w.home = some home)
    (ha : home.isAbsolute = true) (hp : p.components.head? = some .tilde) :
    (p.resolve w).components = home.components ++ p.components.tail := by
  obtain ⟨q, hq⟩ := belowHome?_isSome hp
  obtain ⟨hc, hr⟩ := belowHome?_eq_some hq
  have he : p.expand w = home.join q := by
    rw [expand, hq, knownHome_eq h ha]
  rw [resolve, he, join_absolute _ (isAbsolute_join ha q), components_join (chars_ne_nil ha) hr, hc]
  rfl

/-- A path resolves to an absolute one, which is kept by resolving as any absolute path is. A path
below `~` leads from the home directory on, and no other depends on it. -/
theorem resolve_absolute (w : Place) (hw : w.cwd.isAbsolute = true) (p : Path) :
    (p.resolve w).isAbsolute = true ∧
      (∀ w', (p.resolve w).resolve w' = p.resolve w) ∧
      (p.isAbsolute = true → p.resolve w = p) ∧
      (∀ home, w.home = some home → home.isAbsolute = true → p.components.head? = some .tilde →
        (p.resolve w).components = home.components ++ p.components.tail) ∧
      (p.components.head? ≠ some .tilde → p.resolve w = w.cwd.join p) := by
  have ha : (p.resolve w).isAbsolute = true := isAbsolute_join hw _
  refine ⟨ha, fun w' => resolve_of_absolute w' ha, resolve_of_absolute w,
    fun home h hh hp => components_resolve_home h hh hp, fun hp => ?_⟩
  rw [resolve, expand_of_none w (belowHome?_eq_none hp)]

theorem resolve_absolute_tilde :
    let w : Place := ⟨some (ofText "/home/ann/"), ofText "/srv"⟩
    let p := ofText "~//./node/../geth.ipc/."
    w.cwd.isAbsolute = true ∧ p.components.head? = some .tilde ∧
      (p.resolve w).components = (ofText "/home/ann/").components ++ p.components.tail ∧
      p.resolve w = ofText "/home/ann/node/../geth.ipc" :=
  ⟨by decide, by decide,
    (resolve_absolute ⟨some (ofText "/home/ann/"), ofText "/srv"⟩ (by decide)
      (ofText "~//./node/../geth.ipc/.")).2.2.2.1 _ rfl (by decide) (by decide),
    by decide⟩

example : (ofText "~ann/geth.ipc").resolve ⟨some (ofText "/home/ann"), ofText "/srv"⟩ =
    ofText "/srv/~ann/geth.ipc" := by
  decide

end SocketRpc.Path
