import SocketRpc.Proofs.Framing.Messages
import SocketRpc.Text.Utf8

namespace SocketRpc.Framer

open Json (Value)

/-- `next` gives `vs`, one by one, then nothing more. -/
inductive Yields : Framer → List Value → Framer → Prop
  | rest {f g} : f.next = (.ok none, g) → Yields f [] g
  | value {f g h v vs} : f.next = (.ok (some v), g) → Yields g vs h → Yields f (v :: vs) h

/-- Each chunk is pushed, and what there is then is taken before the next one comes. -/
inductive Fed : Framer → List Bytes → List Value → Framer → Prop
  | nil {f} : Fed f [] [] f
  | cons {f g h c cs vs ws} : Yields (f.push c) vs g → Fed g cs ws h → Fed f (c :: cs) (vs ++ ws) h

variable {f g : Framer} {vs : List Value} {cs : List Bytes}

namespace Yields

lemma iff_messages : Yields f vs g ↔ f.messages = (vs, none, g) := by
  constructor
  · intro hy
    induction hy with
    | rest hn => exact messages_of_none hn
    | value hn _ ih => rw [messages_of_some hn, ih]
  · intro hm
    induction f using messages_induction generalizing vs with
    | some f v f' hn ih =>
      rw [messages_of_some hn] at hm
      simp only [Prod.mk.injEq] at hm
      obtain ⟨rfl, hm⟩ := hm
      exact value hn (ih (by rw [← hm]))
    | none f f' hn =>
      rw [messages_of_none hn] at hm
      simp only [Prod.mk.injEq, true_and] at hm
      obtain ⟨rfl, rfl⟩ := hm
      exact rest hn
    | error f m f' hn => simp [messages_of_error hn] at hm

lemma drain (hy : Yields f vs g) : f.drain = (.ok vs, g) := by
  rw [Framer.drain, iff_messages.mp hy]

end Yields

lemma Fed.iff_feed : Fed f cs vs g ↔ f.feed cs = (vs, [], g) := by
  constructor
  · intro hf
    induction hf with
    | nil => rfl
    | cons hy _ ih =>
      rw [Framer.feed, Yields.iff_messages.mp hy]
      simp [ih]
  · intro hf
    induction cs generalizing f vs with
    | nil =>
      simp only [Framer.feed, Prod.mk.injEq, true_and] at hf
      obtain ⟨rfl, rfl⟩ := hf
      exact nil
    | cons c cs ih =>
      rcases hm : (f.push c).messages with ⟨us, _ | m, k⟩
      · simp only [Framer.feed, hm, Option.isSome_none, Bool.false_eq_true, if_false, Option.toList_none,
          List.nil_append, Prod.mk.injEq] at hf
        obtain ⟨rfl, hs, hg⟩ := hf
        exact cons (Yields.iff_messages.mpr hm) (ih (by rw [← hs, ← hg]))
      · simp [Framer.feed, hm] at hf

/-- All the chunks at once yield what they yield one after another, and leave the same behind. -/
theorem yields_of_fed (hf : f.next = (.ok none, f)) (hc : Fed f cs vs g)
    (hv : ∀ v ∈ vs, ¬ v.IsBare) :
    Yields (f.push cs.flatten) vs g ∧ (f.push cs.flatten).drain = (.ok vs, g) := by
  have hs : f.feed cs = (vs, [], g) := Fed.iff_feed.mp hc
  have hm : (f.push cs.flatten).messages = ((f.feed cs).1, none, (f.feed cs).2.2) :=
    feed_eq_messages (messages_of_none hf) (by rw [hs]) (by rwa [hs])
  rw [hs] at hm
  have hy := Yields.iff_messages.mpr hm
  exact ⟨hy, hy.drain⟩

theorem yields_of_fed_cut :
    Yields (push {} (Utf8.ofText " [\"\\u00e9é\"] \x7b\"n\":12")) [.array [.text "éé"]]
        ⟨Utf8.ofText "\x7b\"n\":12"⟩ ∧
      (push {} (Utf8.ofText " [\"\\u00e9é\"] \x7b\"n\":12")).drain =
        (.ok [.array [.text "éé"]], ⟨Utf8.ofText "\x7b\"n\":12"⟩) := by
  have hc : [Utf8.ofText " [\"\\u00", Utf8.ofText "e9" ++ [195],
      169 :: Utf8.ofText "\"] \x7b\"n\":1", [50]].flatten =
      Utf8.ofText " [\"\\u00e9é\"] \x7b\"n\":12" := by decide +kernel
  rw [← hc]
  exact yields_of_fed rfl (Fed.iff_feed.mpr (by decide +kernel)) (by decide +kernel)

end SocketRpc.Framer
