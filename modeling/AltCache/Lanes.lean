import Mathlib.Data.List.Basic
import Mathlib.Logic.Function.Basic

/-!
# One queue for many writers

Every writer offers one message at a time and puts it into a common queue when there is room;
one reader takes messages out. A monitor gives each message a meaning: `R s e t` says that `e`
may follow `s` and leads to `t`. What the reader has seen of a writer is led to what the writer
has said by the writer's messages on their way, whatever the others do meanwhile.
-/

namespace AltCache.Lanes

variable {ι σ ε : Type*} {R : σ → ε → σ → Prop}

/-- Messages lead a monitor from one state to another. -/
def Path (R : σ → ε → σ → Prop) : σ → List ε → σ → Prop
  | s, [], t => s = t
  | s, e :: messages, t => ∃ u, R s e u ∧ Path R u messages t

/-- Messages in a row lead through a state in between. -/
theorem path_append {s t : σ} {first second : List ε} :
    Path R s (first ++ second) t ↔ ∃ u, Path R s first u ∧ Path R u second t := by
  induction first generalizing s with
  | nil => exact ⟨fun h => ⟨s, rfl, h⟩, fun ⟨u, hsame, h⟩ => (show s = u from hsame) ▸ h⟩
  | cons e first ih =>
    constructor
    · rintro ⟨v, he, h⟩
      obtain ⟨u, hfirst, hsecond⟩ := ih.mp h
      exact ⟨u, ⟨v, he, hfirst⟩, hsecond⟩
    · rintro ⟨u, ⟨v, he, hfirst⟩, hsecond⟩
      exact ⟨v, he, ih.mpr ⟨u, hfirst, hsecond⟩⟩

/-- One message leads where its monitor says. -/
@[simp] theorem path_singleton {s t : σ} {e : ε} : Path R s [e] t ↔ R s e t :=
  ⟨fun ⟨_, he, hsame⟩ => hsame ▸ he, fun he => ⟨t, he, rfl⟩⟩

/-- The monitor that records every message. -/
def Records (s : List ε) (e : ε) (t : List ε) : Prop := t = s ++ [e]

/-- A record grows by the messages in between. -/
theorem path_records {s t messages : List ε} : Path Records s messages t ↔ t = s ++ messages := by
  induction messages generalizing s with
  | nil => exact ⟨fun h => by rw [List.append_nil]; exact h.symm, fun h => by
      rw [List.append_nil] at h; exact h.symm⟩
  | cons e messages ih =>
    rw [← List.singleton_append, ← List.append_assoc, ← ih]
    exact ⟨fun ⟨u, hu, h⟩ => (show u = s ++ [e] from hu) ▸ h, fun h => ⟨_, rfl, h⟩⟩

variable [DecidableEq ι]

/-- What is on its way from a writer: its messages in the queue, then the one it offers. -/
def underway (lane : ε → ι) (queue : List ε) (offered : ι → Option ε) (i : ι) : List ε :=
  queue.filter (lane · = i) ++ (offered i).toList

/-- Every lane leads from what the reader has seen to what its writer has said. -/
def InTransit (R : σ → ε → σ → Prop) (lane : ε → ι) (queue : List ε) (offered : ι → Option ε)
    (seen said : ι → σ) : Prop :=
  ∀ i, Path R (seen i) (underway lane queue offered i) (said i)

namespace InTransit

variable {lane : ε → ι} {queue : List ε} {offered : ι → Option ε} {seen said : ι → σ} {i : ι}
  {e : ε} {t : σ}

/-- At first there is nothing on its way. -/
theorem nil (lane : ε → ι) (seen : ι → σ) : InTransit R lane [] (fun _ => none) seen seen :=
  fun _ => rfl

/-- A writer that offers nothing offers a message. -/
theorem offer (h : InTransit R lane queue offered seen said) (hfree : offered i = none)
    (he : R (said i) e t) :
    InTransit R lane queue (Function.update offered i (some e)) seen
      (Function.update said i t) := by
  intro j
  by_cases hj : j = i
  · subst hj
    have hpath := h j
    rw [underway, hfree, Option.toList_none, List.append_nil] at hpath
    rw [underway, Function.update_self, Function.update_self]
    exact path_append.mpr ⟨said j, hpath, path_singleton.mpr he⟩
  · rw [underway, Function.update_of_ne hj, Function.update_of_ne hj]
    exact h j

/-- The message that is offered is put into the queue. -/
theorem put (h : InTransit R lane queue offered seen said) (he : offered i = some e)
    (hlane : lane e = i) :
    InTransit R lane (queue ++ [e]) (Function.update offered i none) seen said := by
  intro j
  by_cases hj : j = i
  · subst hj
    have hpath := h j
    rw [underway, he] at hpath
    rw [underway, Function.update_self, List.filter_append]
    simpa [hlane] using hpath
  · have hother : ¬ lane e = j := fun hsame => hj (hsame.symm.trans hlane)
    rw [underway, Function.update_of_ne hj, List.filter_append,
      List.filter_cons_of_neg (by simpa using hother), List.filter_nil, List.append_nil]
    exact h j

/-- A writer takes back what it offers. -/
theorem retract (h : InTransit R lane queue offered seen said) (i : ι) :
    ∃ t, InTransit R lane queue (Function.update offered i none) seen
      (Function.update said i t) := by
  obtain ⟨t, hqueued, -⟩ := path_append.mp (h i)
  refine ⟨t, fun j => ?_⟩
  by_cases hj : j = i
  · subst hj
    rw [underway, Function.update_self, Function.update_self, Option.toList_none, List.append_nil]
    exact hqueued
  · rw [underway, Function.update_of_ne hj, Function.update_of_ne hj]
    exact h j

/-- The reader takes the first message. -/
theorem take (h : InTransit R lane (e :: queue) offered seen said) :
    ∃ t, R (seen (lane e)) e t ∧
      InTransit R lane queue offered (Function.update seen (lane e) t) said := by
  have hpath := h (lane e)
  rw [underway, List.filter_cons_of_pos (by simp), List.cons_append] at hpath
  obtain ⟨t, he, hpath⟩ := hpath
  refine ⟨t, he, fun j => ?_⟩
  by_cases hj : j = lane e
  · subst hj
    rw [Function.update_self]
    exact hpath
  · have hpath := h j
    rw [underway, List.filter_cons_of_neg (by simpa using Ne.symm hj)] at hpath
    rw [Function.update_of_ne hj]
    exact hpath

end InTransit

end AltCache.Lanes
