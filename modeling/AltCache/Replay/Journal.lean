import AltCache.Replay.Chain
import AltCache.Replay.Staging

/-!
# The version-filtered journal

A staging engine that keeps a write only if it is newer than every write of its key kept
before. The accepted writes of one key then have strictly increasing tags, so releasing
them slot by slot never reorders a key, and the last applied write of a key is its newest
delivered write up to the confirmed slot, whatever order the calls arrived in.
-/

namespace AltCache.Replay

variable {κ β : Type*} [DecidableEq κ]

/-- A staging engine whose accepted writes have strictly increasing tags per key. -/
structure Journal (κ β : Type*) [DecidableEq κ] extends Staging κ β where
  increasing : ∀ k, (ofKey k toStaging.accepted).Pairwise (fun a b => a.tag < b.tag)

namespace Journal

open Staging (mem_accepted_advance)

/-- The journal before any call. -/
def empty (floor confirmed : ℕ) : Journal κ β where
  toStaging := .empty floor confirmed
  increasing _ := List.Pairwise.nil

/-- The empty journal over a base state read at slot `c`. -/
def start (c : ℕ) : Journal κ β := empty c c

/-- Stage a write if it is admissible. -/
def queue (j : Journal κ β) (w : Write κ β) : Journal κ β :=
  if h : Admissible j.floor j.accepted w then
    { toStaging := j.push w h.1
      increasing := fun k => by
        change (ofKey k (j.applied ++ (j.staged ++ [w]))).Pairwise _
        rw [← List.append_assoc, ofKey_append, ofKey_singleton]
        split
        · next hk =>
          refine List.pairwise_append.mpr
            ⟨j.increasing k, List.pairwise_singleton _ _, fun a ha b hb => ?_⟩
          rw [List.mem_singleton.mp hb]
          obtain ⟨ha, hak⟩ := mem_ofKey.mp ha
          exact h.2 a ha (hak.trans hk.symm)
        · rw [List.append_nil]
          exact j.increasing k }
  else j

/-- The staged writes of one key are already in slot order. -/
theorem ofKey_staged_pairwise (j : Journal κ β) (k : κ) :
    (ofKey k j.staged).Pairwise (fun a b => a.slot ≤ b.slot) := by
  have h := j.increasing k
  rw [Staging.accepted, ofKey_append] at h
  exact (List.pairwise_append.mp h).2.1.imp fun hab => Write.slot_le_of_tag_le hab.le

/-- Advancing the confirmed slot changes no key's accepted sequence. -/
theorem ofKey_accepted_advance (j : Journal κ β) (s : ℕ) (h : j.confirmed ≤ s) (k : κ) :
    ofKey k (j.toStaging.advance s h).accepted = ofKey k j.accepted := by
  change ofKey k ((j.applied ++ bySlot Write.slot (j.staged.filter (·.slot ≤ s))) ++
    j.staged.filter (s < ·.slot)) = ofKey k (j.applied ++ j.staged)
  rw [List.append_assoc, ofKey_append, ofKey_append,
    Staging.ofKey_release (j.ofKey_staged_pairwise k), ofKey_filter,
    filter_le_append_filter_gt (j.ofKey_staged_pairwise k), ofKey_append]

/-- Apply everything staged up to slot `s` and take `s` as the confirmed slot. -/
def advance (j : Journal κ β) (s : ℕ) (h : j.confirmed ≤ s) : Journal κ β where
  toStaging := j.toStaging.advance s h
  increasing k := (j.ofKey_accepted_advance s h k).symm ▸ j.increasing k

/-- A confirmation acts only when it raises the confirmed slot. -/
def confirm (j : Journal κ β) (s : ℕ) : Journal κ β :=
  if h : j.confirmed < s then j.advance s h.le else j

/-- Apply late writes of slots that are already confirmed. -/
def settle (j : Journal κ β) : Journal κ β := j.advance j.confirmed le_rfl

/-- Perform one call. -/
def call (j : Journal κ β) : Call κ β → Journal κ β
  | .queue w => j.queue w
  | .confirm s => j.confirm s
  | .settle => j.settle

/-- Perform calls in order. -/
def run (j : Journal κ β) (calls : List (Call κ β)) : Journal κ β := calls.foldl call j

@[simp] theorem run_nil (j : Journal κ β) : j.run [] = j := rfl

@[simp] theorem run_cons (j : Journal κ β) (c : Call κ β) (calls : List (Call κ β)) :
    j.run (c :: calls) = (j.call c).run calls := rfl

@[simp] theorem run_append (j : Journal κ β) (first second : List (Call κ β)) :
    j.run (first ++ second) = (j.run first).run second :=
  List.foldl_append

@[simp] theorem run_singleton (j : Journal κ β) (c : Call κ β) : j.run [c] = j.call c := rfl

/-- The journal's confirmation is the engine's. -/
@[simp] theorem toStaging_confirm (j : Journal κ β) (s : ℕ) :
    (j.confirm s).toStaging = j.toStaging.confirm s := by
  unfold confirm Staging.confirm
  split <;> rfl

@[simp] theorem toStaging_settle (j : Journal κ β) : j.settle.toStaging = j.toStaging.settle := rfl

@[simp] theorem floor_queue (j : Journal κ β) (w : Write κ β) : (j.queue w).floor = j.floor := by
  unfold queue; split <;> rfl

@[simp] theorem confirmed_queue (j : Journal κ β) (w : Write κ β) :
    (j.queue w).confirmed = j.confirmed := by
  unfold queue; split <;> rfl

/-- The floor never moves. -/
@[simp] theorem floor_run (j : Journal κ β) (calls : List (Call κ β)) :
    (j.run calls).floor = j.floor := by
  induction calls using List.reverseRecOn with
  | nil => rfl
  | append_singleton calls c ih =>
    rw [run_append, run_singleton, ← ih]
    cases c with
    | queue w => exact floor_queue _ w
    | confirm s => exact (congrArg Staging.floor (toStaging_confirm _ s)).trans (by simp)
    | settle => rfl

/-- The confirmed slot is the largest one confirmed. -/
@[simp] theorem confirmed_run (j : Journal κ β) (calls : List (Call κ β)) :
    (j.run calls).confirmed = confirmedBy j.confirmed calls := by
  induction calls using List.reverseRecOn with
  | nil => rfl
  | append_singleton calls c ih =>
    rw [run_append, run_singleton, confirmedBy_append, ← ih]
    cases c with
    | queue w => exact confirmed_queue _ w
    | confirm s =>
      exact (congrArg Staging.confirmed (toStaging_confirm _ s)).trans
        (Staging.confirmed_confirm _ s)
    | settle => rfl

/-- Admitting a write appends it to the accepted writes. -/
theorem accepted_queue (j : Journal κ β) (w : Write κ β) :
    (j.queue w).accepted =
      if Admissible j.floor j.accepted w then j.accepted ++ [w] else j.accepted := by
  unfold queue
  split
  · exact (List.append_assoc ..).symm
  · rfl

/-- A confirmation changes no key's accepted sequence. -/
theorem ofKey_accepted_confirm (j : Journal κ β) (s : ℕ) (k : κ) :
    ofKey k (j.confirm s).accepted = ofKey k j.accepted := by
  unfold confirm
  split
  · next h => exact j.ofKey_accepted_advance s h.le k
  · rfl

/-- Each key's accepted writes are those admitted from deliveries. -/
def AdmitsFrom (j : Journal κ β) (deliveries : List (Write κ β)) : Prop :=
  ∀ k, ofKey k j.accepted = ofKey k (admitted j.floor deliveries)

/-- One more delivery is admitted as the journal accepts it. -/
theorem AdmitsFrom.queue {j : Journal κ β} {deliveries : List (Write κ β)}
    (h : j.AdmitsFrom deliveries) (w : Write κ β) :
    (j.queue w).AdmitsFrom (deliveries ++ [w]) := by
  intro k
  rw [accepted_queue, floor_queue, admitted_concat, if_congr (admissible_congr (h w.key)) rfl rfl]
  split
  · rw [ofKey_append, ofKey_append, h k]
  · exact h k

/-- Confirmations admit nothing. -/
theorem AdmitsFrom.confirm {j : Journal κ β} {deliveries : List (Write κ β)}
    (h : j.AdmitsFrom deliveries) (s : ℕ) : (j.confirm s).AdmitsFrom deliveries := by
  intro k
  rw [ofKey_accepted_confirm, h k, toStaging_confirm, Staging.floor_confirm]

/-- Settling admits nothing. -/
theorem AdmitsFrom.settle {j : Journal κ β} {deliveries : List (Write κ β)}
    (h : j.AdmitsFrom deliveries) : j.settle.AdmitsFrom deliveries := by
  intro k
  rw [Journal.settle, advance, ofKey_accepted_advance, h k]
  rfl

/-- A call admits what it delivers. -/
theorem AdmitsFrom.call {j : Journal κ β} {deliveries : List (Write κ β)}
    (h : j.AdmitsFrom deliveries) (c : Call κ β) :
    (j.call c).AdmitsFrom (deliveries ++ delivered [c]) := by
  cases c with
  | queue w => exact h.queue w
  | confirm s =>
    rw [delivered_confirm, List.append_nil]
    exact h.confirm s
  | settle =>
    rw [delivered_settle, List.append_nil]
    exact h.settle

/-- A run admits from its deliveries, whatever the interleaving of confirmations. -/
theorem admitsFrom_run (c : ℕ) (calls : List (Call κ β)) :
    ((start c).run calls).AdmitsFrom (delivered calls) := by
  induction calls using List.reverseRecOn with
  | nil => exact fun k => rfl
  | append_singleton calls call ih =>
    rw [run_append, run_singleton, delivered_append]
    exact ih.call call

/-- Each key's accepted writes are those admitted from its deliveries, whatever the
interleaving of confirmations. -/
theorem ofKey_accepted_run (c : ℕ) (calls : List (Call κ β)) (k : κ) :
    ofKey k ((start c).run calls).accepted = ofKey k (admitted c (delivered calls)) := by
  have h := admitsFrom_run c calls k
  rwa [floor_run] at h

/-- A confirmation that acts leaves nothing confirmed staged. -/
theorem swept_run_confirm (j : Journal κ β) (calls : List (Call κ β)) {s : ℕ}
    (h : confirmedBy j.confirmed calls < s) : (j.run (calls ++ [.confirm s])).Swept := by
  rw [run_append]
  change Staging.Swept (confirm _ s).toStaging
  rw [toStaging_confirm]
  exact Staging.swept_confirm ((confirmed_run j calls).trans_lt h)

/-- Settling leaves nothing confirmed staged. -/
theorem swept_run_settle (j : Journal κ β) (calls : List (Call κ β)) :
    (j.run (calls ++ [.settle])).Swept := by
  rw [run_append]
  exact Staging.swept_settle _

/-- Newest wins: once nothing confirmed is staged, the last applied write of a key is the
newest delivered one between the floor and the confirmed slot, provided no write above the
confirmed slot overtook one below it. -/
theorem latest_run {c : ℕ} {calls : List (Call κ β)} {k : κ}
    (hswept : ((start c).run calls).Swept)
    (harrival : (ofKey k (delivered calls)).Pairwise fun a b =>
      ((start c).run calls).confirmed < a.slot → ((start c).run calls).confirmed < b.slot) :
    ((start c).run calls).latest k =
      newest k ((delivered calls).filter fun w =>
        c ≤ w.slot ∧ w.slot ≤ ((start c).run calls).confirmed) := by
  rw [Staging.latest, hswept.ofKey_applied, ofKey_accepted_run, ofKey_admitted_filter_le harrival,
    getLast?_ofKey_admitted, List.filter_filter]
  congr 2
  funext w
  simp

/-- The version filter passes everything when the writes of each key arrive oldest first. -/
theorem toStaging_run {calls : List (Call κ β)} {j : Journal κ β}
    (hnewer : ∀ w ∈ delivered calls, ∀ a ∈ j.accepted, a.key = w.key → a.tag < w.tag)
    (hincreasing : (delivered calls).Pairwise fun a b => a.key = b.key → a.tag < b.tag) :
    (j.run calls).toStaging = j.toStaging.run calls := by
  induction calls generalizing j with
  | nil => rfl
  | cons c calls ih =>
    rw [delivered_cons c calls] at hnewer hincreasing
    obtain ⟨-, hrest, hcross⟩ := List.pairwise_append.mp hincreasing
    have hstep : (j.call c).toStaging = j.toStaging.call c := by
      cases c with
      | queue w =>
        change (j.queue w).toStaging = j.toStaging.queue w
        have hadm : Admissible j.floor j.accepted w ↔ j.floor ≤ w.slot :=
          and_iff_left (hnewer w (List.mem_append_left _ List.mem_cons_self))
        unfold queue Staging.queue
        by_cases hfloor : j.floor ≤ w.slot
        · rw [dif_pos hfloor, dif_pos (hadm.mpr hfloor)]
        · rw [dif_neg hfloor, dif_neg (mt hadm.mp hfloor)]
      | confirm s => exact toStaging_confirm j s
      | settle => rfl
    rw [run_cons, Staging.run_cons, ← hstep]
    refine ih (fun w hw a ha => ?_) hrest
    rw [hstep, Staging.mem_accepted_call] at ha
    rcases ha with ha | ha
    · exact hnewer w (List.mem_append_right _ hw) a ha
    · exact hcross a ha.1 w hw

/-- A swept journal over values read from a chain holds the chain state at its confirmed slot. -/
theorem current_run_eq_stateAt {α : Type*} {val : β → Option α} {chain : Chain κ β}
    {calls : List (Call κ β)} {base : κ → Option α} {c p s : ℕ} {k : κ}
    (hswept : ((start c).run calls).Swept) (hs : confirmedBy c calls = s)
    (harrival : (ofKey k (delivered calls)).Pairwise fun a b => s < a.slot → s < b.slot)
    (hbase : base k = chain.stateAt val p k) (hcp : c ≤ p) (hps : p ≤ s)
    (hfrom : ∀ w ∈ delivered calls, w ∈ chain.writes)
    (hall : ∀ w ∈ chain.writes, w.key = k → c < w.slot → w.slot ≤ s →
      ∃ v ∈ delivered calls, v.key = k ∧ v.slot ≤ s ∧ w.tag ≤ v.tag)
    (hboundary : ∀ v ∈ delivered calls, v.key = k → v.slot = c →
      ∀ w ∈ chain.writes, w.key = k → w.slot = c →
        ∃ u ∈ delivered calls, u.key = k ∧ u.slot ≤ s ∧ w.tag ≤ u.tag) :
    ((start c).run calls).current val base k = chain.stateAt val s k := by
  have hconfirmed : ((start c : Journal κ β).run calls).confirmed = s :=
    (confirmed_run _ calls).trans hs
  have hlatest := latest_run hswept (hconfirmed.symm ▸ harrival)
  rw [hconfirmed] at hlatest
  rw [Staging.current, hlatest, hbase]
  exact Chain.replay_eq_stateAt hcp hps hfrom hall hboundary

end Journal

end AltCache.Replay
